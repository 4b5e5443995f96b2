import Mathlib.Tactic.SplitIfs

/-!
# Page directories (userprog/pagedir.c, threads/pte.h, threads/vaddr.h)

A virtual address is a directory index, a table index and an offset. The directory and
its page tables are words in physical memory. The kernel sees physical memory one to
one from `PHYS_BASE` on, so that a kernel address stands here as the physical address
behind it.
-/

namespace Pintos.Userprog

def physBase : UInt32 := 0xc0000000

def isUserVaddr (va : UInt32) : Bool := va < physBase

lemma isUserVaddr_iff (va : UInt32) : isUserVaddr va = true ↔ va.toNat < 3221225472 := by
  rw [isUserVaddr, decide_eq_true_eq, UInt32.lt_iff_toNat_lt]
  rfl

def pgOfs (va : UInt32) : UInt32 := va &&& 0xfff

def ptNo (va : UInt32) : UInt32 := (va &&& 0x3ff000) >>> 12

def pdNo (va : UInt32) : UInt32 := va >>> 22

lemma toNat_pgOfs (va : UInt32) : (pgOfs va).toNat = va.toNat % 4096 := by
  rw [pgOfs, UInt32.toNat_and]
  exact Nat.and_two_pow_sub_one_eq_mod va.toNat 12

lemma toNat_pdNo (va : UInt32) : (pdNo va).toNat = va.toNat / 4096 / 1024 := by
  rw [pdNo, UInt32.toNat_shiftRight, Nat.div_div_eq_div_mul]
  exact Nat.shiftRight_eq_div_pow va.toNat 22

lemma pdNo_lt (va : UInt32) : (pdNo va).toNat < 1024 := by
  have hva := va.toNat_lt
  rw [toNat_pdNo]
  omega

lemma toNat_ptNo (va : UInt32) : (ptNo va).toNat = va.toNat / 4096 % 1024 := by
  have hshift : (ptNo va).toNat = (va.toNat &&& 0x3ff000) >>> 12 := by
    rw [ptNo, UInt32.toNat_shiftRight, UInt32.toNat_and]
    rfl
  rw [hshift, Nat.shiftRight_and_distrib, Nat.shiftRight_eq_div_pow]
  exact Nat.and_two_pow_sub_one_eq_mod (va.toNat / 4096) 10

def pteAddr : UInt32 := 0xfffff000

def pteP : UInt32 := 1

/-- A directory and the words of memory. An entry is zero or made by `pde_create`. -/
structure PageDir where
  base : Nat
  word : Nat → UInt32
  formed : ∀ i < 1024, word (base + 4 * i) = 0 ∨ word (base + 4 * i) &&& pteP ≠ 0

namespace PageDir

def pde (pd : PageDir) (va : UInt32) : UInt32 := pd.word (pd.base + 4 * (pdNo va).toNat)

/-- `lookup_page (pd, va, false)`, the address of the page table entry. -/
def lookupPage (pd : PageDir) (va : UInt32) : Option Nat :=
  if pd.pde va = 0 then none
  else some ((pd.pde va &&& pteAddr).toNat + 4 * (ptNo va).toNat)

def pagedirGetPage (pd : PageDir) (uaddr : UInt32) : Option Nat :=
  match pd.lookupPage uaddr with
  | none => none
  | some pte =>
      if pd.word pte &&& pteP ≠ 0 then
        some ((pd.word pte &&& pteAddr).toNat + (pgOfs uaddr).toNat)
      else none

/-- What the processor's walk of the directory finds. -/
def translate (pd : PageDir) (va : UInt32) : Option Nat :=
  if pd.pde va &&& pteP = 0 then none
  else
    let pte := pd.word ((pd.pde va &&& pteAddr).toNat + 4 * (ptNo va).toNat)
    if pte &&& pteP = 0 then none else some ((pte &&& pteAddr).toNat + (pgOfs va).toNat)

/-- `pagedir_get_page` finds what the processor would. -/
lemma pagedirGetPage_eq (pd : PageDir) (va : UInt32) : pd.pagedirGetPage va = pd.translate va := by
  unfold pagedirGetPage lookupPage translate
  rcases pd.formed (pdNo va).toNat (pdNo_lt va) with hzero | hpresent
  · have hpde : pd.pde va = 0 := hzero
    simp [hpde]
  · have hpde : pd.pde va &&& pteP ≠ 0 := hpresent
    have hne : pd.pde va ≠ 0 := by
      intro h
      rw [h] at hpde
      simp at hpde
    simp [hpde, hne]

def frame (pd : PageDir) (va : UInt32) : Option Nat :=
  if pd.pde va &&& pteP = 0 then none
  else
    let pte := pd.word ((pd.pde va &&& pteAddr).toNat + 4 * (ptNo va).toNat)
    if pte &&& pteP = 0 then none else some (pte &&& pteAddr).toNat

lemma translate_eq (pd : PageDir) (va : UInt32) :
    pd.translate va = (pd.frame va).map (· + va.toNat % 4096) := by
  unfold translate frame
  rw [toNat_pgOfs]
  split
  · rfl
  · dsimp only
    split <;> rfl

lemma frame_congr (pd : PageDir) {va va' : UInt32} (h : va.toNat / 4096 = va'.toNat / 4096) :
    pd.frame va = pd.frame va' := by
  have hpd : pdNo va = pdNo va' := by
    apply UInt32.toNat_inj.mp
    rw [toNat_pdNo, toNat_pdNo, h]
  have hpt : ptNo va = ptNo va' := by
    apply UInt32.toNat_inj.mp
    rw [toNat_ptNo, toNat_ptNo, h]
  unfold frame pde
  rw [hpd, hpt]

end PageDir

end Pintos.Userprog
