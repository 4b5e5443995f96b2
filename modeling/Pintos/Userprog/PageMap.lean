import Pintos.Userprog.PageDir
import Mathlib.Data.Nat.Bitwise

/-!
# Page directories as maps

A directory stands for a partial map from user pages to frames, each writable or not. As
long as its page tables are pages of their own, a new table leaves the map as it is and a
new entry changes it at one page.
-/

namespace Pintos.Userprog

open Function Nat

def pteW : UInt32 := 2

def pteU : UInt32 := 4

def pdeCreate (pt : Nat) : UInt32 := UInt32.ofNat pt ||| pteU ||| pteP ||| pteW

def pteCreateUser (page : Nat) (writable : Bool) : UInt32 :=
  UInt32.ofNat page ||| pteP ||| (if writable then pteW else 0) ||| pteU

lemma pteP_iff (w : UInt32) : w &&& pteP ≠ 0 ↔ w.toNat % 2 = 1 := by
  have hand : (w &&& pteP).toNat = w.toNat % 2 := by
    rw [UInt32.toNat_and]
    exact and_two_pow_sub_one_eq_mod w.toNat 1
  have hzero : w &&& pteP = 0 ↔ w.toNat % 2 = 0 := by
    rw [← hand]
    exact UInt32.toNat_inj.symm
  rw [Ne, hzero]
  omega

lemma pteW_iff (w : UInt32) : w &&& pteW ≠ 0 ↔ w.toNat / 2 % 2 = 1 := by
  have hand : (w &&& pteW).toNat = (w.toNat.testBit 1).toNat * 2 := by
    rw [UInt32.toNat_and]
    exact and_two_pow w.toNat 1
  have hzero : w &&& pteW = 0 ↔ (w.toNat.testBit 1).toNat * 2 = 0 := by
    rw [← hand]
    exact UInt32.toNat_inj.symm
  rw [Ne, hzero, testBit_eq_decide_div_mod_eq]
  simp

lemma toNat_and_pteAddr (w : UInt32) : (w &&& pteAddr).toNat = w.toNat / 4096 * 4096 := by
  have hw := w.toNat_lt
  have hmask : (w &&& pteAddr).toNat = w.toNat &&& (1048575 <<< 12) := by
    rw [UInt32.toNat_and]
    rfl
  have hsplit : w.toNat &&& (1048575 <<< 12) = ((w.toNat >>> 12) &&& (2 ^ 20 - 1)) <<< 12 := by
    apply eq_of_testBit_eq
    intro i
    simp only [testBit_and, testBit_shiftLeft, testBit_shiftRight]
    by_cases hi : 12 ≤ i
    · have hback : 12 + (i - 12) = i := by omega
      simp [hi, hback]
    · simp [hi]
  rw [hmask, hsplit, and_two_pow_sub_one_eq_mod, shiftRight_eq_div_pow, shiftLeft_eq]
  omega

lemma toNat_or_flags {p : Nat} (hp : p % 4096 = 0) (hlt : p < 4294967296) {k : UInt32}
    (hk : k.toNat < 4096) : (UInt32.ofNat p ||| k).toNat = p + k.toNat := by
  have hor := two_pow_add_eq_or_of_lt (i := 12) hk (p / 4096)
  have hpage : 2 ^ 12 * (p / 4096) = p := by omega
  rw [hpage] at hor
  rw [UInt32.toNat_or, UInt32.toNat_ofNat_of_lt' hlt, ← hor]

lemma toNat_pdeCreate {pt : Nat} (hp : pt % 4096 = 0) (hlt : pt < 4294967296) :
    (pdeCreate pt).toNat = pt + 7 := by
  rw [pdeCreate, UInt32.or_assoc, UInt32.or_assoc]
  exact toNat_or_flags hp hlt (by decide)

lemma toNat_pteCreateUser {page : Nat} (hp : page % 4096 = 0) (hlt : page < 4294967296)
    (writable : Bool) : (pteCreateUser page writable).toNat = page + if writable then 7 else 5 := by
  rw [pteCreateUser, UInt32.or_assoc, UInt32.or_assoc,
    toNat_or_flags hp hlt (by cases writable <;> decide)]
  cases writable <;> rfl

lemma pdeCreate_present (pt : Nat) : pdeCreate pt &&& pteP ≠ 0 := by
  rw [pteP_iff, pdeCreate, UInt32.or_assoc, UInt32.or_assoc, UInt32.toNat_or, or_mod_two_eq_one]
  exact Or.inr rfl

lemma pteCreateUser_present (page : Nat) (writable : Bool) :
    pteCreateUser page writable &&& pteP ≠ 0 := by
  rw [pteP_iff, pteCreateUser, UInt32.or_assoc, UInt32.or_assoc, UInt32.toNat_or, or_mod_two_eq_one]
  right
  cases writable <;> rfl

namespace PageDir

/-- An entry that is present is written at `a`, in the directory or one of its tables. -/
def write (pd : PageDir) (a : Nat) (w : UInt32) (hw : w &&& pteP ≠ 0) : PageDir where
  base := pd.base
  word := Function.update pd.word a w
  formed := by
    intro i hi
    by_cases ha : pd.base + 4 * i = a
    · rw [ha, Function.update_self]
      exact Or.inr hw
    · rw [Function.update_of_ne ha]
      exact pd.formed i hi

/-- A page for a table comes from `palloc_get_page (PAL_ZERO)`. -/
def zeroPage (pd : PageDir) (p : Nat) : PageDir where
  base := pd.base
  word := fun a => if p ≤ a ∧ a < p + 4096 then 0 else pd.word a
  formed := by
    intro i hi
    split
    · exact Or.inl rfl
    · exact pd.formed i hi

def addTable (pd : PageDir) (va : UInt32) (pt : Nat) : PageDir :=
  (pd.zeroPage pt).write (pd.base + 4 * (pdNo va).toNat) (pdeCreate pt) (pdeCreate_present pt)

def setPte (pd : PageDir) (pte page : Nat) (writable : Bool) : PageDir :=
  pd.write pte (pteCreateUser page writable) (pteCreateUser_present page writable)

/-! ## The map -/

/-- The frame of an entry and whether user code may write to it. -/
def entry (w : UInt32) : Option (Nat × Bool) :=
  if w &&& pteP = 0 then none else some ((w &&& pteAddr).toNat, w &&& pteW ≠ 0)

def pdeAt (pd : PageDir) (i : Nat) : UInt32 := pd.word (pd.base + 4 * i)

def table (pd : PageDir) (i : Nat) : Nat := (pd.pdeAt i &&& pteAddr).toNat

def mapping (pd : PageDir) (n : Nat) : Option (Nat × Bool) :=
  if pd.pdeAt (n / 1024) = 0 then none
  else entry (pd.word (pd.table (n / 1024) + 4 * (n % 1024)))

lemma present_of_ne_zero (pd : PageDir) {i : Nat} (hi : i < 1024) (h : pd.pdeAt i ≠ 0) :
    pd.pdeAt i &&& pteP ≠ 0 := by
  rcases pd.formed i hi with hzero | hp
  · exact absurd hzero h
  · exact hp

lemma table_aligned (pd : PageDir) (i : Nat) : pd.table i % 4096 = 0 := by
  rw [table, toNat_and_pteAddr]
  omega

lemma entry_pteCreateUser {page : Nat} (hp : page % 4096 = 0) (hlt : page < 4294967296)
    (writable : Bool) : entry (pteCreateUser page writable) = some (page, writable) := by
  have hword := toNat_pteCreateUser hp hlt writable
  have haddr : (pteCreateUser page writable &&& pteAddr).toNat = page := by
    rw [toNat_and_pteAddr, hword]
    cases writable <;> simp <;> omega
  have hw : (pteCreateUser page writable &&& pteW ≠ 0) ↔ writable = true := by
    rw [pteW_iff, hword]
    cases writable <;> simp <;> omega
  rw [entry, if_neg (pteCreateUser_present page writable), haddr]
  simp [hw]

/-- The processor finds what the map says. -/
lemma translate_eq_mapping (pd : PageDir) (va : UInt32) :
    pd.translate va = (pd.mapping (va.toNat / 4096)).map fun e => e.1 + va.toNat % 4096 := by
  have hpde : pd.pde va = pd.pdeAt (va.toNat / 4096 / 1024) := by
    rw [pde, toNat_pdNo, pdeAt]
  have hlt : va.toNat / 4096 / 1024 < 1024 := by
    have hva := va.toNat_lt
    omega
  rw [translate, hpde, toNat_ptNo, toNat_pgOfs, mapping]
  by_cases hzero : pd.pdeAt (va.toNat / 4096 / 1024) = 0
  · rw [if_pos hzero, hzero]
    rfl
  · rw [if_neg hzero, if_neg (pd.present_of_ne_zero hlt hzero)]
    change (if pd.word (pd.table (va.toNat / 4096 / 1024) + _) &&& pteP = 0 then none else _) = _
    unfold entry
    split <;> rfl

/-- The directory and the page tables of the user pages are pages of their own. -/
structure Separate (pd : PageDir) : Prop where
  aligned : pd.base % 4096 = 0
  apart : ∀ i < 768, pd.pdeAt i ≠ 0 → pd.table i ≠ pd.base
  inj : ∀ i < 768, ∀ j < 768, pd.pdeAt i ≠ 0 → pd.pdeAt j ≠ 0 → pd.table i = pd.table j → i = j

variable {pd : PageDir}

lemma addTable_pdeAt (hs : pd.Separate) (va : UInt32) {pt : Nat} (hp : pt % 4096 = 0)
    (hbase : pt ≠ pd.base) {j : Nat} (hj : j < 1024) :
    (pd.addTable va pt).pdeAt j = if j = (pdNo va).toNat then pdeCreate pt else pd.pdeAt j := by
  have haligned := hs.aligned
  change update (pd.zeroPage pt).word _ _ (pd.base + 4 * j) = _
  by_cases hji : j = (pdNo va).toNat
  · rw [hji, update_self, if_pos rfl]
  · rw [update_of_ne (by omega), if_neg hji]
    exact if_neg (by omega)

lemma addTable_mapping (hs : pd.Separate) {va : UInt32} {pt : Nat} (hp : pt % 4096 = 0)
    (hlt : pt < 4294967296) (hbase : pt ≠ pd.base) (hzero : pd.pdeAt (pdNo va).toNat = 0)
    (htables : ∀ j < 768, pd.pdeAt j ≠ 0 → pd.table j ≠ pt) {n : Nat} (hn : n < 786432) :
    (pd.addTable va pt).mapping n = pd.mapping n := by
  have haligned := hs.aligned
  have hva := pdNo_lt va
  have hj : n / 1024 < 768 := by omega
  have hpde := addTable_pdeAt hs va hp hbase (lt_trans hj (by omega : 768 < 1024))
  unfold mapping table
  rw [hpde]
  by_cases hji : n / 1024 = (pdNo va).toNat
  · -- the new table is zero
    have hne : pdeCreate pt ≠ 0 := by
      intro h
      have hword := toNat_pdeCreate hp hlt
      rw [h] at hword
      exact absurd hword (by simp)
    have hword : (pd.addTable va pt).word (pt + 4 * (n % 1024)) = 0 := by
      change update (pd.zeroPage pt).word _ _ _ = 0
      rw [update_of_ne (by omega)]
      exact if_pos (by omega)
    have haddr : (pdeCreate pt &&& pteAddr).toNat = pt := by
      rw [toNat_and_pteAddr, toNat_pdeCreate hp hlt]
      omega
    rw [if_pos hji, if_neg hne, haddr, hword, hji, if_pos hzero]
    rfl
  · rw [if_neg hji]
    by_cases hnone : pd.pdeAt (n / 1024) = 0
    · rw [if_pos hnone, if_pos hnone]
    · have htable := htables (n / 1024) hj hnone
      have hown := hs.apart (n / 1024) hj hnone
      have htaligned := pd.table_aligned (n / 1024)
      have hword : (pd.addTable va pt).word (pd.table (n / 1024) + 4 * (n % 1024)) =
          pd.word (pd.table (n / 1024) + 4 * (n % 1024)) := by
        change update (pd.zeroPage pt).word _ _ _ = _
        rw [update_of_ne (by omega)]
        exact if_neg (by omega)
      rw [if_neg hnone, if_neg hnone]
      exact congrArg entry hword

lemma addTable_separate (hs : pd.Separate) {va : UInt32} {pt : Nat} (hp : pt % 4096 = 0)
    (hlt : pt < 4294967296) (hbase : pt ≠ pd.base)
    (htables : ∀ j < 768, pd.pdeAt j ≠ 0 → pd.table j ≠ pt) : (pd.addTable va pt).Separate := by
  have haddr : (pdeCreate pt &&& pteAddr).toNat = pt := by
    rw [toNat_and_pteAddr, toNat_pdeCreate hp hlt]
    omega
  have hcases : ∀ i < 768, (pd.addTable va pt).pdeAt i ≠ 0 →
      (i = (pdNo va).toNat ∧ (pd.addTable va pt).table i = pt) ∨
      (i ≠ (pdNo va).toNat ∧ pd.pdeAt i ≠ 0 ∧ (pd.addTable va pt).table i = pd.table i) := by
    intro i hi hne
    have hpde := addTable_pdeAt hs va hp hbase (lt_trans hi (by omega : 768 < 1024))
    by_cases hiv : i = (pdNo va).toNat
    · rw [if_pos hiv] at hpde
      exact Or.inl ⟨hiv, by rw [table, hpde, haddr]⟩
    · rw [if_neg hiv] at hpde
      exact Or.inr ⟨hiv, hpde ▸ hne, by rw [table, hpde]; rfl⟩
  refine ⟨hs.aligned, fun i hi hne => ?_, fun i hi j hj hi0 hj0 heq => ?_⟩
  · rcases hcases i hi hne with ⟨-, ht⟩ | ⟨-, hold, ht⟩
    · rwa [ht]
    · rw [ht]
      exact hs.apart i hi hold
  · rcases hcases i hi hi0 with ⟨hiv, hti⟩ | ⟨hiv, holdi, hti⟩
    · rcases hcases j hj hj0 with ⟨hjv, -⟩ | ⟨-, holdj, htj⟩
      · rw [hiv, hjv]
      · rw [hti, htj] at heq
        exact absurd heq.symm (htables j hj holdj)
    · rcases hcases j hj hj0 with ⟨-, htj⟩ | ⟨-, holdj, htj⟩
      · rw [hti, htj] at heq
        exact absurd heq (htables i hi holdi)
      · rw [hti, htj] at heq
        exact hs.inj i hi j hj holdi holdj heq

/-- The word `w` is written to the entry of page `n`. -/
structure Updated (pd pd' : PageDir) (n : Nat) (w : UInt32) : Prop where
  base : pd'.base = pd.base
  word : pd'.word = Function.update pd.word (pd.table (n / 1024) + 4 * (n % 1024)) w

lemma setPte_updated (pd : PageDir) (n page : Nat) (writable : Bool) :
    Updated pd (pd.setPte (pd.table (n / 1024) + 4 * (n % 1024)) page writable) n
      (pteCreateUser page writable) := ⟨rfl, rfl⟩

namespace Updated

variable {pd' : PageDir} {n : Nat} {w : UInt32}

section

variable (hu : Updated pd pd' n w) (hs : pd.Separate) (hn : n < 786432)
  (htable : pd.pdeAt (n / 1024) ≠ 0)
include hu hs hn htable

lemma pdeAt {j : Nat} (hj : j < 1024) : pd'.pdeAt j = pd.pdeAt j := by
  have hown := hs.apart (n / 1024) (by omega) htable
  have haligned := hs.aligned
  have htaligned := pd.table_aligned (n / 1024)
  have hplace : pd.base + 4 * j ≠ pd.table (n / 1024) + 4 * (n % 1024) := by omega
  rw [PageDir.pdeAt, hu.base, hu.word, update_of_ne hplace]
  rfl

lemma table {j : Nat} (hj : j < 1024) : pd'.table j = pd.table j := by
  rw [PageDir.table, hu.pdeAt hs hn htable hj]
  rfl

lemma mapping {m : Nat} (hm : m < 786432) :
    pd'.mapping m = if m = n then entry w else pd.mapping m := by
  have hj : m / 1024 < 1024 := by omega
  rw [PageDir.mapping, hu.pdeAt hs hn htable hj, hu.table hs hn htable hj, hu.word]
  by_cases hmn : m = n
  · subst hmn
    rw [if_neg htable, if_pos rfl, update_self]
  · rw [if_neg hmn]
    by_cases hnone : pd.pdeAt (m / 1024) = 0
    · rw [if_pos hnone, PageDir.mapping, if_pos hnone]
    · have htm := pd.table_aligned (m / 1024)
      have htn := pd.table_aligned (n / 1024)
      have hplace : pd.table (m / 1024) + 4 * (m % 1024) ≠
          pd.table (n / 1024) + 4 * (n % 1024) := by
        intro heq
        have hinj := hs.inj (m / 1024) (by omega) (n / 1024) (by omega) hnone htable (by omega)
        omega
      rw [if_neg hnone, update_of_ne hplace, PageDir.mapping, if_neg hnone]

lemma separate : pd'.Separate := by
  have hpde : ∀ j < 768, pd'.pdeAt j = pd.pdeAt j := fun j hj =>
    hu.pdeAt hs hn htable (lt_trans hj (by omega : 768 < 1024))
  have htab : ∀ j < 768, pd'.table j = pd.table j := fun j hj =>
    hu.table hs hn htable (lt_trans hj (by omega : 768 < 1024))
  refine ⟨hu.base ▸ hs.aligned, fun i hi hne => ?_, fun i hi j hj hi0 hj0 heq => ?_⟩
  · rw [hpde i hi] at hne
    rw [htab i hi, hu.base]
    exact hs.apart i hi hne
  · rw [hpde i hi] at hi0
    rw [hpde j hj] at hj0
    rw [htab i hi, htab j hj] at heq
    exact hs.inj i hi j hj hi0 hj0 heq

end

end Updated

end PageDir

end Pintos.Userprog
