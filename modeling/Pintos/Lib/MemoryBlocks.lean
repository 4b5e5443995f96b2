import Pintos.Lib.Strtok

/-!
# Moving and filling blocks of memory (lib/string.c)

Pointers are 32-bit numbers and their arithmetic wraps around. `memmove` goes through the
blocks upwards or downwards, so that it reads no byte that it has already overwritten. `none`
is a failed `ASSERT`.
-/

namespace Pintos.Lib

open Function

/-- `while (size-- > 0) *dst++ = *src++;` with the last value of `dst`. -/
def moveUp : Nat → Bytes → Nat → Nat → Bytes × Nat
  | 0, mem, dst, _ => (mem, dst)
  | size + 1, mem, dst, src =>
      moveUp size (Function.update mem dst (mem src)) ((dst + 1) % 4294967296)
        ((src + 1) % 4294967296)

/-- `while (size-- > 0) *--dst = *--src;` with the last value of `dst`. -/
def moveDown : Nat → Bytes → Nat → Nat → Bytes × Nat
  | 0, mem, dst, _ => (mem, dst)
  | size + 1, mem, dst, src =>
      let dst := (4294967295 + dst) % 4294967296
      let src := (4294967295 + src) % 4294967296
      moveDown size (Function.update mem dst (mem src)) dst src

/-- Memory and the pointer that `memmove` returns: `dst` as its loop has left it. -/
def memmove (mem : Bytes) (dst src size : Nat) : Option (Bytes × Nat) :=
  if (dst ≠ 0 ∨ size = 0) ∧ (src ≠ 0 ∨ size = 0) then
    if dst < src then some (moveUp size mem dst src)
    else some (moveDown size mem ((dst + size) % 4294967296) ((src + size) % 4294967296))
  else none

/-- A range of addresses that does not leave memory. -/
structure Inside (a size : Nat) : Prop where
  ptr : a < 4294967296
  fits : a + size ≤ 4294967296

/-- Bytes `lo` to `hi` of the block at `dst` are those of `src` in `before`, the rest as it was. -/
structure Copied (before after : Bytes) (dst src lo hi : Nat) : Prop where
  bytes : ∀ i, lo ≤ i → i < hi → after (dst + i) = before (src + i)
  frame : ∀ a, a < dst + lo ∨ dst + hi ≤ a → after a = before a

namespace Copied

variable {before after : Bytes} {dst src size k : Nat}

lemma empty (mem : Bytes) (dst src k : Nat) : Copied mem mem dst src k k where
  bytes _ hle hlt := absurd hlt (Nat.not_lt.mpr hle)
  frame _ _ := rfl

/-- The next byte upwards has not been overwritten if the source is above. -/
lemma up (h : Copied before after dst src 0 k) (hle : dst ≤ src) :
    Copied before (update after (dst + k) (after (src + k))) dst src 0 (k + 1) where
  bytes i hlo hi := by
    by_cases hik : i = k
    · rw [hik, update_self]
      exact h.frame _ (by omega)
    · rw [update_of_ne (by omega)]
      exact h.bytes i hlo (by omega)
  frame a ha := by
    rw [update_of_ne (by omega)]
    exact h.frame a (by omega)

lemma down (h : Copied before after dst src (k + 1) size) (hle : src ≤ dst) (hk : k < size) :
    Copied before (update after (dst + k) (after (src + k))) dst src k size where
  bytes i hlo hi := by
    by_cases hik : i = k
    · rw [hik, update_self]
      exact h.frame _ (by omega)
    · rw [update_of_ne (by omega)]
      exact h.bytes i (by omega) hi
  frame a ha := by
    rw [update_of_ne (by omega)]
    exact h.frame a (by omega)

end Copied

section Memmove

variable {mem : Bytes} {dst src size : Nat}

lemma moveUp_spec (hd : Inside dst size) (hs : Inside src size) (hle : dst ≤ src) {n k : Nat}
    {after : Bytes} (hn : k + n = size) (h : Copied mem after dst src 0 k) :
    ∃ mem', moveUp n after ((dst + k) % 4294967296) ((src + k) % 4294967296) =
        (mem', (dst + size) % 4294967296) ∧ Copied mem mem' dst src 0 size := by
  induction n generalizing k after with
  | zero =>
    rw [Nat.add_zero] at hn
    subst hn
    exact ⟨after, rfl, h⟩
  | succ n ih =>
    have hdst : (dst + k) % 4294967296 = dst + k := Nat.mod_eq_of_lt (by have := hd.fits; omega)
    have hsrc : (src + k) % 4294967296 = src + k := Nat.mod_eq_of_lt (by have := hs.fits; omega)
    rw [hdst, hsrc, moveUp]
    exact ih (by omega) (h.up hle)

lemma moveDown_spec (hd : Inside dst size) (hs : Inside src size) (hle : src ≤ dst) {k : Nat}
    {after : Bytes} (hk : k ≤ size) (h : Copied mem after dst src k size) :
    ∃ mem', moveDown k after ((dst + k) % 4294967296) ((src + k) % 4294967296) = (mem', dst) ∧
      Copied mem mem' dst src 0 size := by
  induction k generalizing after with
  | zero => exact ⟨after, by rw [moveDown, Nat.add_zero, Nat.mod_eq_of_lt hd.ptr], h⟩
  | succ k ih =>
    have hdst : (4294967295 + (dst + (k + 1)) % 4294967296) % 4294967296 = dst + k := by
      have := hd.fits
      omega
    have hsrc : (4294967295 + (src + (k + 1)) % 4294967296) % 4294967296 = src + k := by
      have := hs.fits
      omega
    have hdst' : dst + k = (dst + k) % 4294967296 := by
      have := hd.fits
      omega
    have hsrc' : src + k = (src + k) % 4294967296 := by
      have := hs.fits
      omega
    obtain ⟨mem', hloop, hcopied⟩ := ih (by omega) (h.down hle (by omega))
    refine ⟨mem', ?_, hcopied⟩
    rw [moveDown, hdst, hsrc, ← hloop, ← hdst', ← hsrc']

/-- The block is moved in either direction, and the pointer is the end of the block if the
move was upwards. -/
lemma memmove_spec (mem : Bytes) (hd : Inside dst size) (hs : Inside src size)
    (hdst : dst ≠ 0 ∨ size = 0) (hsrc : src ≠ 0 ∨ size = 0) :
    ∃ mem', memmove mem dst src size =
        some (mem', if dst < src then (dst + size) % 4294967296 else dst) ∧
      Copied mem mem' dst src 0 size := by
  rw [memmove, if_pos ⟨hdst, hsrc⟩]
  by_cases hlt : dst < src
  · obtain ⟨mem', hloop, hcopied⟩ :=
      moveUp_spec hd hs (Nat.le_of_lt hlt) (Nat.zero_add size) (Copied.empty mem dst src 0)
    rw [Nat.add_zero, Nat.add_zero, Nat.mod_eq_of_lt hd.ptr, Nat.mod_eq_of_lt hs.ptr] at hloop
    exact ⟨mem', by rw [if_pos hlt, if_pos hlt, hloop], hcopied⟩
  · obtain ⟨mem', hloop, hcopied⟩ :=
      moveDown_spec hd hs (Nat.not_lt.mp hlt) (Nat.le_refl size) (Copied.empty mem dst src size)
    exact ⟨mem', by rw [if_neg hlt, if_neg hlt, hloop], hcopied⟩

/-- `memmove` moves the block and changes nothing else. It returns `dst` exactly if there is nothing
to move or the destination is not below the source. -/
theorem memmove_returns_iff (mem : Bytes) (hd : Inside dst size) (hs : Inside src size) :
    (∀ mem' p, memmove mem dst src size = some (mem', p) → Copied mem mem' dst src 0 size) ∧
      ((∃ mem', memmove mem dst src size = some (mem', dst)) ↔
        size = 0 ∨ dst ≠ 0 ∧ src ≠ 0 ∧ src ≤ dst) := by
  by_cases hnull : (dst ≠ 0 ∨ size = 0) ∧ (src ≠ 0 ∨ size = 0)
  · obtain ⟨mem', hmove, hcopied⟩ := memmove_spec mem hd hs hnull.1 hnull.2
    rw [hmove]
    constructor
    · rintro _ p ⟨⟩
      exact hcopied
    · simp only [Option.some.injEq, Prod.mk.injEq, exists_eq_left']
      have hptr := hd.ptr
      have hfits := hd.fits
      split <;> omega
  · rw [memmove, if_neg hnull]
    refine ⟨nofun, iff_of_false nofun ?_⟩
    omega

theorem memmove_returns_iff_down :
    ∃ mem', memmove (fun a => UInt8.ofNat a) 4100 4096 8 = some (mem', 4100) :=
  (memmove_returns_iff (fun a => UInt8.ofNat a) ⟨by decide, by decide⟩ ⟨by decide, by decide⟩).2.mpr
    (.inr (by decide))

/-- Eight bytes are moved down by four: the pointer is behind the block. -/
theorem memmove_returns_end :
    (memmove (fun a => UInt8.ofNat a) 4096 4100 8).map Prod.snd = some 4104 := by
  decide

end Memmove

def fillUp (value : UInt8) : Nat → Bytes → Nat → Bytes
  | 0, mem, _ => mem
  | size + 1, mem, dst =>
      fillUp value size (Function.update mem dst value) ((dst + 1) % 4294967296)

def memset (mem : Bytes) (dst : Nat) (value : UInt8) (size : Nat) : Option (Bytes × Nat) :=
  if dst ≠ 0 ∨ size = 0 then some (fillUp value size mem dst, dst) else none

lemma fillUp_of_eq (value : UInt8) {size dst a : Nat} {mem : Bytes} (ha : mem a = value) :
    fillUp value size mem dst a = value := by
  induction size generalizing mem dst with
  | zero => exact ha
  | succ size ih =>
    refine ih ?_
    rw [update_apply]
    split
    · rfl
    · exact ha

lemma fillUp_wrapping (value : UInt8) {size dst i : Nat} (mem : Bytes) (hdst : dst < 4294967296)
    (hi : i < size) : fillUp value size mem dst ((dst + i) % 4294967296) = value := by
  induction size generalizing mem dst i with
  | zero => cases hi
  | succ size ih =>
    rw [fillUp]
    cases i with
    | zero =>
      have hstart : (dst + 0) % 4294967296 = dst := Nat.mod_eq_of_lt hdst
      rw [hstart]
      exact fillUp_of_eq value (update_self dst value mem)
    | succ i =>
      have hnext : (dst + (i + 1)) % 4294967296 = ((dst + 1) % 4294967296 + i) % 4294967296 := by
        omega
      rw [hnext]
      exact ih _ (Nat.mod_lt _ (by decide)) (Nat.lt_of_succ_lt_succ hi)

end Pintos.Lib
