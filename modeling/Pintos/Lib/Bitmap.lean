import Mathlib.Algebra.Group.Nat.Defs
import Mathlib.Logic.Function.Basic

/-!
# Bitmaps (lib/kernel/bitmap.c)

A bitmap is an array of 32-bit elements. The operations below read and write
the elements through masks, as the source does; the lemmas state what each one
does to single bits. `BITMAP_ERROR` is `none`.
-/

namespace Pintos.Lib

open Function BitVec

structure Bitmap where
  bitCnt : Nat
  bits : Nat → BitVec 32

def elemIdx (bitIdx : Nat) : Nat := bitIdx / 32

def bitMask (bitIdx : Nat) : BitVec 32 := 1#32 <<< (bitIdx % 32)

def elemCnt (bitCnt : Nat) : Nat := (bitCnt + 32 - 1) / 32

def byteCnt (bitCnt : Nat) : Nat := 4 * elemCnt bitCnt

def bitmapMark (b : Bitmap) (bitIdx : Nat) : Bitmap :=
  let elem := b.bits (elemIdx bitIdx) ||| bitMask bitIdx
  { b with bits := Function.update b.bits (elemIdx bitIdx) elem }

def bitmapReset (b : Bitmap) (bitIdx : Nat) : Bitmap :=
  let elem := b.bits (elemIdx bitIdx) &&& ~~~ bitMask bitIdx
  { b with bits := Function.update b.bits (elemIdx bitIdx) elem }

def bitmapFlip (b : Bitmap) (bitIdx : Nat) : Bitmap :=
  let elem := b.bits (elemIdx bitIdx) ^^^ bitMask bitIdx
  { b with bits := Function.update b.bits (elemIdx bitIdx) elem }

def bitmapSet (b : Bitmap) (idx : Nat) (value : Bool) : Bitmap :=
  if value then bitmapMark b idx else bitmapReset b idx

def bitmapTest (b : Bitmap) (idx : Nat) : Bool :=
  b.bits (elemIdx idx) &&& bitMask idx != 0

def bitmapSetMultiple (b : Bitmap) (start : Nat) : Nat → Bool → Bitmap
  | 0, _ => b
  | cnt + 1, value => bitmapSetMultiple (bitmapSet b start value) (start + 1) cnt value

def bitmapSetAll (b : Bitmap) (value : Bool) : Bitmap := bitmapSetMultiple b 0 b.bitCnt value

/-- `bitmap_create`; `bits` is what the new memory holds. -/
def bitmapCreate (mallocOk : Bool) (bitCnt : Nat) (bits : Nat → BitVec 32) : Option Bitmap :=
  if mallocOk then some (bitmapSetAll ⟨bitCnt, bits⟩ false) else none

def bitmapBufSize (bitCnt : Nat) : Nat := 8 + byteCnt bitCnt

/-- `bitmap_create_in_buf`; `bits` is what the buffer holds before. -/
def bitmapCreateInBuf (bitCnt blockSize : Nat) (bits : Nat → BitVec 32) : Option Bitmap :=
  if bitmapBufSize bitCnt ≤ blockSize then some (bitmapSetAll ⟨bitCnt, bits⟩ false) else none

/-- The loop of `bitmap_count`, with the bits left to look at and `value_cnt`. -/
def bitmapCountLoop (b : Bitmap) (value : Bool) : Nat → Nat → Nat → Nat
  | 0, _, valueCnt => valueCnt
  | left + 1, i, valueCnt =>
      let valueCnt := if bitmapTest b i = value then valueCnt + 1 else valueCnt
      bitmapCountLoop b value left (i + 1) valueCnt

def bitmapCount (b : Bitmap) (start cnt : Nat) (value : Bool) : Nat :=
  bitmapCountLoop b value cnt start 0

def bitmapContains (b : Bitmap) (start : Nat) : Nat → Bool → Bool
  | 0, _ => false
  | cnt + 1, value =>
      if bitmapTest b start = value then true else bitmapContains b (start + 1) cnt value

def bitmapAny (b : Bitmap) (start cnt : Nat) : Bool := bitmapContains b start cnt true

def bitmapNone (b : Bitmap) (start cnt : Nat) : Bool := !bitmapContains b start cnt true

def bitmapAll (b : Bitmap) (start cnt : Nat) : Bool := !bitmapContains b start cnt false

/-- The search loop of `bitmap_scan`, with the number of start positions left. -/
def bitmapScanLoop (b : Bitmap) (cnt : Nat) (value : Bool) : Nat → Nat → Option Nat
  | 0, _ => none
  | left + 1, i =>
      if !bitmapContains b i cnt (!value) then some i
      else bitmapScanLoop b cnt value left (i + 1)

def bitmapScan (b : Bitmap) (start cnt : Nat) (value : Bool) : Option Nat :=
  if cnt ≤ b.bitCnt then bitmapScanLoop b cnt value (b.bitCnt - cnt + 1 - start) start
  else none

def bitmapScanAndFlip (b : Bitmap) (start cnt : Nat) (value : Bool) : Option Nat × Bitmap :=
  match bitmapScan b start cnt value with
  | some idx => (some idx, bitmapSetMultiple b idx cnt (!value))
  | none => (none, b)

/-- Byte `k` of the element array, as `bitmap_write` hands it to the file. -/
def bitmapByte (b : Bitmap) (k : Nat) : UInt8 :=
  UInt8.ofNat ((b.bits (k / 4)).toNat / 256 ^ (k % 4))

/-- The bits in use of the last element. -/
def lastMask (b : Bitmap) : BitVec 32 :=
  let lastBits := b.bitCnt % 32
  if lastBits ≠ 0 then (1#32 <<< lastBits) - 1#32 else -1#32

lemma bitmapTest_eq_getLsbD (b : Bitmap) (idx : Nat) :
    bitmapTest b idx = (b.bits (elemIdx idx)).getLsbD (idx % 32) := by
  have hlt : idx % 32 < 32 := Nat.mod_lt _ (by decide)
  rw [Bool.eq_iff_iff]
  simp only [bitmapTest, bne_iff_ne, ne_eq, eq_of_getLsbD_eq_iff]
  constructor
  · intro h
    by_contra hbit
    apply h
    intro i hi
    by_cases he : i = idx % 32
    · subst he
      simp [bitMask, hbit]
    · have hne : i < idx % 32 ∨ idx % 32 < i := by omega
      rcases hne with hi' | hi'
      · simp [bitMask, hi']
      · have : ¬ i - idx % 32 = 0 := by omega
        simp [bitMask, getLsbD_one, this]
  · intro hbit h
    have hz := h (idx % 32) hlt
    rw [getLsbD_and, hbit] at hz
    simp [bitMask, hlt] at hz

variable {b : Bitmap} {cnt idx start : Nat} {value : Bool}

lemma bitmap_ext {b' : Bitmap} (hcnt : b.bitCnt = b'.bitCnt)
    (h : ∀ i, bitmapTest b i = bitmapTest b' i) : b = b' := by
  have hbits : b.bits = b'.bits := by
    funext k
    apply eq_of_getLsbD_eq
    intro j hj
    have hbit := h (32 * k + j)
    have hidx : elemIdx (32 * k + j) = k := by
      unfold elemIdx
      omega
    have hmod : (32 * k + j) % 32 = j := by omega
    rwa [bitmapTest_eq_getLsbD, bitmapTest_eq_getLsbD, hidx, hmod] at hbit
  cases b
  cases b'
  cases hcnt
  cases hbits
  rfl

lemma lastMask_getLsbD (b : Bitmap) {j : Nat} (hj : j < 32) :
    (lastMask b).getLsbD j = decide (b.bitCnt % 32 = 0 ∨ j < b.bitCnt % 32) := by
  have hlt : b.bitCnt % 32 < 32 := Nat.mod_lt _ (by decide)
  unfold lastMask
  generalize b.bitCnt % 32 = r at hlt
  dsimp only
  by_cases hr : r = 0
  · rw [if_neg (by omega), neg_one_eq_allOnes, getLsbD_allOnes]
    simp [hr, hj]
  · have hpow : 2 ^ r < 2 ^ 32 := Nat.pow_lt_pow_right (by decide) hlt
    have hpos : 0 < 2 ^ r := Nat.two_pow_pos r
    have hnat : ((1#32 <<< r) - 1#32).toNat = 2 ^ r - 1 := by
      rw [toNat_sub, toNat_shiftLeft, Nat.shiftLeft_eq,
        show (1#32).toNat = 1 from rfl, Nat.one_mul, Nat.mod_eq_of_lt hpow]
      omega
    rw [if_pos hr, getLsbD, hnat, Nat.testBit_two_pow_sub_one]
    simp [hr]

lemma bitMask_getLsbD (i j : Nat) : (bitMask i).getLsbD (j % 32) = decide (i % 32 = j % 32) := by
  have hj : j % 32 < 32 := Nat.mod_lt _ (by decide)
  simp only [bitMask, getLsbD_shiftLeft, getLsbD_one, hj, decide_true, Bool.true_and]
  by_cases h : i % 32 = j % 32
  · simp [h]
  · by_cases hlt : j % 32 < i % 32
    · simp [hlt, h]
    · have : ¬ j % 32 - i % 32 = 0 := by omega
      simp [hlt, h, this]

lemma bitmapTest_mark (b : Bitmap) (i j : Nat) :
    bitmapTest (bitmapMark b i) j = (decide (j = i) || bitmapTest b j) := by
  rw [bitmapTest_eq_getLsbD, bitmapTest_eq_getLsbD]
  by_cases he : elemIdx j = elemIdx i
  · have hiff : i % 32 = j % 32 ↔ j = i := by unfold elemIdx at he; omega
    simp [bitmapMark, he, bitMask_getLsbD, hiff, Bool.or_comm]
  · have hne : j ≠ i := fun h => he (h ▸ rfl)
    simp [bitmapMark, update_of_ne he, hne]

lemma bitmapTest_reset (b : Bitmap) (i j : Nat) :
    bitmapTest (bitmapReset b i) j = (!decide (j = i) && bitmapTest b j) := by
  rw [bitmapTest_eq_getLsbD, bitmapTest_eq_getLsbD]
  have hj : j % 32 < 32 := Nat.mod_lt _ (by decide)
  by_cases he : elemIdx j = elemIdx i
  · have hiff : i % 32 = j % 32 ↔ j = i := by unfold elemIdx at he; omega
    simp only [bitmapReset, he, update_self, getLsbD_and, getLsbD_not,
      bitMask_getLsbD, hiff, hj, decide_true, Bool.true_and]
    exact Bool.and_comm _ _
  · have hne : j ≠ i := fun h => he (h ▸ rfl)
    simp [bitmapReset, update_of_ne he, hne]

lemma bitmapTest_flip (b : Bitmap) (i j : Nat) :
    bitmapTest (bitmapFlip b i) j = if j = i then !bitmapTest b j else bitmapTest b j := by
  rw [bitmapTest_eq_getLsbD, bitmapTest_eq_getLsbD]
  by_cases he : elemIdx j = elemIdx i
  · have hiff : i % 32 = j % 32 ↔ j = i := by unfold elemIdx at he; omega
    simp only [bitmapFlip, he, update_self, getLsbD_xor, bitMask_getLsbD, hiff]
    by_cases h : j = i <;> simp [h]
  · have hne : j ≠ i := fun h => he (h ▸ rfl)
    simp [bitmapFlip, update_of_ne he, hne]

lemma bitmapTest_set (b : Bitmap) (i j : Nat) (value : Bool) :
    bitmapTest (bitmapSet b i value) j = if j = i then value else bitmapTest b j := by
  cases value <;> by_cases h : j = i <;>
    simp [bitmapSet, bitmapTest_mark, bitmapTest_reset, h]

@[simp] lemma bitmapSet_bitCnt (b : Bitmap) (i : Nat) (value : Bool) :
    (bitmapSet b i value).bitCnt = b.bitCnt := by
  cases value <;> rfl

@[simp] lemma bitmapSetMultiple_bitCnt (b : Bitmap) (start cnt : Nat) (value : Bool) :
    (bitmapSetMultiple b start cnt value).bitCnt = b.bitCnt := by
  induction cnt generalizing b start with
  | zero => rfl
  | succ cnt ih => rw [bitmapSetMultiple, ih, bitmapSet_bitCnt]

lemma bitmapTest_setMultiple (b : Bitmap) (start cnt j : Nat) (value : Bool) :
    bitmapTest (bitmapSetMultiple b start cnt value) j =
      if start ≤ j ∧ j < start + cnt then value else bitmapTest b j := by
  induction cnt generalizing b start with
  | zero =>
    have h : ¬ (start ≤ j ∧ j < start + 0) := by omega
    rw [if_neg h, bitmapSetMultiple]
  | succ cnt ih =>
    rw [bitmapSetMultiple, ih, bitmapTest_set]
    by_cases hj : j = start
    · subst hj
      simp
    · have hiff : (start + 1 ≤ j ∧ j < start + 1 + cnt) ↔
          (start ≤ j ∧ j < start + (cnt + 1)) := by omega
      rw [if_neg hj]
      simp only [hiff]

lemma bitmapContains_eq_false (b : Bitmap) (start cnt : Nat) (value : Bool) :
    bitmapContains b start cnt value = false ↔
      ∀ j, start ≤ j → j < start + cnt → bitmapTest b j = !value := by
  induction cnt generalizing start with
  | zero =>
    simp only [bitmapContains, true_iff]
    intro j h1 h2
    omega
  | succ cnt ih =>
    by_cases h : bitmapTest b start = value
    · simp only [bitmapContains, h, if_true, Bool.true_eq_false, false_iff, not_forall]
      exact ⟨start, Nat.le_refl _, by omega, by simp [h]⟩
    · rw [bitmapContains, if_neg h, ih]
      constructor
      · intro hall j h1 h2
        by_cases hj : j = start
        · subst hj
          cases value <;> simp_all
        · exact hall j (by omega) (by omega)
      · intro hall j h1 h2
        exact hall j (by omega) (by omega)

lemma bitmapScanLoop_some {left i : Nat} (h : bitmapScanLoop b cnt value left i = some idx) :
    i ≤ idx ∧ idx < i + left ∧
      (∀ j, idx ≤ j → j < idx + cnt → bitmapTest b j = value) ∧
      ∀ k, i ≤ k → k < idx → bitmapContains b k cnt (!value) = true := by
  induction left generalizing i with
  | zero => simp [bitmapScanLoop] at h
  | succ left ih =>
    unfold bitmapScanLoop at h
    split at h
    case isTrue hc =>
        cases h
        have hall := (bitmapContains_eq_false b idx cnt (!value)).mp (by simpa using hc)
        exact ⟨Nat.le_refl _, by omega, by simpa using hall, fun k h1 h2 => by omega⟩
    case isFalse hc =>
        obtain ⟨h1, h2, h3, h4⟩ := ih h
        refine ⟨by omega, by omega, h3, fun k hk hlt => ?_⟩
        by_cases hki : k = i
        · subst hki
          simpa using hc
        · exact h4 k (by omega) hlt

lemma bitmapScan_some (h : bitmapScan b start cnt value = some idx) :
    start ≤ idx ∧ idx + cnt ≤ b.bitCnt ∧
      ∀ j, idx ≤ j → j < idx + cnt → bitmapTest b j = value := by
  unfold bitmapScan at h
  split at h
  case isTrue hc =>
      obtain ⟨h1, h2, h3, -⟩ := bitmapScanLoop_some h
      exact ⟨h1, by omega, h3⟩
  case isFalse hc => simp at h

lemma bitmapContains_not_eq_true (b : Bitmap) (start cnt : Nat) (value : Bool) :
    bitmapContains b start cnt (!value) = true ↔
      ∃ j, start ≤ j ∧ j < start + cnt ∧ bitmapTest b j = !value := by
  rw [← Bool.not_eq_false, bitmapContains_eq_false, Bool.not_not]
  simp only [not_forall, exists_prop, Bool.eq_not]

lemma bitmapScan_least (h : bitmapScan b start cnt value = some idx) :
    ∀ k, start ≤ k → k < idx → ∃ j, k ≤ j ∧ j < k + cnt ∧ bitmapTest b j = !value := by
  intro k hk hlt
  unfold bitmapScan at h
  split at h
  case isTrue hc =>
      exact (bitmapContains_not_eq_true b k cnt value).mp ((bitmapScanLoop_some h).2.2.2 k hk hlt)
  case isFalse hc => cases h

lemma bitmapScanLoop_none {left i : Nat} (h : bitmapScanLoop b cnt value left i = none) :
    ∀ k, i ≤ k → k < i + left → bitmapContains b k cnt (!value) = true := by
  induction left generalizing i with
  | zero =>
    intro k h1 h2
    omega
  | succ left ih =>
    unfold bitmapScanLoop at h
    split at h
    case isTrue hc => cases h
    case isFalse hc =>
        intro k h1 h2
        by_cases hk : k = i
        · subst hk
          simpa using hc
        · exact ih h k (by omega) (by omega)

lemma bitmapScan_none_run (h : bitmapScan b start cnt value = none) :
    ∀ k, start ≤ k → k + cnt ≤ b.bitCnt →
      ∃ j, k ≤ j ∧ j < k + cnt ∧ bitmapTest b j = !value := by
  intro k hstart hk
  rw [bitmapScan, if_pos (by omega)] at h
  exact (bitmapContains_not_eq_true b k cnt value).mp (bitmapScanLoop_none h k hstart (by omega))

lemma bitmapScan_none (h : bitmapScan b 0 1 value = none) :
    ∀ j, j < b.bitCnt → bitmapTest b j = !value := by
  intro j hj
  obtain ⟨k, h1, h2, hk⟩ := bitmapScan_none_run h j (Nat.zero_le j) hj
  have hkj : k = j := by omega
  rwa [hkj] at hk

end Pintos.Lib
