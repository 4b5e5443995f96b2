import Pintos.Foundation.BoolVector
import Pintos.Lib.Bitmap

/-!
# Bitmaps refine vectors of booleans

A bitmap of `n` bits represents a vector of `n` booleans, whatever the bits of its last
element are that it does not use. Every operation does to the vector what its name says
and stays inside the element array; every query is a question about the vector.
-/

namespace Pintos.Lib

open Foundation

variable {n : Nat}

/-- The bits a bitmap uses are the entries of the vector. -/
structure Represents (b : Bitmap) (v : BoolVec n) : Prop where
  bitCnt_eq : b.bitCnt = n
  bits_eq : ∀ i : Fin n, bitmapTest b i = v i

def bitmapVector (b : Bitmap) : BoolVec b.bitCnt := fun i => bitmapTest b i

lemma represents_self (b : Bitmap) : Represents b (bitmapVector b) := ⟨rfl, fun _ => rfl⟩

inductive BitmapOp
  | set (idx : Nat) (value : Bool)
  | mark (bitIdx : Nat)
  | reset (bitIdx : Nat)
  | flip (bitIdx : Nat)
  | setAll (value : Bool)
  | setMultiple (start cnt : Nat) (value : Bool)
  | scanAndFlip (start cnt : Nat) (value : Bool)

/-- The arguments the operations may be called with on a bitmap of `bitCnt` bits. -/
def BitmapOp.InRange (bitCnt : Nat) : BitmapOp → Prop
  | .set idx _ => idx < bitCnt
  | .mark bitIdx => bitIdx < bitCnt
  | .reset bitIdx => bitIdx < bitCnt
  | .flip bitIdx => bitIdx < bitCnt
  | .setAll _ => True
  | .setMultiple start cnt _ => start + cnt ≤ bitCnt
  | .scanAndFlip start _ _ => start ≤ bitCnt

/-- Runs one operation; the first component is what `bitmap_scan_and_flip` returns. -/
def BitmapOp.exec (b : Bitmap) : BitmapOp → Option Nat × Bitmap
  | .set idx value => (none, bitmapSet b idx value)
  | .mark bitIdx => (none, bitmapMark b bitIdx)
  | .reset bitIdx => (none, bitmapReset b bitIdx)
  | .flip bitIdx => (none, bitmapFlip b bitIdx)
  | .setAll value => (none, bitmapSetAll b value)
  | .setMultiple start cnt value => (none, bitmapSetMultiple b start cnt value)
  | .scanAndFlip start cnt value => bitmapScanAndFlip b start cnt value

/-- What the operation means on a vector. -/
noncomputable def BitmapOp.act (v : BoolVec n) : BitmapOp → Option Nat × BoolVec n
  | .set idx value => (none, v.fill idx 1 value)
  | .mark bitIdx => (none, v.fill bitIdx 1 true)
  | .reset bitIdx => (none, v.fill bitIdx 1 false)
  | .flip bitIdx => (none, fun j => if j.val = bitIdx then !v j else v j)
  | .setAll value => (none, fun _ => value)
  | .setMultiple start cnt value => (none, v.fill start cnt value)
  | .scanAndFlip start cnt value =>
      match v.firstRun start cnt value with
      | some idx => (some idx, v.fill idx cnt (!value))
      | none => (none, v)

def bitmapRun (b : Bitmap) : List BitmapOp → List (Option Nat) × Bitmap
  | [] => ([], b)
  | op :: ops =>
      let (out, b) := op.exec b
      let (outs, b) := bitmapRun b ops
      (out :: outs, b)

noncomputable def vectorRun (v : BoolVec n) : List BitmapOp → List (Option Nat) × BoolVec n
  | [] => ([], v)
  | op :: ops =>
      let (out, v) := op.act v
      let (outs, v) := vectorRun v ops
      (out :: outs, v)

lemma elemIdx_lt {bitIdx bitCnt : Nat} (h : bitIdx < bitCnt) : elemIdx bitIdx < elemCnt bitCnt := by
  unfold elemIdx elemCnt
  omega

lemma bitmapSet_outside {b : Bitmap} {idx k : Nat} (value : Bool) (hidx : idx < b.bitCnt)
    (hk : elemCnt b.bitCnt ≤ k) : (bitmapSet b idx value).bits k = b.bits k := by
  have hne : k ≠ elemIdx idx := by
    have := elemIdx_lt hidx
    omega
  cases value with
  | true => exact Function.update_of_ne hne _ _
  | false => exact Function.update_of_ne hne _ _

lemma bitmapSetMultiple_outside {b : Bitmap} {start cnt k : Nat} (value : Bool)
    (hrange : start + cnt ≤ b.bitCnt) (hk : elemCnt b.bitCnt ≤ k) :
    (bitmapSetMultiple b start cnt value).bits k = b.bits k := by
  induction cnt generalizing b start with
  | zero => rfl
  | succ cnt ih =>
    have hcnt := bitmapSet_bitCnt b start value
    rw [bitmapSetMultiple, ih (by omega) (by rwa [hcnt]), bitmapSet_outside value (by omega) hk]

namespace Represents

variable {b : Bitmap} {v : BoolVec n}

section

variable (h : Represents b v)
include h

lemma setMultiple (start cnt : Nat) (value : Bool) :
    Represents (bitmapSetMultiple b start cnt value) (v.fill start cnt value) := by
  refine ⟨by rw [bitmapSetMultiple_bitCnt, h.bitCnt_eq], fun i => ?_⟩
  rw [bitmapTest_setMultiple, BoolVec.fill, h.bits_eq]

lemma set (idx : Nat) (value : Bool) :
    Represents (bitmapSet b idx value) (v.fill idx 1 value) := h.setMultiple idx 1 value

lemma flip (bitIdx : Nat) :
    Represents (bitmapFlip b bitIdx) (fun j => if j.val = bitIdx then !v j else v j) := by
  refine ⟨h.bitCnt_eq, fun i => ?_⟩
  rw [bitmapTest_flip, h.bits_eq]

lemma setAll (value : Bool) : Represents (bitmapSetAll b value) (fun _ : Fin n => value) := by
  have hfill : v.fill 0 n value = fun _ => value := by
    funext j
    simp [BoolVec.fill]
  rw [bitmapSetAll, h.bitCnt_eq, ← hfill]
  exact h.setMultiple 0 n value

lemma runAt_iff (cnt i : Nat) (value : Bool) (hi : i + cnt ≤ n) :
    v.RunAt cnt value i ↔ ∀ j, i ≤ j → j < i + cnt → bitmapTest b j = value := by
  constructor
  · rintro ⟨-, hrun⟩ j h1 h2
    have hj : j < n := by omega
    rw [h.bits_eq ⟨j, hj⟩]
    exact hrun ⟨j, hj⟩ h1 h2
  · intro hrun
    refine ⟨hi, fun j h1 h2 => ?_⟩
    rw [← h.bits_eq]
    exact hrun j h1 h2

lemma not_runAt {cnt k : Nat} {value : Bool} (hk : k + cnt ≤ n)
    (hex : ∃ j, k ≤ j ∧ j < k + cnt ∧ bitmapTest b j = !value) : ¬ v.RunAt cnt value k := by
  rw [h.runAt_iff cnt k value hk]
  intro hrun
  obtain ⟨j, h1, h2, hj⟩ := hex
  rw [hrun j h1 h2] at hj
  cases value <;> cases hj

lemma scan (start cnt : Nat) (value : Bool) :
    bitmapScan b start cnt value = v.firstRun start cnt value := by
  cases hscan : bitmapScan b start cnt value with
  | none =>
    refine ((v.firstRun_eq_none).mpr ?_).symm
    rintro i ⟨hstart, hrun⟩
    have hin := hrun.1
    exact h.not_runAt hin (bitmapScan_none_run hscan i hstart (by rwa [h.bitCnt_eq])) hrun
  | some idx =>
    obtain ⟨hstart, hend, hrun⟩ := bitmapScan_some hscan
    rw [h.bitCnt_eq] at hend
    refine ((v.firstRun_eq_some).mpr ⟨⟨hstart, ?_⟩, ?_⟩).symm
    · exact (h.runAt_iff cnt idx value hend).mpr hrun
    · rintro k ⟨hk, hkrun⟩
      by_contra hlt
      exact h.not_runAt hkrun.1 (bitmapScan_least hscan k hk (by omega)) hkrun

/-- An operation in range returns what it means on the vector and leaves its bitmap. -/
lemma step (op : BitmapOp) (hop : op.InRange n) :
    (op.exec b).1 = (op.act v).1 ∧ Represents (op.exec b).2 (op.act v).2 ∧
      ∀ k, elemCnt n ≤ k → (op.exec b).2.bits k = b.bits k := by
  have hn := h.bitCnt_eq
  cases op with
  | set idx value =>
    exact ⟨rfl, h.set idx value, fun k hk => bitmapSet_outside value (hn ▸ hop) (hn ▸ hk)⟩
  | mark bitIdx =>
    exact ⟨rfl, h.set bitIdx true, fun k hk =>
      bitmapSet_outside (b := b) true (hn ▸ hop) (hn ▸ hk)⟩
  | reset bitIdx =>
    exact ⟨rfl, h.set bitIdx false, fun k hk =>
      bitmapSet_outside (b := b) false (hn ▸ hop) (hn ▸ hk)⟩
  | flip bitIdx =>
    refine ⟨rfl, h.flip bitIdx, fun k hk => ?_⟩
    have hlt := elemIdx_lt hop
    exact Function.update_of_ne (show k ≠ elemIdx bitIdx by omega) _ _
  | setAll value =>
    refine ⟨rfl, h.setAll value, fun k hk => ?_⟩
    exact bitmapSetMultiple_outside value (by omega) (hn ▸ hk)
  | setMultiple start cnt value =>
    exact ⟨rfl, h.setMultiple start cnt value, fun k hk =>
      bitmapSetMultiple_outside value (hn ▸ hop) (hn ▸ hk)⟩
  | scanAndFlip start cnt value =>
    have hscan := h.scan start cnt value
    cases hrun : v.firstRun start cnt value with
    | none =>
      rw [hrun] at hscan
      simp only [BitmapOp.exec, BitmapOp.act, bitmapScanAndFlip, hscan, hrun]
      exact ⟨trivial, h, fun _ _ => trivial⟩
    | some idx =>
      rw [hrun] at hscan
      have hend := (bitmapScan_some hscan).2.1
      simp only [BitmapOp.exec, BitmapOp.act, bitmapScanAndFlip, hscan, hrun]
      exact ⟨trivial, h.setMultiple idx cnt _, fun k hk =>
        bitmapSetMultiple_outside _ hend (hn ▸ hk)⟩

end

end Represents

/-- What the queries return on a bitmap of the vector `v`. -/
structure Answers (b : Bitmap) (v : BoolVec n) : Prop where
  test : ∀ i : Fin n, bitmapTest b i = v i
  count : ∀ start cnt value, start + cnt ≤ n →
    bitmapCount b start cnt value = (v.positions start cnt value).card
  contains : ∀ start cnt value, start + cnt ≤ n →
    (bitmapContains b start cnt value = true ↔
      ∃ j : Fin n, start ≤ j.val ∧ j.val < start + cnt ∧ v j = value)
  any : ∀ start cnt, start + cnt ≤ n →
    (bitmapAny b start cnt = true ↔
      ∃ j : Fin n, start ≤ j.val ∧ j.val < start + cnt ∧ v j = true)
  none : ∀ start cnt, start + cnt ≤ n →
    (bitmapNone b start cnt = true ↔
      ∀ j : Fin n, start ≤ j.val → j.val < start + cnt → v j = false)
  all : ∀ start cnt, start + cnt ≤ n →
    (bitmapAll b start cnt = true ↔
      ∀ j : Fin n, start ≤ j.val → j.val < start + cnt → v j = true)
  scan_some : ∀ start cnt value i, start ≤ n →
    (bitmapScan b start cnt value = some i ↔
      IsLeast {i | start ≤ i ∧ i + cnt ≤ n ∧
        ∀ j : Fin n, i ≤ j.val → j.val < i + cnt → v j = value} i)
  scan_none : ∀ start cnt value, start ≤ n →
    (bitmapScan b start cnt value = Option.none ↔
      ¬ ∃ i, start ≤ i ∧ i + cnt ≤ n ∧
        ∀ j : Fin n, i ≤ j.val → j.val < i + cnt → v j = value)

namespace Represents

variable {b : Bitmap} {v : BoolVec n}

section

variable (h : Represents b v)
include h

lemma countLoop (value : Bool) (left i valueCnt : Nat) (hrange : i + left ≤ n) :
    bitmapCountLoop b value left i valueCnt = valueCnt + (v.positions i left value).card := by
  induction left generalizing i valueCnt with
  | zero => rw [BoolVec.positions_zero, bitmapCountLoop, Finset.card_empty, Nat.add_zero]
  | succ left ih =>
    have hi : i < n := by omega
    rw [bitmapCountLoop, ih _ _ (by omega), v.card_positions_succ value hi, h.bits_eq ⟨i, hi⟩]
    split <;> omega

lemma contains_eq_false {start cnt : Nat} (value : Bool) (hrange : start + cnt ≤ n) :
    bitmapContains b start cnt value = false ↔
      ∀ j : Fin n, start ≤ j.val → j.val < start + cnt → v j = !value := by
  rw [bitmapContains_eq_false, ← h.runAt_iff cnt start (!value) hrange]
  exact and_iff_right hrange

lemma contains_eq_true {start cnt : Nat} (value : Bool) (hrange : start + cnt ≤ n) :
    bitmapContains b start cnt value = true ↔
      ∃ j : Fin n, start ≤ j.val ∧ j.val < start + cnt ∧ v j = value := by
  rw [← Bool.not_eq_false, h.contains_eq_false value hrange]
  simp

lemma answers : Answers b v where
  test := h.bits_eq
  count start cnt value hrange := by
    rw [bitmapCount, h.countLoop value cnt start 0 hrange, Nat.zero_add]
  contains start cnt value hrange := h.contains_eq_true value hrange
  any start cnt hrange := h.contains_eq_true true hrange
  none start cnt hrange := by
    rw [bitmapNone, Bool.not_eq_true', h.contains_eq_false true hrange]
    rfl
  all start cnt hrange := by
    rw [bitmapAll, Bool.not_eq_true', h.contains_eq_false false hrange]
    rfl
  scan_some start cnt value i _ := by
    rw [h.scan, v.firstRun_eq_some]
    rfl
  scan_none start cnt value _ := by
    rw [h.scan, v.firstRun_eq_none, not_exists]
    rfl

lemma run (ops : List BitmapOp) (hops : ∀ op ∈ ops, op.InRange n) :
    (bitmapRun b ops).1 = (vectorRun v ops).1 ∧
      Represents (bitmapRun b ops).2 (vectorRun v ops).2 ∧
      ∀ k, elemCnt n ≤ k → (bitmapRun b ops).2.bits k = b.bits k := by
  induction ops generalizing b v with
  | nil => exact ⟨rfl, h, fun _ _ => rfl⟩
  | cons op ops ih =>
    obtain ⟨hout, hrep, hbits⟩ := h.step op (hops op List.mem_cons_self)
    obtain ⟨houts, hrep', hbits'⟩ := ih hrep fun o ho => hops o (List.mem_cons_of_mem _ ho)
    refine ⟨?_, hrep', fun k hk => ?_⟩
    · simp only [bitmapRun, vectorRun, hout, houts]
    · simp only [bitmapRun, hbits' k hk, hbits k hk]

end

end Represents

/-- Any operations in range do to the elements what they do to the vector of bits, and every query
answers for it. -/
theorem bitmapRun_refines (b : Bitmap) (v : BoolVec n) (h : Represents b v)
    (ops : List BitmapOp) (hops : ∀ op ∈ ops, op.InRange n) :
    (bitmapRun b ops).1 = (vectorRun v ops).1 ∧
      Represents (bitmapRun b ops).2 (vectorRun v ops).2 ∧
      (∀ k, elemCnt n ≤ k → (bitmapRun b ops).2.bits k = b.bits k) ∧
      Answers (bitmapRun b ops).2 (vectorRun v ops).2 := by
  obtain ⟨hout, hrep, hbits⟩ := h.run ops hops
  exact ⟨hout, hrep, hbits, hrep.answers⟩

/-- Forty bits in two elements, all set, the unused ones as well. -/
def fortyBits : Bitmap := ⟨40, fun _ => -1⟩

theorem bitmapRun_refines_fortyBits :
    (bitmapRun fortyBits [.reset 39, .flip 38, .scanAndFlip 1 2 false]).1 =
        [none, none, some 38] ∧
      (vectorRun (fun _ : Fin 40 => true) [.reset 39, .flip 38, .scanAndFlip 1 2 false]).1 =
        [none, none, some 38] := by
  have hrep : Represents fortyBits (fun _ : Fin 40 => true) := ⟨rfl, by decide⟩
  have hops : ∀ op ∈ [BitmapOp.reset 39, .flip 38, .scanAndFlip 1 2 false], op.InRange 40 := by
    simp [BitmapOp.InRange]
  obtain ⟨hout, -⟩ := bitmapRun_refines fortyBits _ hrep _ hops
  have hrun : (bitmapRun fortyBits [.reset 39, .flip 38, .scanAndFlip 1 2 false]).1 =
      [none, none, some 38] := by decide
  exact ⟨hrun, hout ▸ hrun⟩

end Pintos.Lib
