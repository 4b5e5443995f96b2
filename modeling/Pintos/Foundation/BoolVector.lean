import Mathlib.Data.Fintype.Card
import Mathlib.Order.Bounds.Defs

/-!
# Vectors of booleans

The abstract counterpart of a packed array of bits: a function on `Fin n`, with the
operations on ranges of positions. A range is given by its first position and its length;
the first run of equal entries is the least position at which one starts.
-/

namespace Pintos.Foundation

abbrev BoolVec (n : Nat) := Fin n → Bool

namespace BoolVec

variable {n : Nat} (v : BoolVec n)

/-- `v` with the `cnt` entries from `start` on replaced by `value`. -/
def fill (start cnt : Nat) (value : Bool) : BoolVec n :=
  fun j => if start ≤ j.val ∧ j.val < start + cnt then value else v j

/-- The positions from `start` to `start + cnt` that hold `value`. -/
def positions (start cnt : Nat) (value : Bool) : Finset (Fin n) :=
  Finset.univ.filter fun j => start ≤ j.val ∧ j.val < start + cnt ∧ v j = value

variable {start cnt : Nat} {value : Bool}

lemma mem_positions {j : Fin n} :
    j ∈ v.positions start cnt value ↔ start ≤ j.val ∧ j.val < start + cnt ∧ v j = value := by
  simp [positions]

lemma positions_zero (start : Nat) (value : Bool) : v.positions start 0 value = ∅ := by
  ext j
  simp only [mem_positions, Finset.notMem_empty, iff_false]
  omega

lemma card_positions_succ (value : Bool) (hstart : start < n) :
    (v.positions start (cnt + 1) value).card =
      (if v ⟨start, hstart⟩ = value then 1 else 0) + (v.positions (start + 1) cnt value).card := by
  have hother : ∀ j : Fin n, j ≠ ⟨start, hstart⟩ →
      (j ∈ v.positions start (cnt + 1) value ↔ j ∈ v.positions (start + 1) cnt value) := by
    intro j hj
    have hne : j.val ≠ start := fun h => hj (Fin.ext h)
    simp only [mem_positions]
    constructor
    · rintro ⟨h1, h2, h3⟩
      exact ⟨by omega, by omega, h3⟩
    · rintro ⟨h1, h2, h3⟩
      exact ⟨by omega, by omega, h3⟩
  have hnot : (⟨start, hstart⟩ : Fin n) ∉ v.positions (start + 1) cnt value := by
    simp [mem_positions]
  by_cases hv : v ⟨start, hstart⟩ = value
  · have hinsert : v.positions start (cnt + 1) value =
        insert ⟨start, hstart⟩ (v.positions (start + 1) cnt value) := by
      ext j
      by_cases hj : j = ⟨start, hstart⟩
      · subst hj
        simp [mem_positions, hv]
      · rw [Finset.mem_insert, hother j hj]
        simp [hj]
    rw [hinsert, Finset.card_insert_of_notMem hnot, if_pos hv, Nat.add_comm]
  · have hsame : v.positions start (cnt + 1) value = v.positions (start + 1) cnt value := by
      ext j
      by_cases hj : j = ⟨start, hstart⟩
      · subst hj
        simp [mem_positions, hv]
      · exact hother j hj
    rw [hsame, if_neg hv, Nat.zero_add]

/-- The `cnt` entries from `i` on lie inside the vector and all hold `value`. -/
def RunAt (cnt : Nat) (value : Bool) (i : Nat) : Prop :=
  i + cnt ≤ n ∧ ∀ j : Fin n, i ≤ j.val → j.val < i + cnt → v j = value

/-- Where runs of `cnt` entries `value` start, from `start` on. -/
def runs (start cnt : Nat) (value : Bool) : Set Nat := {i | start ≤ i ∧ v.RunAt cnt value i}

open Classical in
noncomputable def firstRun (start cnt : Nat) (value : Bool) : Option Nat :=
  if h : ∃ i, i ∈ v.runs start cnt value then some (Nat.find h) else none

lemma firstRun_eq_some {i : Nat} :
    v.firstRun start cnt value = some i ↔ IsLeast (v.runs start cnt value) i := by
  classical
  unfold firstRun
  constructor
  · intro h
    split at h
    case isTrue hex =>
        cases h
        exact ⟨Nat.find_spec hex, fun j hj => Nat.find_min' hex hj⟩
    case isFalse => cases h
  · rintro ⟨hi, hleast⟩
    have hex : ∃ i, i ∈ v.runs start cnt value := ⟨i, hi⟩
    rw [dif_pos hex]
    congr 1
    exact Nat.le_antisymm (Nat.find_min' hex hi) (hleast (Nat.find_spec hex))

lemma firstRun_eq_none : v.firstRun start cnt value = none ↔ ∀ i, i ∉ v.runs start cnt value := by
  unfold firstRun
  split
  case isTrue h =>
      obtain ⟨i, hi⟩ := h
      simp only [false_iff, reduceCtorEq]
      exact fun hnone => hnone i hi
  case isFalse h =>
      simp only [true_iff]
      exact fun i hi => h ⟨i, hi⟩

end BoolVec

end Pintos.Foundation
