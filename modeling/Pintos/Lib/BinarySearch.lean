import Mathlib.Data.Set.Basic

/-!
# Arrays and `binary_search` (lib/stdlib.c)

An array is an address, a number of elements and their size. The search keeps its interval as
two addresses and turns their distance back into a number of elements in each round; the
comparison function is given addresses. The loop is bounded by `fuel`, and a null pointer is
0.
-/

namespace Pintos.Lib

open Nat

/-- An array of `cnt` elements of at least a byte; the end address is above that of the start. -/
structure ArrayRef where
  base : Nat
  cnt : Nat
  size : Nat
  size_pos : 0 < size
  nonnull : 0 < base ∨ cnt = 0
  fits : base + cnt * size < 4294967296

def ArrayRef.at (a : ArrayRef) (i : Nat) : Nat := a.base + i * a.size

/-- On the objects of `s` the function compares as `strcmp` does. -/
structure Comparison {α : Type*} (compare : α → α → Int) (s : Set α) : Prop where
  flip : ∀ a ∈ s, ∀ b ∈ s, 0 < compare a b ↔ compare b a < 0
  trans : ∀ a ∈ s, ∀ b ∈ s, ∀ c ∈ s, compare a b ≤ 0 → compare b c ≤ 0 → compare a c ≤ 0

namespace Comparison

variable {α : Type*} {compare : α → α → Int} {s : Set α} {a b c : α}

lemma lt_of_lt_of_le (h : Comparison compare s) (ha : a ∈ s) (hb : b ∈ s) (hc : c ∈ s)
    (hab : compare a b < 0) (hbc : compare b c ≤ 0) : compare a c < 0 := by
  by_contra hac
  have hca : compare c a ≤ 0 := Int.not_lt.mp fun hlt => hac ((h.flip c hc a ha).mp hlt)
  have hba := h.trans b hb c hc a ha hbc hca
  exact absurd ((h.flip b hb a ha).mpr hab) (Int.not_lt.mpr hba)

lemma lt_of_le_of_lt (h : Comparison compare s) (ha : a ∈ s) (hb : b ∈ s) (hc : c ∈ s)
    (hab : compare a b ≤ 0) (hbc : compare b c < 0) : compare a c < 0 := by
  by_contra hac
  have hca : compare c a ≤ 0 := Int.not_lt.mp fun hlt => hac ((h.flip c hc a ha).mp hlt)
  have hcb := h.trans c hc a ha b hb hca hab
  exact absurd ((h.flip c hc b hb).mpr hbc) (Int.not_lt.mpr hcb)

end Comparison

/-- `(last - first) / size` in `size_t`. -/
def elementsBetween (first last size : Nat) : Nat :=
  (4294967296 + last - first) % 4294967296 / size

def binarySearchLoop (compare : Nat → Nat → Int) (key size : Nat) : Nat → Nat → Nat → Option Nat
  | 0, _, _ => none
  | fuel + 1, first, last =>
      if first < last then
        let range := elementsBetween first last size
        let middle := (first + range / 2 * size) % 4294967296
        let cmp := compare key middle
        if cmp < 0 then binarySearchLoop compare key size fuel first middle
        else if cmp > 0 then
          binarySearchLoop compare key size fuel ((middle + size) % 4294967296) last
        else some middle
      else some 0

def binarySearch (compare : Nat → Nat → Int) (fuel key array cnt size : Nat) : Option Nat :=
  binarySearchLoop compare key size fuel array ((array + size * cnt % 4294967296) % 4294967296)

/-! ## What it finds -/

namespace ArrayRef

variable (a : ArrayRef) {compare : Nat → Nat → Int} {key lo hi : Nat} {i j mid p : Nat}

lemma at_le_at (h : i ≤ j) : a.at i ≤ a.at j :=
  Nat.add_le_add_left (Nat.mul_le_mul_right a.size h) a.base

lemma at_lt (h : i ≤ a.cnt) : a.at i < 4294967296 :=
  lt_of_le_of_lt (a.at_le_at h) a.fits

lemma at_lt_at_iff : a.at i < a.at j ↔ i < j := by
  rw [ArrayRef.at, ArrayRef.at, Nat.add_lt_add_iff_left, Nat.mul_lt_mul_right a.size_pos]

lemma at_succ (i : Nat) : a.at (i + 1) = a.at i + a.size := by
  rw [ArrayRef.at, ArrayRef.at, Nat.succ_mul, Nat.add_assoc]

lemma elementsBetween_at (hle : lo ≤ hi) (hhi : hi ≤ a.cnt) :
    elementsBetween (a.at lo) (a.at hi) a.size = hi - lo := by
  have hdiff : a.at hi = a.at lo + (hi - lo) * a.size := by
    rw [ArrayRef.at, ArrayRef.at, Nat.add_assoc, ← Nat.add_mul, Nat.add_sub_cancel' hle]
  have hlt := a.at_lt hhi
  have hmod : (4294967296 + a.at hi - a.at lo) % 4294967296 = (hi - lo) * a.size := by omega
  rw [elementsBetween, hmod, Nat.mul_div_cancel _ a.size_pos]

lemma middle_at (hle : lo ≤ hi) (hhi : hi ≤ a.cnt) :
    (a.at lo + elementsBetween (a.at lo) (a.at hi) a.size / 2 * a.size) % 4294967296 =
      a.at (lo + (hi - lo) / 2) := by
  have hat : a.at (lo + (hi - lo) / 2) = a.at lo + (hi - lo) / 2 * a.size := by
    rw [ArrayRef.at, ArrayRef.at, Nat.add_assoc, ← Nat.add_mul]
  rw [a.elementsBetween_at hle hhi, ← hat]
  exact mod_eq_of_lt (a.at_lt (by omega))

/-- The elements, and the key that is looked for. -/
def Objects (key : Nat) : Set Nat := {p | p = key ∨ ∃ i < a.cnt, p = a.at i}

def InOrder (compare : Nat → Nat → Int) : Prop :=
  ∀ i j, i < j → j < a.cnt → compare (a.at i) (a.at j) ≤ 0

variable {a}

lemma key_mem : key ∈ a.Objects key := .inl rfl

lemma at_mem (hi : i < a.cnt) : a.at i ∈ a.Objects key := .inr ⟨i, hi, rfl⟩

/-- What the loop returns: an element that compares equal, or a null pointer if there is
none in the interval. -/
structure Finds (a : ArrayRef) (compare : Nat → Nat → Int) (key lo hi p : Nat) : Prop where
  found : p ≠ 0 → ∃ i < a.cnt, p = a.at i ∧ compare key (a.at i) = 0
  missing : p = 0 → ∀ i, lo ≤ i → i < hi → compare key (a.at i) ≠ 0

lemma Finds.extend_right (h : Finds a compare key lo mid p)
    (hright : ∀ i, mid ≤ i → i < hi → compare key (a.at i) ≠ 0) : Finds a compare key lo hi p where
  found := h.found
  missing hp i hlo hhi := by
    by_cases hi : i < mid
    · exact h.missing hp i hlo hi
    · exact hright i (not_lt.mp hi) hhi

lemma Finds.extend_left (h : Finds a compare key mid hi p)
    (hleft : ∀ i, lo ≤ i → i < mid → compare key (a.at i) ≠ 0) : Finds a compare key lo hi p where
  found := h.found
  missing hp i hlo hhi := by
    by_cases hi : i < mid
    · exact hleft i hlo hi
    · exact h.missing hp i (not_lt.mp hi) hhi

lemma ne_of_middle_after (hc : Comparison compare (a.Objects key)) (horder : a.InOrder compare)
    (hcmp : compare key (a.at mid) < 0) (hle : mid ≤ i) (hi : i < a.cnt) :
    compare key (a.at i) ≠ 0 := by
  rcases eq_or_lt_of_le hle with rfl | hlt
  · exact Int.ne_of_lt hcmp
  · have hmid := horder mid i hlt hi
    exact Int.ne_of_lt (hc.lt_of_lt_of_le key_mem (at_mem (lt_trans hlt hi)) (at_mem hi) hcmp hmid)

lemma ne_of_middle_before (hc : Comparison compare (a.Objects key)) (horder : a.InOrder compare)
    (hcmp : 0 < compare key (a.at mid)) (hle : i ≤ mid) (hmid : mid < a.cnt) :
    compare key (a.at i) ≠ 0 := by
  have hi : i < a.cnt := lt_of_le_of_lt hle hmid
  have hflip : compare (a.at mid) key < 0 := (hc.flip _ key_mem _ (at_mem hmid)).mp hcmp
  have hbefore : compare (a.at i) key < 0 := by
    rcases eq_or_lt_of_le hle with rfl | hlt
    · exact hflip
    · exact hc.lt_of_le_of_lt (at_mem hi) (at_mem hmid) key_mem (horder i mid hlt hmid) hflip
  exact (Int.ne_of_lt ((hc.flip _ key_mem _ (at_mem hi)).mpr hbefore)).symm

lemma binarySearchLoop_succ (compare : Nat → Nat → Int) (key fuel : Nat) (hlt : lo < hi)
    (hhi : hi ≤ a.cnt) (hmid : lo + (hi - lo) / 2 = mid) :
    binarySearchLoop compare key a.size (fuel + 1) (a.at lo) (a.at hi) =
      if compare key (a.at mid) < 0 then
        binarySearchLoop compare key a.size fuel (a.at lo) (a.at mid)
      else if compare key (a.at mid) > 0 then
        binarySearchLoop compare key a.size fuel (a.at (mid + 1)) (a.at hi)
      else some (a.at mid) := by
  have hmiddle := a.middle_at (le_of_lt hlt) hhi
  rw [hmid] at hmiddle
  have hnext : (a.at mid + a.size) % 4294967296 = a.at (mid + 1) := by
    rw [← a.at_succ]
    exact mod_eq_of_lt (a.at_lt (by omega))
  rw [binarySearchLoop, if_pos (a.at_lt_at_iff.mpr hlt)]
  dsimp only
  rw [hmiddle, hnext]

lemma binarySearchLoop_finds (hc : Comparison compare (a.Objects key))
    (horder : a.InOrder compare) (hle : lo ≤ hi) (hhi : hi ≤ a.cnt) :
    ∃ p, (∀ fuel, hi - lo < fuel →
        binarySearchLoop compare key a.size fuel (a.at lo) (a.at hi) = some p) ∧
      Finds a compare key lo hi p := by
  -- the interval gets smaller in either branch
  induction hn : hi - lo using Nat.strong_induction_on generalizing lo hi with
  | _ n ih =>
    by_cases hlt : lo < hi
    · generalize hm : lo + (hi - lo) / 2 = mid
      have hround := fun fuel => binarySearchLoop_succ compare key fuel hlt hhi hm
      rcases Int.lt_trichotomy (compare key (a.at mid)) 0 with hcmp | hcmp | hcmp
      · obtain ⟨p, hloop, hfinds⟩ := ih (mid - lo) (by omega) (by omega) (by omega) rfl
        refine ⟨p, fun fuel hfuel => ?_, hfinds.extend_right fun i hi' hlast => ?_⟩
        · cases fuel with
          | zero => cases hfuel
          | succ fuel =>
            rw [hround, if_pos hcmp]
            exact hloop fuel (by omega)
        · exact ne_of_middle_after hc horder hcmp hi' (by omega)
      · refine ⟨a.at mid, fun fuel hfuel => ?_, ⟨fun _ => ⟨mid, by omega, rfl, hcmp⟩, ?_⟩⟩
        · cases fuel with
          | zero => cases hfuel
          | succ fuel =>
            rw [hround, hcmp]
            rfl
        · intro hzero
          have hbase : 0 < a.base := a.nonnull.resolve_right (by omega)
          rw [ArrayRef.at] at hzero
          omega
      · obtain ⟨p, hloop, hfinds⟩ := ih (hi - (mid + 1)) (by omega) (by omega) hhi rfl
        refine ⟨p, fun fuel hfuel => ?_, hfinds.extend_left fun i _ hi' => ?_⟩
        · cases fuel with
          | zero => cases hfuel
          | succ fuel =>
            rw [hround, if_neg (Int.not_lt.mpr (Int.le_of_lt hcmp)), if_pos hcmp]
            exact hloop fuel (by omega)
        · exact ne_of_middle_before hc horder hcmp (Nat.lt_succ_iff.mp hi') (by omega)
    · refine ⟨0, fun fuel hfuel => ?_, ⟨fun h => absurd rfl h, fun _ i hlo hhi => ?_⟩⟩
      · cases fuel with
        | zero => cases hfuel
        | succ fuel => rw [binarySearchLoop, if_neg fun h => hlt (a.at_lt_at_iff.mp h)]
      · omega

/-- The search ends, with a null pointer exactly if no element equals the key, and else with the
address of one that does. -/
theorem binarySearch_exact {a : ArrayRef} {compare : Nat → Nat → Int} {key : Nat}
    (hc : Comparison compare (a.Objects key)) (horder : a.InOrder compare) :
    ∃ p, (∀ fuel, a.cnt < fuel →
        binarySearch compare fuel key a.base a.cnt a.size = some p) ∧
      (p = 0 ↔ ∀ i < a.cnt, compare key (a.at i) ≠ 0) ∧
      (p ≠ 0 → ∃ i < a.cnt, p = a.base + i * a.size ∧ compare key p = 0) := by
  obtain ⟨p, hloop, hfinds⟩ :=
    binarySearchLoop_finds hc horder (zero_le a.cnt) (le_refl a.cnt)
  have hstart : a.at 0 = a.base := by rw [ArrayRef.at, Nat.zero_mul, Nat.add_zero]
  have hend : (a.base + a.size * a.cnt % 4294967296) % 4294967296 = a.at a.cnt := by
    rw [Nat.add_mod_mod, Nat.mul_comm a.size]
    exact mod_eq_of_lt a.fits
  rw [hstart] at hloop
  refine ⟨p, fun fuel hfuel => ?_, ⟨fun hp i hi => ?_, fun hnone => ?_⟩, fun hp => ?_⟩
  · rw [binarySearch, hend]
    exact hloop fuel hfuel
  · exact hfinds.missing hp i (zero_le i) hi
  · by_contra hp
    obtain ⟨i, hi, -, hequal⟩ := hfinds.found hp
    exact hnone i hi hequal
  · obtain ⟨i, hi, rfl, hequal⟩ := hfinds.found hp
    exact ⟨i, hi, rfl, hequal⟩

/-- The addresses themselves, in three elements of eight bytes, and one of them as the key. -/
theorem binarySearch_exact_addresses :
    ∃ p, binarySearch (fun p q => (p : Int) - q) 4 4112 4096 3 8 = some p ∧ p ≠ 0 := by
  have hc : Comparison (fun p q : Nat => (p : Int) - q)
      (Objects ⟨4096, 3, 8, by decide, by decide, by decide⟩ 4112) :=
    ⟨fun p _ q _ => by omega, fun p _ q _ r _ hpq hqr => by omega⟩
  have horder : InOrder ⟨4096, 3, 8, by decide, by decide, by decide⟩
      (fun p q => (p : Int) - q) := by
    intro i j hij _
    simp only [ArrayRef.at]
    omega
  obtain ⟨p, hsearch, hnull, -⟩ := binarySearch_exact hc horder
  refine ⟨p, hsearch 4 (by decide), fun hp => ?_⟩
  exact hnull.mp hp 2 (by decide) (by decide)

end ArrayRef

end Pintos.Lib
