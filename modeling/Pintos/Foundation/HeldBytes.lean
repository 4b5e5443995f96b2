import Pintos.Foundation.PackedWords

/-!
# Bytes held in memory

Memory is a function from addresses to bytes. `Held mem a bytes` says what stands from
address `a` on; sequences that are stored one behind the other are found again at their
places.
-/

namespace Pintos.Foundation

open List

/-- The bytes of a word, the lowest first. -/
def wordBytes (w : UInt32) : List UInt8 := [wordByte w 0, wordByte w 1, wordByte w 2, wordByte w 3]

@[simp]
lemma length_wordBytes (w : UInt32) : (wordBytes w).length = 4 := rfl

lemma length_words (f : Nat → UInt32) (n : Nat) :
    ((range n).flatMap fun j => wordBytes (f j)).length = 4 * n := by
  induction n with
  | zero => rfl
  | succ n ih =>
    rw [range_succ, flatMap_append, length_append, ih]
    simp [Nat.mul_succ]

def Held (mem : Nat → UInt8) (a : Nat) (bytes : List UInt8) : Prop :=
  ∀ i b, bytes[i]? = some b → mem (a + i) = b

namespace Held

variable {mem mem' : Nat → UInt8} {a : Nat} {bytes xs ys : List UInt8}

lemma nil (mem : Nat → UInt8) (a : Nat) : Held mem a [] := nofun

lemma append_iff : Held mem a (xs ++ ys) ↔ Held mem a xs ∧ Held mem (a + xs.length) ys := by
  constructor
  · intro h
    refine ⟨fun i b hb => h i b ?_, fun i b hb => ?_⟩
    · rw [getElem?_append_left (List.getElem?_eq_some_iff.mp hb).1, hb]
    · rw [Nat.add_assoc]
      exact h _ b (by rw [getElem?_append_right (by omega), Nat.add_sub_cancel_left, hb])
  · rintro ⟨hxs, hys⟩ i b hb
    by_cases hi : i < xs.length
    · rw [getElem?_append_left hi] at hb
      exact hxs i b hb
    · rw [getElem?_append_right (by omega)] at hb
      have hmem := hys _ b hb
      rwa [Nat.add_assoc, Nat.add_sub_cancel' (by omega)] at hmem

lemma left (h : Held mem a (xs ++ ys)) : Held mem a xs := (append_iff.mp h).1

lemma right (h : Held mem a (xs ++ ys)) : Held mem (a + xs.length) ys := (append_iff.mp h).2

lemma congr (h : Held mem a bytes)
    (heq : ∀ p, a ≤ p → p < a + bytes.length → mem' p = mem p) : Held mem' a bytes := by
  intro i b hb
  have hi := (List.getElem?_eq_some_iff.mp hb).1
  rw [heq _ (by omega) (by omega)]
  exact h i b hb

lemma word {f : Nat → UInt32} {n i : Nat}
    (h : Held mem a ((range n).flatMap fun j => wordBytes (f j))) (hi : i < n) :
    Held mem (a + 4 * i) (wordBytes (f i)) := by
  induction n with
  | zero => cases hi
  | succ n ih =>
    rw [range_succ, flatMap_append] at h
    rcases Nat.lt_succ_iff_lt_or_eq.mp hi with hlt | rfl
    · exact ih h.left hlt
    · have hlast := h.right
      rw [length_words] at hlast
      simpa using hlast

end Held

end Pintos.Foundation
