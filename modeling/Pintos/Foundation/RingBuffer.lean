import Mathlib.Data.List.Basic

/-!
# Ring buffers

A buffer of `n` cells that is used in a circle: elements are written at `head` and read at
`tail`. One cell is kept free, so that a full buffer can be told from an empty one.
-/

namespace Pintos.Foundation

open List

structure RingBuffer (α : Type*) (n : Nat) where
  buf : Fin n → α
  head : Fin n
  tail : Fin n

namespace RingBuffer

variable {α : Type*} {n : Nat}

def after (pos : Fin n) (k : Nat) : Fin n := ⟨(pos + k) % n, Nat.mod_lt _ pos.pos⟩

def Empty (r : RingBuffer α n) : Prop := r.head = r.tail

def Full (r : RingBuffer α n) : Prop := after r.head 1 = r.tail

instance (r : RingBuffer α n) : Decidable r.Empty := inferInstanceAs (Decidable (_ = _))

instance (r : RingBuffer α n) : Decidable r.Full := inferInstanceAs (Decidable (_ = _))

def front (r : RingBuffer α n) : α := r.buf r.tail

def push (r : RingBuffer α n) (a : α) : RingBuffer α n :=
  { r with buf := Function.update r.buf r.head a, head := after r.head 1 }

def pop (r : RingBuffer α n) : RingBuffer α n := { r with tail := after r.tail 1 }

def count (r : RingBuffer α n) : Nat :=
  if r.tail ≤ r.head then r.head - r.tail else r.head + n - r.tail

def contents (r : RingBuffer α n) : List α :=
  (List.range r.count).map fun k => r.buf (after r.tail k)

variable {r : RingBuffer α n}

/-- There is at most one turn around the end. -/
lemma after_val (pos : Fin n) {k : Nat} (hk : k ≤ n) :
    (after pos k : Nat) = if pos + k < n then pos + k else pos + k - n := by
  split
  next h => exact Nat.mod_eq_of_lt h
  next h => exact (Nat.mod_eq_sub_mod (by omega)).trans (Nat.mod_eq_of_lt (by omega))

lemma count_lt (r : RingBuffer α n) : r.count < n := by
  unfold count
  split <;> omega

lemma length_contents (r : RingBuffer α n) : r.contents.length = r.count := by
  simp [contents]

lemma count_eq_zero : r.count = 0 ↔ r.Empty := by
  rw [Empty, Fin.ext_iff]
  unfold count
  simp only [Fin.le_def]
  split <;> omega

lemma after_tail_eq_head {k : Nat} (hk : k ≤ r.count) : after r.tail k = r.head ↔ k = r.count := by
  have hlt := r.count_lt
  rw [Fin.ext_iff, after_val _ (by omega)]
  revert hk hlt
  unfold count
  simp only [Fin.le_def]
  split <;> split <;> omega

lemma full_iff : r.Full ↔ r.count + 1 = n := by
  have hhead := r.head.isLt
  have hnext := after_val r.head (k := 1) (by omega)
  rw [Full, Fin.ext_iff]
  unfold count
  simp only [Fin.le_def]
  split at hnext <;> split <;> omega

lemma count_push (hfull : ¬ r.Full) (a : α) : (r.push a).count = r.count + 1 := by
  have hhead := r.head.isLt
  have hnext := after_val r.head (k := 1) (by omega)
  rw [Full, Fin.ext_iff] at hfull
  unfold count push
  simp only [Fin.le_def]
  split at hnext <;> split <;> split <;> omega

lemma contents_push (hfull : ¬ r.Full) (a : α) : (r.push a).contents = r.contents ++ [a] := by
  rw [contents, count_push hfull, range_succ, map_append, map_singleton, contents]
  congr 1
  · refine map_congr_left fun k hk => ?_
    have hk := mem_range.mp hk
    refine Function.update_of_ne ?_ _ _
    rw [show (r.push a).tail = r.tail from rfl, ne_eq, after_tail_eq_head (Nat.le_of_lt hk)]
    exact Nat.ne_of_lt hk
  · have hcell : after (r.push a).tail r.count = r.head :=
      (after_tail_eq_head (r := r) (Nat.le_refl _)).mpr rfl
    rw [hcell]
    exact congrArg (fun x => [x]) (Function.update_self _ _ _)

lemma count_pop (hempty : ¬ r.Empty) : r.count = r.pop.count + 1 := by
  have hhead := r.head.isLt
  have hnext := after_val r.tail (k := 1) (by omega)
  rw [Empty, Fin.ext_iff] at hempty
  unfold count pop
  simp only [Fin.le_def]
  split at hnext <;> split <;> split <;> omega

lemma after_after (pos : Fin n) (k : Nat) : after (after pos 1) k = after pos (k + 1) := by
  rw [Fin.ext_iff, after, after, after]
  simp only [Nat.mod_add_mod]
  congr 1
  omega

lemma contents_pop (hempty : ¬ r.Empty) : r.contents = r.front :: r.pop.contents := by
  have hfirst : after r.tail 0 = r.tail := Fin.ext (Nat.mod_eq_of_lt r.tail.isLt)
  rw [contents, count_pop hempty, range_succ_eq_map, map_cons, map_map, hfirst]
  refine congrArg (r.front :: ·) (map_congr_left fun k _ => ?_)
  exact congrArg r.buf (after_after r.tail k).symm

lemma not_full_pop (hempty : ¬ r.Empty) : ¬ r.pop.Full := by
  rw [full_iff, ← count_pop hempty]
  exact Nat.ne_of_lt r.count_lt

lemma not_empty_push (hfull : ¬ r.Full) (a : α) : ¬ (r.push a).Empty := by
  rw [← count_eq_zero, count_push hfull]
  exact Nat.succ_ne_zero _

end RingBuffer

end Pintos.Foundation
