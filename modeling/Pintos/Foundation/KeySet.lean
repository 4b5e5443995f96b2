import Mathlib.Data.Finset.Card

/-!
# Sets with one element per key

A comparison `less` splits a type into classes of elements neither of which is less than
the other. A `KeySet` is a finite set with at most one element of each class, together
with the operations of an associative container on it.
-/

namespace Pintos.Foundation

open Finset

variable {α : Type*}

/-- Neither element is less than the other. -/
def SameKey (less : α → α → Bool) (a b : α) : Prop := less a b = false ∧ less b a = false

instance (less : α → α → Bool) (a b : α) : Decidable (SameKey less a b) :=
  inferInstanceAs (Decidable (_ ∧ _))

namespace SameKey

variable {less : α → α → Bool} {a b c : α}

lemma symm (h : SameKey less a b) : SameKey less b a := ⟨h.2, h.1⟩

lemma refl (hless : IsStrictWeakOrder α (less · · = true)) (a : α) : SameKey less a a := by
  have hirrefl : ¬ less a a = true := hless.irrefl a
  exact ⟨Bool.eq_false_iff.mpr hirrefl, Bool.eq_false_iff.mpr hirrefl⟩

lemma trans (hless : IsStrictWeakOrder α (less · · = true)) (hab : SameKey less a b)
    (hbc : SameKey less b c) : SameKey less a c := by
  have hac := hless.incomp_trans a b c ⟨Bool.eq_false_iff.mp hab.1, Bool.eq_false_iff.mp hab.2⟩
    ⟨Bool.eq_false_iff.mp hbc.1, Bool.eq_false_iff.mp hbc.2⟩
  exact ⟨Bool.eq_false_iff.mpr hac.1, Bool.eq_false_iff.mpr hac.2⟩

end SameKey

/-- A finite set with at most one element of each class. -/
@[ext]
structure KeySet (less : α → α → Bool) where
  elems : Finset α
  unique : ∀ a ∈ elems, ∀ b ∈ elems, SameKey less a b → a = b

namespace KeySet

variable {less : α → α → Bool}

def empty (less : α → α → Bool) : KeySet less where
  elems := ∅
  unique := by simp

open Classical in
noncomputable def find (S : KeySet less) (e : α) : Option α :=
  if h : ∃ o ∈ S.elems, SameKey less o e then some h.choose else none

variable {S : KeySet less} {e o : α}

lemma find_eq_none : S.find e = none ↔ ∀ o ∈ S.elems, ¬ SameKey less o e := by
  unfold find
  split
  next h =>
    obtain ⟨o, ho, hkey⟩ := h
    simp only [reduceCtorEq, false_iff]
    exact fun hall => hall o ho hkey
  next h =>
    simp only [true_iff]
    exact fun o ho hkey => h ⟨o, ho, hkey⟩

lemma mem_of_find (h : S.find e = some o) : o ∈ S.elems ∧ SameKey less o e := by
  unfold find at h
  split at h
  next hex =>
    cases h
    exact hex.choose_spec
  next => cases h

lemma find_eq_some (hless : IsStrictWeakOrder α (less · · = true)) :
    S.find e = some o ↔ o ∈ S.elems ∧ SameKey less o e := by
  refine ⟨mem_of_find, fun ⟨ho, hkey⟩ => ?_⟩
  cases hfind : S.find e with
  | none => exact absurd hkey (find_eq_none.mp hfind o ho)
  | some o' =>
    obtain ⟨ho', hkey'⟩ := mem_of_find hfind
    rw [S.unique o' ho' o ho (hkey'.trans hless hkey.symm)]

def erase (S : KeySet less) (e : α) : KeySet less where
  elems := S.elems.filter fun o => ¬ SameKey less o e
  unique := fun a ha b hb =>
    S.unique a (Finset.mem_of_mem_filter a ha) b (Finset.mem_of_mem_filter b hb)

lemma mem_erase {a : α} :
    a ∈ (S.erase e).elems ↔ a ∈ S.elems ∧ ¬ SameKey less a e := mem_filter

lemma erase_of_find_none (h : S.find e = none) : (S.erase e).elems = S.elems :=
  filter_true_of_mem (find_eq_none.mp h)

lemma find_erase (S : KeySet less) (e : α) : (S.erase e).find e = none :=
  find_eq_none.mpr fun _ ho => (mem_erase.mp ho).2

variable [DecidableEq α]

def replace (S : KeySet less) (e : α) : KeySet less where
  elems := insert e (S.erase e).elems
  unique := by
    intro a ha b hb hkey
    have hnot : ∀ o ∈ (S.erase e).elems, ¬ SameKey less o e := fun o ho =>
      (mem_filter.mp ho).2
    rcases mem_insert.mp ha with rfl | ha
    · rcases mem_insert.mp hb with rfl | hb
      · rfl
      · exact absurd hkey.symm (hnot b hb)
    · rcases mem_insert.mp hb with rfl | hb
      · exact absurd hkey (hnot a ha)
      · exact (S.erase e).unique a ha b hb hkey

noncomputable def insert (S : KeySet less) (e : α) : KeySet less :=
  match S.find e with
  | some _ => S
  | none => S.replace e

lemma mem_replace {a : α} : a ∈ (S.replace e).elems ↔ a = e ∨ a ∈ S.elems ∧ ¬ SameKey less a e := by
  rw [replace, mem_insert, mem_erase]

lemma replace_erase (S : KeySet less) (e : α) : (S.erase e).replace e = S.replace e := by
  ext a
  rw [mem_replace, mem_replace, mem_erase, and_assoc, and_self]

lemma erase_of_find (hless : IsStrictWeakOrder α (less · · = true)) (h : S.find e = some o) :
    (S.erase e).elems = S.elems.erase o := by
  obtain ⟨ho, hkey⟩ := mem_of_find h
  ext a
  rw [mem_erase, Finset.mem_erase, and_comm, and_congr_left_iff]
  intro ha
  refine not_congr ⟨fun hae => ?_, fun hao => hao ▸ hkey⟩
  exact S.unique a ha o ho (hae.trans hless hkey.symm)

lemma card_erase (hless : IsStrictWeakOrder α (less · · = true)) (h : S.find e = some o) :
    (S.erase e).elems.card = S.elems.card - 1 := by
  rw [erase_of_find hless h, card_erase_of_mem (mem_of_find h).1]

lemma card_replace (hless : IsStrictWeakOrder α (less · · = true)) (S : KeySet less)
    (e : α) : (S.replace e).elems.card = (S.erase e).elems.card + 1 := by
  refine card_insert_of_notMem fun he => ?_
  exact (mem_erase.mp he).2 (SameKey.refl hless e)

end KeySet

end Pintos.Foundation
