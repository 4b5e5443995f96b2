import Pintos.Foundation.Transition
import Pintos.Lib.InPlaceSort

/-!
# Lists as priority queues (lib/kernel/list.c)

A list that is only changed by `list_insert_ordered` and `list_pop_front`, like the ready list
and the waiters of a semaphore. Elements are compared by their keys, which may change as long
as an element is not in the list.
-/

namespace Pintos.Lib

open Foundation Function List

section Insertion

variable {α : Type*} {less less' : α → α → Bool} {x : α} {l : List α}

lemma listInsertOrdered_split (ho : WeakOrder less) (hl : Sorted less l) :
    ∃ us vs, l = us ++ vs ∧ listInsertOrdered less x l = us ++ x :: vs ∧
      (∀ u ∈ us, less x u = false) ∧ ∀ v ∈ vs, less x v = true := by
  induction l with
  | nil => exact ⟨[], [], rfl, rfl, nofun, nofun⟩
  | cons e l ih =>
    unfold listInsertOrdered
    by_cases hx : less x e = true
    · rw [if_pos hx]
      exact ⟨[], e :: l, rfl, rfl, nofun, less_of_less_front ho hl hx⟩
    · obtain ⟨us, vs, hsplit, hins, hus, hvs⟩ := ih (pairwise_cons.mp hl).2
      rw [if_neg hx, hins, hsplit]
      refine ⟨e :: us, vs, rfl, rfl, ?_, hvs⟩
      intro u hu
      rcases mem_cons.mp hu with rfl | hu
      · exact Bool.eq_false_iff.mpr hx
      · exact hus u hu

lemma listInsertOrdered_congr (h : ∀ y ∈ l, less' x y = less x y) :
    listInsertOrdered less' x l = listInsertOrdered less x l := by
  induction l with
  | nil => rfl
  | cons e l ih =>
    rw [listInsertOrdered, listInsertOrdered, h e mem_cons_self,
      ih fun y hy => h y (mem_cons_of_mem e hy)]

lemma insertAll_congr (h : ∀ a ∈ l, ∀ b ∈ l, less' a b = less a b) :
    insertAll less' l = insertAll less l := by
  induction l using reverseRecOn with
  | nil => rfl
  | append_singleton l x ih =>
    have hl : ∀ a ∈ l, ∀ b ∈ l, less' a b = less a b := fun a ha b hb =>
      h a (mem_append_left _ ha) b (mem_append_left _ hb)
    rw [insertAll_concat, insertAll_concat, ih hl]
    refine listInsertOrdered_congr fun y hy => h x (by simp) y ?_
    exact mem_append_left _ ((insertAll_perm less l).mem_iff.mp hy)

lemma insertAll_tail [DecidableEq α] (ho : WeakOrder less) (hnodup : l.Nodup) {w : α}
    {ws : List α} (h : insertAll less l = w :: ws) : ws = insertAll less (l.erase w) := by
  have hw : w ∉ ws := by
    have hperm := insertAll_perm less l
    rw [h] at hperm
    exact (nodup_cons.mp (hperm.nodup_iff.mpr hnodup)).1
  have hkept := insertAll_filter ho (· != w) l
  rw [h, filter_cons_of_neg (by simp), filter_eq_self.mpr] at hkept
  · rw [hkept, hnodup.erase_eq_filter]
  · intro y hy
    rw [bne_iff_ne]
    rintro rfl
    exact hw hy

lemma WeakOrder.comap {N : Type*} (ho : WeakOrder less) (key : N → α) :
    WeakOrder fun a b => less (key a) (key b) :=
  ⟨fun _ _ => ho.asymm _ _, fun _ _ _ => ho.negTrans _ _ _⟩

end Insertion

/-! ## The queue -/

namespace OrderedQueue

variable {N K : Type*} [DecidableEq N]

/-- The last two fields are history: the elements as they arrived, and those taken off. -/
structure State (N K : Type*) where
  links : Links N
  key : N → K
  arrivals : List N
  left : List N

inductive Label (N K : Type*) where
  | insert (elem : N)
  | popFront
  | setKey (n : N) (k : K)

variable (less : K → K → Bool) (l : ListHdr N) (fuel : Nat)

def State.precedes (s : State N K) (a b : N) : Bool := less (s.key a) (s.key b)

def step (s : State N K) : Label N K → Option (State N K)
  | .insert elem =>
      (InPlace.listInsertOrdered (s.precedes less) fuel s.links l elem).map fun links =>
        { s with links, arrivals := s.arrivals ++ [elem] }
  | .popFront =>
      (listPopFront s.links l).map fun r =>
        { s with links := r.1, arrivals := s.arrivals.erase r.2, left := s.left ++ [r.2] }
  | .setKey n k => some { s with key := Function.update s.key n k }

def Start (s : State N K) : Prop := l.Represents s.links [] ∧ s.arrivals = []

def machine : Machine (State N K) (Label N K) := ⟨Start l, step less l fuel⟩

/-- No element is inserted twice, none taken off an empty list, and keys of elements stay. -/
def Permitted (s : State N K) : Label N K → Prop
  | .insert elem => elem ∉ l.cells s.arrivals
  | .popFront => s.arrivals ≠ []
  | .setKey n _ => n ∉ s.arrivals

/-- What is taken off precedes all that were inserted earlier, and none that was inserted later
precedes it. -/
def LeavesInOrder (s : State N K) : Label N K → State N K → Prop
  | .popFront, s' => ∃ us w vs, s.arrivals = us ++ w :: vs ∧ s'.arrivals = us ++ vs ∧
      s'.left = s.left ++ [w] ∧ (∀ u ∈ us, s.precedes less w u = true) ∧
      ∀ v ∈ vs, s.precedes less v w = false
  | _, s' => s'.left = s.left

/-- The list is the one that the arrivals were inserted into. -/
structure Ok (s : State N K) : Prop where
  represents : l.Represents s.links (insertAll (s.precedes less) s.arrivals)
  nodup : s.arrivals.Nodup

variable {less l fuel} {s : State N K}

omit [DecidableEq N] in
lemma mem_cells_insertAll (less : N → N → Bool) (l : ListHdr N) {xs : List N} {n : N} :
    n ∈ l.cells (insertAll less xs) ↔ n ∈ l.cells xs := by
  have hmem := (insertAll_perm less xs).mem_iff (a := n)
  simp [ListHdr.cells, hmem]

lemma Ok.insert (hs : Ok less l s) {elem : N} (helem : elem ∉ l.cells s.arrivals)
    (hfuel : s.arrivals.length < fuel) :
    ∃ s', step less l fuel s (.insert elem) = some s' ∧ s'.left = s.left ∧ Ok less l s' ∧
      s'.arrivals = s.arrivals ++ [elem] := by
  have hlen := (insertAll_perm (s.precedes less) s.arrivals).length_eq
  obtain ⟨links, hins, hrep, -⟩ := InPlace.listInsertOrdered_spec hs.represents
    (mt (mem_cells_insertAll _ l).mp helem) (hlen.trans_lt hfuel)
  rw [← insertAll_concat] at hrep
  have hnew : elem ∉ s.arrivals := fun hmem => helem (by simp [ListHdr.cells, hmem])
  refine ⟨{ s with links, arrivals := s.arrivals ++ [elem] }, ?_, rfl, ⟨hrep, ?_⟩, rfl⟩
  · rw [step, hins]
    rfl
  · exact (perm_append_singleton elem s.arrivals).nodup_iff.mpr (nodup_cons.mpr ⟨hnew, hs.nodup⟩)

lemma Ok.popFront (ho : WeakOrder less) (hs : Ok less l s) (hne : s.arrivals ≠ []) :
    ∃ s', step less l fuel s .popFront = some s' ∧ LeavesInOrder less s .popFront s' ∧
      Ok less l s' := by
  have hperm := insertAll_perm (s.precedes less) s.arrivals
  cases hq : insertAll (s.precedes less) s.arrivals with
  | nil =>
    rw [hq] at hperm
    exact absurd hperm.nil_eq.symm hne
  | cons w ws =>
    have hr := hs.represents
    rw [hq] at hr
    obtain ⟨links, hpop, hrep, -⟩ := hr.listPopFront
    obtain ⟨us, vs, hsplit, hus, hvs⟩ := insertAll_front (ho.comap s.key) hq
    have hw : w ∉ us := by
      have hnodup := hs.nodup
      rw [hsplit] at hnodup
      exact fun hmem => (nodup_append.mp hnodup).2.2 w hmem w mem_cons_self rfl
    have herase : s.arrivals.erase w = us ++ vs := by
      rw [hsplit, erase_append_right _ hw, erase_cons_head]
    rw [insertAll_tail (ho.comap s.key) hs.nodup hq] at hrep
    refine ⟨{ s with links, arrivals := s.arrivals.erase w, left := s.left ++ [w] }, ?_,
      ⟨us, w, vs, hsplit, herase, rfl, hus, hvs⟩, hrep, hs.nodup.erase w⟩
    rw [step, hpop]
    rfl

lemma Ok.setKey (hs : Ok less l s) {n : N} (hn : n ∉ s.arrivals) (k : K) :
    Ok less l { s with key := update s.key n k } := by
  have hkeep : ∀ a ∈ s.arrivals, update s.key n k a = s.key a := by
    intro a ha
    refine update_of_ne ?_ _ _
    rintro rfl
    exact hn ha
  have hcongr : insertAll (State.precedes less { s with key := update s.key n k })
      s.arrivals = insertAll (s.precedes less) s.arrivals := by
    refine insertAll_congr fun a ha b hb => ?_
    simp only [State.precedes, hkeep a ha, hkeep b hb]
  refine ⟨?_, hs.nodup⟩
  rw [hcongr]
  exact hs.represents

lemma Ok.step (ho : WeakOrder less) (hs : Ok less l s) {label : Label N K}
    (hlabel : Permitted l s label) (hfuel : s.arrivals.length < fuel) :
    ∃ s', step less l fuel s label = some s' ∧ LeavesInOrder less s label s' ∧ Ok less l s' ∧
      s'.arrivals.length ≤ s.arrivals.length + 1 := by
  cases label with
  | insert elem =>
    obtain ⟨s', hstep, hleft, hs', harrivals⟩ := hs.insert hlabel hfuel
    exact ⟨s', hstep, hleft, hs', by simp [harrivals]⟩
  | popFront =>
    obtain ⟨s', hstep, hleaves, hs'⟩ := hs.popFront ho hlabel
    have hlen := hleaves
    obtain ⟨us, w, vs, hbefore, hafter, -⟩ := hlen
    refine ⟨s', hstep, hleaves, hs', ?_⟩
    rw [hbefore, hafter]
    simp only [length_append, length_cons]
    omega
  | setKey n k => exact ⟨_, rfl, rfl, hs.setKey hlabel k, Nat.le_succ _⟩

lemma Ok.run (ho : WeakOrder less) (hs : Ok less l s) {labels : List (Label N K)}
    (hlabels : (machine less l fuel).OnTurn (Permitted l) s labels)
    (hfuel : s.arrivals.length + labels.length ≤ fuel) :
    ∃ s', (machine less l fuel).run s labels = some s' ∧
      (machine less l fuel).EachStep (LeavesInOrder less) s labels ∧ Ok less l s' := by
  induction labels generalizing s with
  | nil => exact ⟨s, rfl, trivial, hs⟩
  | cons label labels ih =>
    rw [length_cons] at hfuel
    obtain ⟨s₁, hstep, hleaves, hs₁, hlen⟩ := hs.step ho hlabels.1
      (show s.arrivals.length < fuel by omega)
    obtain ⟨s', hrun, heach, hs'⟩ := ih hs₁ (hlabels.2 s₁ hstep) (by omega)
    refine ⟨s', ?_, ?_, hs'⟩
    · rwa [Machine.run_cons_of_step hstep]
    · intro s₂ hs₂
      cases hstep.symm.trans hs₂
      exact ⟨hleaves, heach⟩

/-- An element is put behind all those that it does not precede. From an empty list on no assertion
fails, and what leaves is the first arrival that no element precedes. -/
theorem stable_priority_queue (ho : WeakOrder less) (l : ListHdr N) :
    (∀ (key : N → K) (links : Links N) (xs : List N) (elem : N) (fuel : Nat),
      l.Represents links xs → Sorted (fun a b => less (key a) (key b)) xs →
      elem ∉ l.cells xs → xs.length < fuel →
      ∃ links' us vs,
        InPlace.listInsertOrdered (fun a b => less (key a) (key b)) fuel links l elem =
          some links' ∧
        xs = us ++ vs ∧ l.Represents links' (us ++ elem :: vs) ∧
        Sorted (fun a b => less (key a) (key b)) (us ++ elem :: vs) ∧
        (∀ u ∈ us, less (key elem) (key u) = false) ∧
        ∀ v ∈ vs, less (key elem) (key v) = true) ∧
    ∀ (s : State N K) (labels : List (Label N K)) (fuel : Nat), Start l s →
      (machine less l fuel).OnTurn (Permitted l) s labels → labels.length ≤ fuel →
      ∃ s', (machine less l fuel).run s labels = some s' ∧
        (machine less l fuel).EachStep (LeavesInOrder less) s labels ∧
        l.Represents s'.links (insertAll (s'.precedes less) s'.arrivals) := by
  constructor
  · intro key links xs elem fuel hr hsorted helem hfuel
    have hspec : ∃ links', InPlace.listInsertOrdered (fun a b => less (key a) (key b)) fuel links
        l elem = some links' ∧ _ := InPlace.listInsertOrdered_spec hr helem hfuel
    obtain ⟨links', hins, hrep, -⟩ := hspec
    obtain ⟨us, vs, hxs, hsplit, hus, hvs⟩ :=
      listInsertOrdered_split (x := elem) (ho.comap key) hsorted
    have hsorted' := hsorted.insert (x := elem) (ho.comap key)
    rw [hsplit] at hrep hsorted'
    exact ⟨links', us, vs, hins, hxs, hrep, hsorted', hus, hvs⟩
  · intro s labels fuel hstart hlabels hfuel
    have hs : Ok less l s := by
      refine ⟨?_, ?_⟩
      · rw [hstart.2]
        exact hstart.1
      · rw [hstart.2]
        exact nodup_nil
    obtain ⟨s', hrun, heach, hs'⟩ := hs.run ho hlabels (by rw [hstart.2]; simpa using hfuel)
    exact ⟨s', hrun, heach, hs'.represents⟩

/-- A comparison like `comparePriority`, an empty list and nodes of equal priority. -/
def equalKeys : State Nat Int where
  links := listInit (fun _ => ⟨none, none⟩) ⟨10, 11⟩
  key := fun _ => 31
  arrivals := []
  left := []

/-- Of two elements of equal priority the first one leaves first. -/
theorem stable_priority_queue_equalKeys :
    ∃ s', (machine (fun a b : Int => decide (a > b)) ⟨10, 11⟩ 3).run equalKeys
        [.insert 0, .insert 1, .popFront] = some s' ∧
      (machine (fun a b : Int => decide (a > b)) ⟨10, 11⟩ 3).EachStep
        (LeavesInOrder fun a b => decide (a > b)) equalKeys [.insert 0, .insert 1, .popFront] ∧
      s'.left = [0] := by
  have hstart : Start (⟨10, 11⟩ : ListHdr Nat) equalKeys :=
    ⟨(ListHdr.represents_listInit _ (by decide)).1, rfl⟩
  have hpermitted : (machine (fun a b : Int => decide (a > b)) ⟨10, 11⟩ 3).OnTurn
      (Permitted ⟨10, 11⟩) equalKeys [.insert 0, .insert 1, .popFront] := by
    refine ⟨by simp [Permitted, ListHdr.cells, equalKeys], fun s₁ h₁ => ?_⟩
    cases h₁
    refine ⟨by simp [Permitted, ListHdr.cells, equalKeys], fun s₂ h₂ => ?_⟩
    cases h₂
    exact ⟨by simp [Permitted, equalKeys], fun _ _ => trivial⟩
  obtain ⟨s', hrun, heach, -⟩ := (stable_priority_queue (weakOrder_key fun a : Int => a)
    ⟨10, 11⟩).2 equalKeys [.insert 0, .insert 1, .popFront] 3 hstart hpermitted (by decide)
  refine ⟨s', hrun, heach, ?_⟩
  cases hrun
  rfl

end OrderedQueue

end Pintos.Lib
