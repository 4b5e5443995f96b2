import Mathlib.Data.List.Basic

/-! # Ordered lists (lib/kernel/list.c)

A kernel list is modelled by the list of its elements. `list_insert_ordered` walks to the
first element that the new one precedes; `list_sort` is the source's natural merge sort,
which merges neighbouring runs until one run is left.
-/

namespace Pintos.Lib

open List

variable {α : Type*}

def listInsertOrdered (less : α → α → Bool) (elem : α) : List α → List α
  | [] => [elem]
  | e :: l => if less elem e then elem :: e :: l else e :: listInsertOrdered less elem l

lemma listInsertOrdered_perm (less : α → α → Bool) (elem : α) (l : List α) :
    (listInsertOrdered less elem l).Perm (elem :: l) := by
  induction l with
  | nil => exact Perm.refl _
  | cons e l ih =>
    unfold listInsertOrdered
    split
    · exact Perm.refl _
    · exact (ih.cons e).trans (Perm.swap elem e l)

@[simp] lemma mem_listInsertOrdered {less : α → α → Bool} {elem x : α} {l : List α} :
    x ∈ listInsertOrdered less elem l ↔ x = elem ∨ x ∈ l := by
  rw [(listInsertOrdered_perm less elem l).mem_iff, mem_cons]

lemma listInsertOrdered_sorted {less : α → α → Bool} (key : α → Int)
    (hless : ∀ a b, less a b = true ↔ key b < key a) (elem : α) {l : List α}
    (hl : l.Pairwise fun a b => key b ≤ key a) :
    (listInsertOrdered less elem l).Pairwise fun a b => key b ≤ key a := by
  induction l with
  | nil => exact pairwise_singleton _ _
  | cons e l ih =>
    have hcons := pairwise_cons.mp hl
    unfold listInsertOrdered
    split
    next h =>
      have hlt := (hless elem e).mp h
      refine pairwise_cons.mpr ⟨?_, hl⟩
      intro x hx
      cases hx with
      | head => exact Int.le_of_lt hlt
      | tail _ hx => exact Int.le_trans (hcons.1 x hx) (Int.le_of_lt hlt)
    next h =>
      have hle : key elem ≤ key e := Int.not_lt.mp fun hlt => h ((hless elem e).mpr hlt)
      refine pairwise_cons.mpr ⟨?_, ih hcons.2⟩
      intro x hx
      rcases mem_listInsertOrdered.mp hx with rfl | hx
      · exact hle
      · exact hcons.1 x hx

/-- `find_end_of_run`: the longest run that starts at `a`, and what follows it. -/
def findEndOfRun (less : α → α → Bool) (a : α) : List α → List α × List α
  | [] => ([a], [])
  | b :: l =>
      if less b a then ([a], b :: l)
      else
        let run := findEndOfRun less b l
        (a :: run.1, run.2)

/-- The loop of `inplace_merge` until `a` is passed: elements that precede `a` are moved before it.
-/
def mergeBefore (less : α → α → Bool) (a : α) (as : List α) (rest : List α → List α) :
    List α → List α
  | [] => a :: as
  | b :: bs => if less b a then b :: mergeBefore less a as rest bs else a :: rest (b :: bs)

def inplaceMerge (less : α → α → Bool) : List α → List α → List α
  | [], bs => bs
  | a :: as, bs => mergeBefore less a as (inplaceMerge less as) bs

/-- One pass of the `do` loop: neighbouring runs are merged in pairs. The second
component is `output_run_cnt`. -/
def mergePass (less : α → α → Bool) : Nat → List α → List α × Nat
  | 0, l => (l, 0)
  | _ + 1, [] => ([], 0)
  | fuel + 1, a :: l =>
      let first := findEndOfRun less a l
      match first.2 with
      | [] => (first.1, 1)
      | b :: l' =>
          let second := findEndOfRun less b l'
          let out := mergePass less fuel second.2
          (inplaceMerge less first.1 second.1 ++ out.1, out.2 + 1)

def sortPasses (less : α → α → Bool) : Nat → List α → List α
  | 0, l => l
  | fuel + 1, l =>
      let out := mergePass less (l.length + 1) l
      if 1 < out.2 then sortPasses less fuel out.1 else out.1

/-- `list_sort`. Each pass but the last lowers the number of runs: `n + 1` bounds both loops. -/
def listSort (less : α → α → Bool) (l : List α) : List α :=
  sortPasses less (l.length + 1) l

section

variable (less : α → α → Bool)

lemma findEndOfRun_append (a : α) (l : List α) :
    (findEndOfRun less a l).1 ++ (findEndOfRun less a l).2 = a :: l := by
  induction l generalizing a with
  | nil => rfl
  | cons b l ih =>
    unfold findEndOfRun
    split
    · rfl
    · simp only [cons_append, ih]

lemma inplaceMerge_perm (as bs : List α) : (inplaceMerge less as bs).Perm (as ++ bs) := by
  induction as generalizing bs with
  | nil => exact Perm.refl _
  | cons a as ih =>
    show (mergeBefore less a as (inplaceMerge less as) bs).Perm _
    induction bs with
    | nil => simp [mergeBefore]
    | cons b bs ihb =>
      unfold mergeBefore
      split
      · exact (ihb.cons b).trans perm_middle.symm
      · exact (ih (b :: bs)).cons a

lemma mergePass_perm (fuel : Nat) (l : List α) : (mergePass less fuel l).1.Perm l := by
  induction fuel generalizing l with
  | zero => exact Perm.refl _
  | succ fuel ih =>
    cases l with
    | nil => exact Perm.refl _
    | cons a l =>
      have happ := findEndOfRun_append less a l
      unfold mergePass
      dsimp only
      generalize findEndOfRun less a l = first at happ
      rcases first with ⟨run, _ | ⟨b, l'⟩⟩
      · rw [append_nil] at happ
        rw [← happ]
      · have happ' := findEndOfRun_append less b l'
        dsimp only at happ ⊢
        refine ((inplaceMerge_perm less run _).append (ih _)).trans ?_
        rw [append_assoc, happ', happ]

lemma listSort_perm (l : List α) : (listSort less l).Perm l := by
  have hpasses : ∀ fuel (l : List α), (sortPasses less fuel l).Perm l := by
    intro fuel
    induction fuel with
    | zero => exact fun l => Perm.refl _
    | succ fuel ih =>
      intro l
      have hpass := mergePass_perm less (l.length + 1) l
      unfold sortPasses
      dsimp only
      split
      · exact (ih _).trans hpass
      · exact hpass
  exact hpasses _ l

end

/-! ## The comparisons of a sort -/

/-- The calls of `less` that `find_end_of_run` makes from `a` on. -/
def findEndOfRunCalls (less : α → α → Bool) (a : α) : List α → List (α × α)
  | [] => []
  | b :: l => (b, a) :: if less b a then [] else findEndOfRunCalls less b l

/-- `is_sorted` compares as `find_end_of_run` does, over a range that may be empty. -/
def isSortedCalls (less : α → α → Bool) : List α → List (α × α)
  | [] => []
  | a :: l => findEndOfRunCalls less a l

def mergeBeforeCalls (less : α → α → Bool) (a : α) (rest : List α → List (α × α)) :
    List α → List (α × α)
  | [] => []
  | b :: bs =>
      (b, a) :: if less b a then mergeBeforeCalls less a rest bs else rest (b :: bs)

/-- The calls of `inplace_merge` after its assertions. -/
def inplaceMergeCalls (less : α → α → Bool) : List α → List α → List (α × α)
  | [], _ => []
  | a :: as, bs => mergeBeforeCalls less a (inplaceMergeCalls less as) bs

def mergePassCalls (less : α → α → Bool) : Nat → List α → List (α × α)
  | 0, _ => []
  | _ + 1, [] => []
  | fuel + 1, a :: l =>
      let first := findEndOfRun less a l
      findEndOfRunCalls less a l ++
        match first.2 with
        | [] => []
        | b :: l' =>
            let second := findEndOfRun less b l'
            findEndOfRunCalls less b l' ++
              (isSortedCalls less first.1 ++ isSortedCalls less second.1 ++
                inplaceMergeCalls less first.1 second.1) ++ mergePassCalls less fuel second.2

def sortPassesCalls (less : α → α → Bool) : Nat → List α → List (α × α)
  | 0, _ => []
  | fuel + 1, l =>
      let out := mergePass less (l.length + 1) l
      mergePassCalls less (l.length + 1) l ++
        if 1 < out.2 then sortPassesCalls less fuel out.1 else isSortedCalls less out.1

/-- The calls of `less` that `list_sort` makes, those of its assertions included. -/
def listSortCalls (less : α → α → Bool) (l : List α) : List (α × α) :=
  sortPassesCalls less (l.length + 1) l

def Within (calls : List (α × α)) (l : List α) : Prop := ∀ c ∈ calls, c.1 ∈ l ∧ c.2 ∈ l

namespace Within

variable {calls calls' : List (α × α)} {l l' : List α}

lemma nil : Within [] l := nofun

lemma cons {a b : α} (ha : a ∈ l) (hb : b ∈ l) (h : Within calls l) :
    Within ((a, b) :: calls) l := by
  intro c hc
  rcases mem_cons.mp hc with rfl | hc
  · exact ⟨ha, hb⟩
  · exact h c hc

lemma append (h : Within calls l) (h' : Within calls' l) : Within (calls ++ calls') l := by
  intro c hc
  rcases mem_append.mp hc with hc | hc
  · exact h c hc
  · exact h' c hc

lemma mono (h : Within calls l) (hsub : l ⊆ l') : Within calls l' :=
  fun c hc => ⟨hsub (h c hc).1, hsub (h c hc).2⟩

end Within

section

variable (less : α → α → Bool)

lemma findEndOfRunCalls_within (a : α) (l : List α) :
    Within (findEndOfRunCalls less a l) (a :: l) := by
  induction l generalizing a with
  | nil => exact .nil
  | cons b l ih =>
    refine .cons (by simp) (by simp) ?_
    split
    · exact .nil
    · exact (ih b).mono (subset_cons_self _ _)

lemma isSortedCalls_within (l : List α) : Within (isSortedCalls less l) l := by
  cases l with
  | nil => exact .nil
  | cons a l => exact findEndOfRunCalls_within less a l

lemma inplaceMergeCalls_within (as bs : List α) :
    Within (inplaceMergeCalls less as bs) (as ++ bs) := by
  induction as generalizing bs with
  | nil => exact .nil
  | cons a as ih =>
    show Within (mergeBeforeCalls less a (inplaceMergeCalls less as) bs) _
    induction bs with
    | nil => exact .nil
    | cons b bs ihb =>
      refine .cons (by simp) (by simp) ?_
      split
      · refine ihb.mono ?_
        intro x hx
        simp only [cons_append, mem_cons, mem_append] at hx ⊢
        tauto
      · exact (ih (b :: bs)).mono (subset_cons_self _ _)

lemma mergePassCalls_within (fuel : Nat) (l : List α) : Within (mergePassCalls less fuel l) l := by
  induction fuel generalizing l with
  | zero => exact .nil
  | succ fuel ih =>
    cases l with
    | nil => exact .nil
    | cons a l =>
      have happ := findEndOfRun_append less a l
      have hcalls := findEndOfRunCalls_within less a l
      unfold mergePassCalls
      dsimp only
      refine hcalls.append ?_
      generalize findEndOfRun less a l = first at happ
      rcases first with ⟨run, _ | ⟨b, l'⟩⟩
      · exact .nil
      · have happ' := findEndOfRun_append less b l'
        dsimp only at happ ⊢
        rw [← happ]
        have hb := findEndOfRunCalls_within less b l'
        rw [← happ'] at hb ⊢
        generalize findEndOfRun less b l' = second at hb ⊢
        refine ((hb.mono ?_).append (((isSortedCalls_within less run).mono ?_).append
          ((isSortedCalls_within less second.1).mono ?_) |>.append
          ((inplaceMergeCalls_within less run second.1).mono ?_))).append
          ((ih second.2).mono ?_) <;>
        · intro x hx
          simp only [mem_append] at hx ⊢
          tauto

lemma listSortCalls_within (l : List α) : Within (listSortCalls less l) l := by
  have hpasses : ∀ fuel (l : List α), Within (sortPassesCalls less fuel l) l := by
    intro fuel
    induction fuel with
    | zero => exact fun _ => .nil
    | succ fuel ih =>
      intro l
      have hpass := mergePass_perm less (l.length + 1) l
      unfold sortPassesCalls
      dsimp only
      refine (mergePassCalls_within less _ l).append ?_
      split
      · exact (ih _).mono hpass.subset
      · exact (isSortedCalls_within less _).mono hpass.subset
  exact hpasses _ l

/-- Up to the element after the run, every element takes part in a comparison. -/
lemma mem_findEndOfRunCalls (a : α) (l : List α) (hl : l ≠ []) :
    ∀ x ∈ (findEndOfRun less a l).1 ++ (findEndOfRun less a l).2.take 1,
      ∃ c ∈ findEndOfRunCalls less a l, x = c.1 ∨ x = c.2 := by
  induction l generalizing a with
  | nil => exact absurd rfl hl
  | cons b l ih =>
    intro x hx
    unfold findEndOfRun at hx
    unfold findEndOfRunCalls
    split at hx
    · next h =>
        simp only [cons_append, nil_append, take_succ_cons, take_zero,
          mem_cons, not_mem_nil, or_false] at hx
        exact ⟨(b, a), mem_cons_self, hx.symm⟩
    · next h =>
        simp only [cons_append, mem_cons] at hx
        rcases hx with rfl | hx
        · exact ⟨(b, x), mem_cons_self, .inr rfl⟩
        · rw [if_neg h]
          by_cases hnil : l = []
          · subst hnil
            simp only [findEndOfRun, take_nil, append_nil, mem_singleton] at hx
            exact ⟨(b, a), mem_cons_self, .inl hx⟩
          · obtain ⟨c, hc, hxc⟩ := ih b hnil x hx
            exact ⟨c, mem_cons_of_mem _ hc, hxc⟩

lemma length_findEndOfRun_pos (a : α) (l : List α) : 0 < (findEndOfRun less a l).1.length := by
  cases l with
  | nil => exact Nat.one_pos
  | cons b l =>
    unfold findEndOfRun
    split
    · exact Nat.one_pos
    · exact Nat.succ_pos _

end

lemma mem_run_of_mem {run l l' : List α} {a x : α} (happ : run ++ l' = a :: l)
    (hx : x ∈ a :: l) : x ∈ run ++ l'.take 1 ∨ x ∈ l'.tail := by
  rw [← happ, mem_append] at hx
  rw [mem_append]
  rcases hx with hx | hx
  · exact .inl (.inl hx)
  · cases l' with
    | nil => cases hx
    | cons b l' =>
      rcases mem_cons.mp hx with rfl | hx
      · exact .inl (.inr (by simp))
      · exact .inr hx

/-- In a pass over two elements or more, every element is compared. -/
lemma mem_mergePassCalls (less : α → α → Bool) (fuel : Nat) (a : α) (l : List α)
    (hfuel : l.length < fuel) (hl : l ≠ []) :
    ∀ x ∈ a :: l, ∃ c ∈ mergePassCalls less fuel (a :: l), x = c.1 ∨ x = c.2 := by
  induction fuel generalizing a l with
  | zero => omega
  | succ fuel ih =>
    intro x hx
    have happ := findEndOfRun_append less a l
    have hrun := mem_findEndOfRunCalls less a l hl x
    have hpos := length_findEndOfRun_pos less a l
    unfold mergePassCalls
    dsimp only
    generalize findEndOfRun less a l = first at happ hrun hpos
    rcases mem_run_of_mem happ hx with hmem | hmem
    · obtain ⟨c, hc, hxc⟩ := hrun hmem
      exact ⟨c, mem_append_left _ hc, hxc⟩
    rcases first with ⟨run, _ | ⟨b, l'⟩⟩
    · cases hmem
    dsimp only [tail_cons] at happ hmem hpos ⊢
    have hl' : l' ≠ [] := ne_nil_of_mem hmem
    have happ' := findEndOfRun_append less b l'
    have hrun' := mem_findEndOfRunCalls less b l' hl' x
    generalize findEndOfRun less b l' = second at happ' hrun'
    rcases mem_run_of_mem happ' (mem_cons_of_mem b hmem) with hmem' | hmem'
    · obtain ⟨c, hc, hxc⟩ := hrun' hmem'
      exact ⟨c, mem_append_right _ (mem_append_left _ (mem_append_left _ hc)), hxc⟩
    rcases second with ⟨run', _ | ⟨d, l''⟩⟩
    · cases hmem'
    dsimp only [tail_cons] at happ' hmem' ⊢
    have hlen := congrArg length happ
    have hlen' := congrArg length happ'
    simp only [length_append, length_cons] at hlen hlen'
    obtain ⟨c, hc, hxc⟩ := ih d l'' (by omega) (ne_nil_of_mem hmem') x (mem_cons_of_mem d hmem')
    exact ⟨c, mem_append_right _ (mem_append_right _ hc), hxc⟩

lemma mem_listSortCalls (less : α → α → Bool) (l : List α) (hl : 2 ≤ l.length) :
    ∀ x ∈ l, ∃ c ∈ listSortCalls less l, x = c.1 ∨ x = c.2 := by
  intro x hx
  rcases l with _ | ⟨a, l⟩
  · cases hx
  have hne : l ≠ [] := by
    rintro rfl
    simp at hl
  obtain ⟨c, hc, hxc⟩ := mem_mergePassCalls less ((a :: l).length + 1) a l
    (by simp only [length_cons]; omega) hne x hx
  exact ⟨c, mem_append_left _ hc, hxc⟩

lemma listSortCalls_eq_nil (less : α → α → Bool) (l : List α) (hl : l.length < 2) :
    listSortCalls less l = [] := by
  rcases l with _ | ⟨a, _ | ⟨b, l⟩⟩
  · rfl
  · rfl
  · simp only [length_cons] at hl
    omega

end Pintos.Lib
