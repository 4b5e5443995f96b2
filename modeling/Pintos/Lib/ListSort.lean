import Mathlib.Data.List.Chain
import Pintos.Lib.KernelList

/-! # The order that `list_sort` makes

A pass of the natural merge sort turns a list of `n` sorted runs into one of at most half as
many, rounded up. The runs that `find_end_of_run` finds are as long as possible, so that any
way to cut the list into sorted runs bounds their number.
-/

namespace Pintos.Lib

open List

variable {α : Type*} {less : α → α → Bool}

/-- What a sort needs: a comparison is asymmetric, and "does not precede" is transitive. -/
structure WeakOrder (less : α → α → Bool) : Prop where
  asymm : ∀ a b, less a b = true → less b a = false
  negTrans : ∀ a b c, less b a = false → less c b = false → less c a = false

lemma weakOrder_key (key : α → Int) : WeakOrder fun a b => decide (key a > key b) where
  asymm a b h := by
    simp only [decide_eq_true_eq, decide_eq_false_iff_not] at h ⊢
    omega
  negTrans a b c hab hbc := by
    simp only [decide_eq_false_iff_not] at hab hbc ⊢
    omega

def Sorted (less : α → α → Bool) (l : List α) : Prop := l.Pairwise fun a b => less b a = false

/-- `l` can be cut into `n` sorted lists. -/
def Runs (less : α → α → Bool) : Nat → List α → Prop
  | 0, l => l = []
  | n + 1, l => ∃ run rest, l = run ++ rest ∧ Sorted less run ∧ Runs less n rest

namespace Runs

variable {n : Nat} {l : List α}

lemma succ (h : Runs less n l) : Runs less (n + 1) l := ⟨[], l, rfl, .nil, h⟩

lemma mono {m : Nat} (h : Runs less n l) (hle : n ≤ m) : Runs less m l := by
  induction hle with
  | refl => exact h
  | step _ ih => exact ih.succ

lemma length (l : List α) : Runs less l.length l := by
  induction l with
  | nil => rfl
  | cons a l ih => exact ⟨[a], l, rfl, pairwise_singleton _ a, ih⟩

lemma sorted_of_le_one (h : Runs less n l) (hn : n ≤ 1) : Sorted less l := by
  obtain ⟨run, rest, rfl, hrun, rfl⟩ := h.mono hn
  rwa [append_nil]

lemma suffix {xs : List α} (h : Runs less n (xs ++ l)) : Runs less n l := by
  induction n generalizing xs with
  | zero => exact (append_eq_nil_iff.mp h).2
  | succ n ih =>
    obtain ⟨run, rest, heq, hrun, hrest⟩ := h
    rcases append_eq_append_iff.mp heq with ⟨ys, rfl, rfl⟩ | ⟨ys, rfl, rfl⟩
    · exact ⟨ys, rest, rfl, (pairwise_append.mp hrun).2.1, hrest⟩
    · exact (ih hrest).succ

end Runs

lemma findEndOfRun_eq_cons (less : α → α → Bool) (a : α) (l : List α) :
    ∃ run, (findEndOfRun less a l).1 = a :: run := by
  cases l with
  | nil => exact ⟨[], rfl⟩
  | cons b l =>
    unfold findEndOfRun
    split
    · exact ⟨[], rfl⟩
    · exact ⟨_, rfl⟩

lemma findEndOfRun_chain (less : α → α → Bool) (a : α) (l : List α) :
    (findEndOfRun less a l).1.IsChain fun a b => less b a = false := by
  induction l generalizing a with
  | nil => exact .singleton a
  | cons b l ih =>
    unfold findEndOfRun
    split
    · exact .singleton a
    next h =>
      obtain ⟨run, hrun⟩ := findEndOfRun_eq_cons less b l
      have hchain := ih b
      dsimp only
      rw [hrun] at hchain ⊢
      exact .cons_cons (Bool.eq_false_iff.mpr h) hchain

lemma findEndOfRun_sorted (ho : WeakOrder less) (a : α) (l : List α) :
    Sorted less (findEndOfRun less a l).1 := by
  have : IsTrans α fun a b => less b a = false := ⟨ho.negTrans⟩
  exact isChain_iff_pairwise.mp (findEndOfRun_chain less a l)

variable {a b : α} {n : Nat} {l : List α}

lemma findEndOfRun_sorted_append {run : List α} (h : Sorted less (a :: run)) (rest : List α) :
    ∃ xs, rest = xs ++ (findEndOfRun less a (run ++ rest)).2 := by
  induction run generalizing a with
  | nil =>
    cases rest with
    | nil => exact ⟨[], rfl⟩
    | cons b rest =>
      have happ := findEndOfRun_append less a (b :: rest)
      obtain ⟨run, hrun⟩ := findEndOfRun_eq_cons less a (b :: rest)
      rw [hrun, cons_append, cons.injEq] at happ
      exact ⟨run, happ.2.symm⟩
  | cons b run ih =>
    obtain ⟨hab, hrun⟩ := pairwise_cons.mp h
    have hb : ¬ less b a = true := by
      rw [hab b mem_cons_self]
      exact nofun
    rw [cons_append, findEndOfRun, if_neg hb]
    exact ih hrun

lemma Runs.findEndOfRun (h : Runs less (n + 1) (a :: l)) :
    Runs less n (findEndOfRun less a l).2 := by
  induction n with
  | zero =>
    obtain ⟨run, rest, heq, hrun, rfl⟩ := h
    rw [append_nil] at heq
    subst heq
    obtain ⟨xs, hxs⟩ := findEndOfRun_sorted_append hrun []
    rw [append_nil] at hxs
    exact (append_eq_nil_iff.mp hxs.symm).2
  | succ n ih =>
    obtain ⟨run, rest, heq, hrun, hrest⟩ := h
    cases run with
    | nil =>
      rw [nil_append] at heq
      exact (ih (heq ▸ hrest)).succ
    | cons b run =>
      rw [cons_append, cons.injEq] at heq
      obtain ⟨rfl, rfl⟩ := heq
      obtain ⟨xs, hxs⟩ := findEndOfRun_sorted_append hrun rest
      rw [hxs] at hrest
      exact hrest.suffix

section

variable (ho : WeakOrder less)
include ho

lemma inplaceMerge_sorted {as bs : List α} (has : Sorted less as)
    (hbs : Sorted less bs) : Sorted less (inplaceMerge less as bs) := by
  induction as generalizing bs with
  | nil => exact hbs
  | cons a as ih =>
    obtain ⟨ha, has'⟩ := pairwise_cons.mp has
    show Sorted less (mergeBefore less a as (inplaceMerge less as) bs)
    induction bs with
    | nil => exact has
    | cons b bs ihb =>
      obtain ⟨hb, hbs'⟩ := pairwise_cons.mp hbs
      unfold mergeBefore
      split
      next hba =>
        refine pairwise_cons.mpr ⟨?_, ihb hbs'⟩
        intro x hx
        have hperm := inplaceMerge_perm less (a :: as) bs
        rcases mem_append.mp (hperm.mem_iff.mp hx) with hx | hx
        · have hab := ho.asymm b a hba
          rcases mem_cons.mp hx with rfl | hx
          · exact hab
          · exact ho.negTrans b a x hab (ha x hx)
        · exact hb x hx
      next hba =>
        have hba' : less b a = false := Bool.eq_false_iff.mpr hba
        refine pairwise_cons.mpr ⟨?_, ih has' hbs⟩
        intro x hx
        have hperm := inplaceMerge_perm less as (b :: bs)
        rcases mem_append.mp (hperm.mem_iff.mp hx) with hx | hx
        · exact ha x hx
        · rcases mem_cons.mp hx with rfl | hx
          · exact hba'
          · exact ho.negTrans a b x hba' (hb x hx)

/-- A pass merges the runs in pairs and counts the runs that it leaves. -/
lemma mergePass_runs {fuel : Nat} (hruns : Runs less n l) (hfuel : l.length < fuel) :
    (mergePass less fuel l).2 ≤ (n + 1) / 2 ∧
      Runs less (mergePass less fuel l).2 (mergePass less fuel l).1 := by
  induction fuel generalizing n l with
  | zero => exact absurd hfuel (Nat.not_lt_zero _)
  | succ fuel ih =>
    cases l with
    | nil => exact ⟨Nat.zero_le _, rfl⟩
    | cons a l =>
      obtain ⟨m, rfl⟩ : ∃ m, n = m + 1 := by
        cases n with
        | zero => cases hruns
        | succ m => exact ⟨m, rfl⟩
      have hfirst := hruns.findEndOfRun
      have hsorted := findEndOfRun_sorted ho a l
      have hlen := congrArg length (findEndOfRun_append less a l)
      have hpos := length_findEndOfRun_pos less a l
      unfold mergePass
      dsimp only
      generalize Lib.findEndOfRun less a l = first at hfirst hsorted hlen hpos
      rcases first with ⟨run, _ | ⟨b, l'⟩⟩
      · exact ⟨show 1 ≤ _ by omega, run, [], (append_nil _).symm, hsorted, rfl⟩
      · obtain ⟨m, rfl⟩ : ∃ k, m = k + 1 := by
          cases m with
          | zero => cases hfirst
          | succ k => exact ⟨k, rfl⟩
        have hsecond := hfirst.findEndOfRun
        have hsorted' := findEndOfRun_sorted ho b l'
        have hlen' := congrArg length (findEndOfRun_append less b l')
        dsimp only at hlen hpos ⊢
        generalize Lib.findEndOfRun less b l' = second at hsecond hsorted' hlen'
        simp only [length_append, length_cons] at hlen hlen' hfuel
        obtain ⟨hcount, hrest⟩ := ih (l := second.2) hsecond (by omega)
        exact ⟨by omega, _, _, rfl, inplaceMerge_sorted ho hsorted hsorted', hrest⟩

lemma sortPasses_sorted {fuel : Nat} (hruns : Runs less n l)
    (hfuel : n < fuel) : Sorted less (sortPasses less fuel l) := by
  induction fuel generalizing n l with
  | zero => exact absurd hfuel (Nat.not_lt_zero _)
  | succ fuel ih =>
    obtain ⟨hcount, hpass⟩ := mergePass_runs ho hruns (Nat.lt_add_one l.length)
    unfold sortPasses
    dsimp only
    split
    · exact ih hpass (by omega)
    · exact hpass.sorted_of_le_one (by omega)

lemma listSort_sorted (l : List α) : Sorted less (listSort less l) :=
  sortPasses_sorted ho (.length l) (Nat.lt_succ_self l.length)

lemma listSort_front {ws : List α} {w : α} (h : listSort less l = w :: ws) :
    ∀ u ∈ l, less u w = false := by
  intro u hu
  have hsorted := listSort_sorted ho l
  have hmem := (listSort_perm less l).mem_iff.mpr hu
  rw [h] at hsorted hmem
  rcases mem_cons.mp hmem with rfl | hmem
  · cases hself : less u u with
    | false => rfl
    | true =>
      have hasymm := ho.asymm u u hself
      simp [hself] at hasymm
  · exact (pairwise_cons.mp hsorted).1 u hmem

end

/-- The list after the elements of `l` were inserted one after the other. -/
def insertAll (less : α → α → Bool) (l : List α) : List α :=
  l.foldl (fun acc x => listInsertOrdered less x acc) []

lemma insertAll_concat (less : α → α → Bool) (l : List α) (x : α) :
    insertAll less (l ++ [x]) = listInsertOrdered less x (insertAll less l) := by
  rw [insertAll, foldl_append]
  rfl

lemma insertAll_perm (less : α → α → Bool) (l : List α) : (insertAll less l).Perm l := by
  induction l using reverseRecOn with
  | nil => exact .refl _
  | append_singleton l x ih =>
    rw [insertAll_concat]
    exact (listInsertOrdered_perm less x _).trans
      ((ih.cons x).trans (perm_append_singleton x l).symm)

section Insertion

variable {x : α} {l : List α}

section

variable (ho : WeakOrder less)
include ho

lemma less_of_less_front {e : α} (hl : Sorted less (e :: l))
    (hx : less x e = true) : ∀ y ∈ e :: l, less x y = true := by
  intro y hy
  rcases mem_cons.mp hy with rfl | hy
  · exact hx
  · cases hxy : less x y with
    | true => rfl
    | false =>
      have hye := (pairwise_cons.mp hl).1 y hy
      simp [ho.negTrans e y x hye hxy] at hx

lemma Sorted.insert (hl : Sorted less l) : Sorted less (listInsertOrdered less x l) := by
  induction l with
  | nil => exact pairwise_singleton _ x
  | cons e l ih =>
    obtain ⟨he, hl'⟩ := pairwise_cons.mp hl
    unfold listInsertOrdered
    split
    next hx =>
      refine pairwise_cons.mpr ⟨fun y hy => ?_, hl⟩
      exact ho.asymm x y (less_of_less_front ho hl hx y hy)
    next hx =>
      refine pairwise_cons.mpr ⟨fun y hy => ?_, ih hl'⟩
      rcases mem_listInsertOrdered.mp hy with rfl | hy
      · exact Bool.eq_false_iff.mpr hx
      · exact he y hy

lemma insertAll_sorted (l : List α) : Sorted less (insertAll less l) := by
  induction l using reverseRecOn with
  | nil => exact .nil
  | append_singleton l x ih =>
    rw [insertAll_concat]
    exact ih.insert ho

/-- What is kept of a sorted list is as if only that had been inserted. -/
lemma listInsertOrdered_filter (p : α → Bool) (hl : Sorted less l) :
    (listInsertOrdered less x l).filter p =
      if p x then listInsertOrdered less x (l.filter p) else l.filter p := by
  induction l with
  | nil => cases hp : p x <;> simp [listInsertOrdered, hp]
  | cons e l ih =>
    have hl' := (pairwise_cons.mp hl).2
    have hins : listInsertOrdered less x (e :: l) =
        if less x e then x :: e :: l else e :: listInsertOrdered less x l := rfl
    rw [hins]
    by_cases hx : less x e = true
    · -- Every element that is kept comes after `x`.
      rw [if_pos hx, filter_cons]
      split
      · cases hkept : (e :: l).filter p with
        | nil => rfl
        | cons f rest =>
          have hf : f ∈ (e :: l).filter p := by
            rw [hkept]
            exact mem_cons_self
          have hxf := less_of_less_front ho hl hx f (mem_filter.mp hf).1
          rw [listInsertOrdered, if_pos hxf]
      · rfl
    · rw [if_neg hx, filter_cons, filter_cons, ih hl']
      cases hpe : p e with
      | false => rfl
      | true =>
        cases hpx : p x with
        | false => rfl
        | true => simp [listInsertOrdered, hx]

lemma insertAll_filter (p : α → Bool) (l : List α) :
    (insertAll less l).filter p = insertAll less (l.filter p) := by
  induction l using reverseRecOn with
  | nil => rfl
  | append_singleton l x ih =>
    rw [insertAll_concat, listInsertOrdered_filter ho p (insertAll_sorted ho l), ih, filter_append]
    cases hp : p x with
    | false => simp [hp]
    | true =>
      rw [if_pos rfl, filter_cons, if_pos hp, filter_nil, insertAll_concat]

lemma insertAll_front {w : α} {ws : List α} (h : insertAll less l = w :: ws) :
    ∃ us vs, l = us ++ w :: vs ∧ (∀ u ∈ us, less w u = true) ∧ ∀ v ∈ vs, less v w = false := by
  induction l using reverseRecOn generalizing w ws with
  | nil => cases h
  | append_singleton l x ih =>
    rw [insertAll_concat] at h
    cases hacc : insertAll less l with
    | nil =>
      rw [hacc] at h
      cases h
      have hl : l = [] := (hacc ▸ insertAll_perm less l).nil_eq.symm
      exact ⟨[], [], by rw [hl], nofun, nofun⟩
    | cons f rest =>
      rw [hacc, listInsertOrdered] at h
      obtain ⟨us, vs, hsplit, hus, hvs⟩ := ih hacc
      split at h
      next hx =>
        cases h
        refine ⟨l, [], rfl, fun u hu => ?_, nofun⟩
        refine less_of_less_front ho (hacc ▸ insertAll_sorted ho l) hx u ?_
        exact hacc ▸ (insertAll_perm less l).mem_iff.mpr hu
      next hx =>
        cases h
        refine ⟨us, vs ++ [x], by rw [hsplit]; simp, hus, ?_⟩
        intro v hv
        rcases mem_append.mp hv with hv | hv
        · exact hvs v hv
        · rw [mem_singleton.mp hv]
          exact Bool.eq_false_iff.mpr hx

end

end Insertion

def equivalent (less : α → α → Bool) (a b : α) : Bool := !less a b && !less b a

lemma equivalent_iff : equivalent less a b = true ↔ less a b = false ∧ less b a = false := by
  rw [equivalent, Bool.and_eq_true, Bool.not_eq_true', Bool.not_eq_true']

section

variable (ho : WeakOrder less)
include ho

lemma not_less_of_equivalent {x : α} (ha : equivalent less x a = true)
    (hb : equivalent less x b = true) : less a b = false :=
  ho.negTrans b x a (equivalent_iff.mp hb).1 (equivalent_iff.mp ha).2

/-- No element is moved past one that is equivalent to it. -/
lemma inplaceMerge_filter (x : α) {as : List α} (has : Sorted less as) (bs : List α) :
    (inplaceMerge less as bs).filter (equivalent less x) =
      as.filter (equivalent less x) ++ bs.filter (equivalent less x) := by
  induction as generalizing bs with
  | nil => rfl
  | cons a as ih =>
    show (mergeBefore less a as (inplaceMerge less as) bs).filter _ = _
    induction bs with
    | nil => exact (append_nil _).symm
    | cons b bs ihb =>
      unfold mergeBefore
      split
      next hba =>
        by_cases hb : equivalent less x b = true
        · -- `b` precedes the whole first run, so that none of it is in its class
          have hnone : (a :: as).filter (equivalent less x) = [] := by
            refine filter_eq_nil_iff.mpr fun y hy hxy => ?_
            have hby := less_of_less_front ho has hba y hy
            simp [not_less_of_equivalent ho hb hxy] at hby
          rw [filter_cons_of_pos hb, filter_cons_of_pos hb, ihb, hnone]
          rfl
        · rw [filter_cons_of_neg hb, filter_cons_of_neg hb, ihb]
      next =>
        have hrest := ih (pairwise_cons.mp has).2 (b :: bs)
        by_cases ha : equivalent less x a = true
        · rw [filter_cons_of_pos ha, filter_cons_of_pos ha, hrest]
          rfl
        · rw [filter_cons_of_neg ha, filter_cons_of_neg ha, hrest]

lemma mergePass_filter (x : α) (fuel : Nat) (l : List α) :
    (mergePass less fuel l).1.filter (equivalent less x) = l.filter (equivalent less x) := by
  induction fuel generalizing l with
  | zero => rfl
  | succ fuel ih =>
    cases l with
    | nil => rfl
    | cons a l =>
      have happ := findEndOfRun_append less a l
      have hsorted := findEndOfRun_sorted ho a l
      unfold mergePass
      dsimp only
      generalize findEndOfRun less a l = first at happ hsorted
      rcases first with ⟨run, _ | ⟨b, l'⟩⟩
      · rw [append_nil] at happ
        rw [← happ]
      · have happ' := findEndOfRun_append less b l'
        dsimp only at happ hsorted ⊢
        rw [← happ, ← happ', filter_append, filter_append, filter_append, ih,
          inplaceMerge_filter ho x hsorted, append_assoc]

lemma sortPasses_filter (x : α) (fuel : Nat) (l : List α) :
    (sortPasses less fuel l).filter (equivalent less x) = l.filter (equivalent less x) := by
  induction fuel generalizing l with
  | zero => rfl
  | succ fuel ih =>
    have hpass := mergePass_filter ho x (l.length + 1) l
    unfold sortPasses
    dsimp only
    split
    · exact (ih _).trans hpass
    · exact hpass

lemma listSort_sublist (hab : equivalent less a b = true)
    (hsub : [a, b].Sublist l) : [a, b].Sublist (listSort less l) := by
  have hself : equivalent less a a = true := by
    have hba : equivalent less b a = true := equivalent_iff.mpr (equivalent_iff.mp hab).symm
    have haa := not_less_of_equivalent ho hba hba
    exact equivalent_iff.mpr ⟨haa, haa⟩
  have hkept : [a, b].filter (equivalent less a) = [a, b] := by
    rw [filter_cons_of_pos hself, filter_cons_of_pos hab, filter_nil]
  have hfilter := hsub.filter (equivalent less a)
  rw [hkept, ← sortPasses_filter ho a (l.length + 1) l] at hfilter
  exact hfilter.trans filter_sublist

end

end Pintos.Lib
