import Pintos.Lib.LinkedList
import Pintos.Lib.ListSort

/-! # `list_sort` and `list_insert_ordered` on linked lists (lib/kernel/list.c)

The sort as the source has it: runs are pairs of pointers, a merge moves single elements
with `list_splice`, and every loop is bounded by `fuel`. `none` is a failed `ASSERT`, an
access through a null pointer, or a bound that does not suffice. On a well-formed list the
pointers do what `listSort` and `listInsertOrdered` do to the list of the elements.
-/

namespace Pintos.Lib

open Foundation List

namespace InPlace

variable {N : Type*} [DecidableEq N] (less : N → N → Bool)

def isSortedLoop : Nat → Links N → N → N → Option Bool
  | 0, _, _, _ => none
  | fuel + 1, h, a, b =>
      match listNext h a with
      | some (some a) =>
          if a = b then some true
          else
            match listPrev h a with
            | some (some p) => if less a p then some false else isSortedLoop fuel h a b
            | _ => none
      | _ => none

def isSorted (fuel : Nat) (h : Links N) (a b : N) : Option Bool :=
  if a ≠ b then isSortedLoop less fuel h a b else some true

def findEndOfRunLoop : Nat → Links N → N → N → Option N
  | 0, _, _, _ => none
  | fuel + 1, h, a, b =>
      match listNext h a with
      | some (some a) =>
          if a = b then some a
          else
            match listPrev h a with
            | some (some p) => if less a p then some a else findEndOfRunLoop fuel h a b
            | _ => none
      | _ => none

def findEndOfRun (fuel : Nat) (h : Links N) (a b : N) : Option N :=
  if a ≠ b then findEndOfRunLoop less fuel h a b else none

def mergeLoop : Nat → Links N → N → N → N → Option (Links N)
  | 0, _, _, _, _ => none
  | fuel + 1, h, a0, a1b0, b1 =>
      if a0 ≠ a1b0 ∧ a1b0 ≠ b1 then
        if less a1b0 a0 then
          match listNext h a1b0 with
          | some (some a1b0) =>
              match listPrev h a1b0 with
              | some (some first) =>
                  (listSplice h a0 first a1b0).bind fun h => mergeLoop fuel h a0 a1b0 b1
              | _ => none
          | _ => none
        else
          match listNext h a0 with
          | some (some a0) => mergeLoop fuel h a0 a1b0 b1
          | _ => none
      else some h

def inplaceMerge (fuel : Nat) (h : Links N) (a0 a1b0 b1 : N) : Option (Links N) :=
  if isSorted less fuel h a0 a1b0 = some true ∧ isSorted less fuel h a1b0 b1 = some true then
    mergeLoop less fuel h a0 a1b0 b1
  else none

/-- The `for` loop of `list_sort`, with `output_run_cnt`. -/
def passLoop (bound : Nat) : Nat → Links N → N → N → Nat → Option (Links N × Nat)
  | 0, _, _, _, _ => none
  | fuel + 1, h, a0, tail, runCnt =>
      if a0 = tail then some (h, runCnt)
      else
        match findEndOfRun less bound h a0 tail with
        | none => none
        | some a1b0 =>
            if a1b0 = tail then some (h, runCnt + 1)
            else
              match findEndOfRun less bound h a1b0 tail with
              | none => none
              | some b1 =>
                  (inplaceMerge less bound h a0 a1b0 b1).bind fun h =>
                    passLoop bound fuel h b1 tail (runCnt + 1)

def sortLoop (bound : Nat) : Nat → Links N → ListHdr N → Option (Links N)
  | 0, _, _ => none
  | fuel + 1, h, list =>
      match listBegin h list with
      | none => none
      | some a0 =>
          match passLoop less bound bound h a0 (listEnd list) 0 with
          | none => none
          | some (h, runCnt) => if runCnt > 1 then sortLoop bound fuel h list else some h

def listSort (fuel : Nat) (h : Links N) (list : ListHdr N) : Option (Links N) :=
  match sortLoop less fuel fuel h list with
  | none => none
  | some h =>
      match listBegin h list with
      | none => none
      | some a => if isSorted less fuel h a (listEnd list) = some true then some h else none

/-- The loop of `list_insert_ordered`: the element that `elem` is put before. -/
def insertOrderedLoop : Nat → Links N → N → N → N → Option N
  | 0, _, _, _, _ => none
  | fuel + 1, h, elem, e, tail =>
      if e = tail then some e
      else if less elem e then some e
      else
        match listNext h e with
        | some (some e) => insertOrderedLoop fuel h elem e tail
        | _ => none

def listInsertOrdered (fuel : Nat) (h : Links N) (list : ListHdr N) (elem : N) :
    Option (Links N) :=
  match listBegin h list with
  | none => none
  | some e =>
      (insertOrderedLoop less fuel h elem e (listEnd list)).bind fun e => listInsert h e elem

variable {less} {h : Links N} {l : ListHdr N} {xs pre post : List N}

open ListHdr

section Pointers

omit [DecidableEq N]

variable {a : N}

lemma listPrev_front (hr : ListHdr.Represents h l (pre ++ a :: post)) :
    listPrev h (l.front post) = some (some a) := by
  have hcut : ListHdr.Represents h l (pre ++ ([a] ++ post)) := hr
  exact (hcut.range rfl rfl).2.2.1

lemma ne_front {as : List N} (hr : ListHdr.Represents h l (pre ++ (a :: as ++ post))) :
    a ≠ l.front post := by
  obtain ⟨last, hlast⟩ : ∃ last, last ∈ (a :: as).getLast? := by
    rw [getLast?_cons]
    exact ⟨_, rfl⟩
  exact (hr.range rfl hlast).2.1

lemma ne_tail (hr : ListHdr.Represents h l (pre ++ a :: xs)) : a ≠ l.tail := by
  rw [← append_nil xs] at hr
  have hne : a ≠ l.front [] := ne_front hr
  exact hne

end Pointers

variable {a : N} {as : List N} {fuel : Nat}

lemma listSplice_before {b : N} (hr : ListHdr.Represents h l (pre ++ (a :: as ++ b :: post))) :
    ∃ h', listSplice h a b (l.front post) = some h' ∧
      ListHdr.Represents h' l (pre ++ b :: (a :: as ++ post)) ∧
      ∀ n, n ∉ l.cells (pre ++ (a :: as ++ b :: post)) → h' n = h n := by
  have hguard := hr.interior_or_tail (n := a) (by simp)
  have hcut : ListHdr.Represents h l ((pre ++ a :: as) ++ ([b] ++ post)) := by
    simpa using hr
  obtain ⟨-, hne, hprev, hinterior⟩ := hcut.range rfl rfl
  obtain ⟨h₁, hunlink, hrep₁, hrun, hframe₁⟩ := hcut.unlink rfl rfl
  have hrep₁' : ListHdr.Represents h₁ l (pre ++ (a :: as ++ post)) := by
    simpa using hrep₁
  have hperm : (l.cells (pre ++ ([b] ++ (a :: as ++ post)))).Perm
      (l.cells (pre ++ (a :: as ++ b :: post))) := by
    refine ((l.cells_perm pre [b] (a :: as ++ post)).trans ?_)
    have hcut := (l.cells_perm (pre ++ a :: as) [b] post).symm
    simpa using hcut
  obtain ⟨h₂, hlink, hrep₂, hframe₂⟩ :=
    hrep₁'.linkBefore hrun (hperm.nodup_iff.mpr hr.nodup) rfl rfl
  refine ⟨h₂, ?_, hrep₂, ?_⟩
  · rw [listSplice, if_pos hguard, if_neg hne, hprev]
    simp only [hinterior, if_true, hunlink, Option.bind_some]
    exact hlink
  · intro n hn
    rw [hframe₂ n fun hmem => hn (hperm.mem_iff.mp hmem)]
    refine hframe₁ n fun hmem => hn ?_
    have hsub := (l.cells_perm (pre ++ a :: as) [b] post).mem_iff.mpr (mem_append_right [b] hmem)
    simpa using hsub

omit [DecidableEq N] in
lemma represents_assoc (hr : ListHdr.Represents h l (pre ++ a :: xs)) :
    ListHdr.Represents h l ((pre ++ [a]) ++ xs) := by
  simpa using hr

omit [DecidableEq N] in
lemma mem_cells_of_perm {ys : List N} {n : N} (hperm : xs.Perm ys) (hmem : n ∈ l.cells xs) :
    n ∈ l.cells ys :=
  ((hperm.append_right [l.tail]).cons l.head).mem_iff.mp hmem

lemma isSortedLoop_eq (hr : ListHdr.Represents h l (pre ++ (a :: as ++ post)))
    (hs : Sorted less (a :: as)) (hfuel : as.length < fuel) :
    isSortedLoop less fuel h a (l.front post) = some true := by
  induction as generalizing pre a fuel with
  | nil =>
    cases fuel with
    | zero => cases hfuel
    | succ fuel =>
      have hnext : listNext h a = some (some (l.front post)) := hr.listNext
      simp [isSortedLoop, hnext]
  | cons b as ih =>
    cases fuel with
    | zero => cases hfuel
    | succ fuel =>
      have hnext : listNext h a = some (some b) := hr.listNext
      have hrest : ListHdr.Represents h l ((pre ++ [a]) ++ (b :: as ++ post)) :=
        represents_assoc hr
      have hcut : ListHdr.Represents h l (pre ++ a :: b :: (as ++ post)) := hr
      have hprev : listPrev h b = some (some a) := listPrev_front hcut
      obtain ⟨hba, hs'⟩ := pairwise_cons.mp hs
      simp only [isSortedLoop, hnext, if_neg (ne_front hrest), hprev,
        hba b mem_cons_self, Bool.false_eq_true, if_false]
      exact ih hrest hs' (Nat.lt_of_succ_lt_succ hfuel)

lemma isSorted_eq (hr : ListHdr.Represents h l (pre ++ (a :: as ++ post)))
    (hs : Sorted less (a :: as)) (hfuel : as.length < fuel) :
    isSorted less fuel h a (l.front post) = some true := by
  rw [isSorted, if_pos (ne_front hr)]
  exact isSortedLoop_eq hr hs hfuel

lemma findEndOfRunLoop_eq (hr : ListHdr.Represents h l (pre ++ a :: xs))
    (hfuel : xs.length < fuel) :
    findEndOfRunLoop less fuel h a l.tail =
      some (l.front (Lib.findEndOfRun less a xs).2) := by
  induction xs generalizing pre a fuel with
  | nil =>
    cases fuel with
    | zero => cases hfuel
    | succ fuel =>
      have hnext : listNext h a = some (some l.tail) := hr.listNext
      simp [findEndOfRunLoop, hnext, Lib.findEndOfRun, front]
  | cons b xs ih =>
    cases fuel with
    | zero => cases hfuel
    | succ fuel =>
      have hnext : listNext h a = some (some b) := hr.listNext
      have hprev : listPrev h b = some (some a) := listPrev_front hr
      have hrest := represents_assoc hr
      simp only [findEndOfRunLoop, hnext, if_neg (ne_tail hrest), hprev, Lib.findEndOfRun]
      by_cases hba : less b a = true
      · rw [if_pos hba, if_pos hba]
        rfl
      · rw [if_neg hba, if_neg hba]
        exact ih hrest (Nat.lt_of_succ_lt_succ hfuel)

lemma findEndOfRun_eq (hr : ListHdr.Represents h l (pre ++ a :: xs)) (hfuel : xs.length < fuel) :
    findEndOfRun less fuel h a l.tail = some (l.front (Lib.findEndOfRun less a xs).2) := by
  rw [findEndOfRun, if_pos (ne_tail hr)]
  exact findEndOfRunLoop_eq hr hfuel

/-- The merge of two neighbouring runs, wherever they are in the list. -/
lemma mergeLoop_spec {bs : List N} (hr : ListHdr.Represents h l (pre ++ (as ++ (bs ++ post))))
    (hfuel : as.length + bs.length < fuel) :
    ∃ h', mergeLoop less fuel h (l.front (as ++ (bs ++ post))) (l.front (bs ++ post))
        (l.front post) = some h' ∧
      ListHdr.Represents h' l (pre ++ (Lib.inplaceMerge less as bs ++ post)) ∧
      ∀ n, n ∉ l.cells (pre ++ (as ++ (bs ++ post))) → h' n = h n := by
  induction fuel generalizing h pre as bs with
  | zero => exact absurd hfuel (Nat.not_lt_zero _)
  | succ fuel ih =>
    cases as with
    | nil => exact ⟨h, by simp [mergeLoop], hr, fun n _ => rfl⟩
    | cons a as =>
      cases bs with
      | nil => exact ⟨h, by simp [mergeLoop], hr, fun n _ => rfl⟩
      | cons b bs =>
        have hcut : ListHdr.Represents h l ((pre ++ a :: as) ++ (b :: bs ++ post)) := by
          simpa using hr
        have hab : a ≠ l.front (b :: bs ++ post) := ne_front hr
        have hbend : b ≠ l.front post := ne_front hcut
        have hne : a ≠ b ∧ b ≠ l.front post := ⟨hab, hbend⟩
        have hfirst : l.front (a :: as ++ (b :: bs ++ post)) = a := rfl
        have hsecond : l.front (b :: bs ++ post) = b := rfl
        simp only [length_cons] at hfuel
        rw [hfirst, hsecond, mergeLoop, if_pos hne]
        by_cases hba : less b a = true
        · have hnext : listNext h b = some (some (l.front (bs ++ post))) := hcut.listNext
          have hprev : listPrev h (l.front (bs ++ post)) = some (some b) :=
            listPrev_front hcut
          have hmove : ListHdr.Represents h l (pre ++ (a :: as ++ b :: (bs ++ post))) := hr
          obtain ⟨h₁, hsplice, hrep₁, hframe₁⟩ := listSplice_before hmove
          have hleft : ListHdr.Represents h₁ l ((pre ++ [b]) ++ (a :: as ++ (bs ++ post))) :=
            represents_assoc hrep₁
          obtain ⟨h₂, hloop, hrep₂, hframe₂⟩ :=
            ih hleft (by simp only [length_cons]; omega)
          refine ⟨h₂, ?_, ?_, ?_⟩
          · simp only [if_pos hba, hnext, hprev, hsplice, Option.bind_some]
            exact hloop
          · have hmerge : Lib.inplaceMerge less (a :: as) (b :: bs) =
                b :: Lib.inplaceMerge less (a :: as) bs := if_pos hba
            rw [hmerge]
            simpa using hrep₂
          · intro n hn
            have hmoved : (b :: (a :: as ++ (bs ++ post))).Perm
                (a :: as ++ (b :: bs ++ post)) := perm_middle.symm
            have hperm := hmoved.append_left pre
            rw [append_cons] at hperm
            rw [hframe₂ n fun hmem => hn (mem_cells_of_perm hperm hmem), hframe₁ n hn]
        · have hnext : listNext h a = some (some (l.front (as ++ (b :: bs ++ post)))) :=
            hr.listNext
          have hleft : ListHdr.Represents h l ((pre ++ [a]) ++ (as ++ (b :: bs ++ post))) :=
            represents_assoc hr
          obtain ⟨h₁, hloop, hrep₁, hframe₁⟩ :=
            ih hleft (by simp only [length_cons]; omega)
          refine ⟨h₁, ?_, ?_, ?_⟩
          · simp only [if_neg hba, hnext]
            exact hloop
          · have hmerge : Lib.inplaceMerge less (a :: as) (b :: bs) =
                a :: Lib.inplaceMerge less as (b :: bs) := if_neg hba
            rw [hmerge]
            simpa using hrep₁
          · intro n hn
            refine hframe₁ n fun hmem => hn ?_
            simpa using hmem

lemma inplaceMerge_spec {b : N} {bs : List N}
    (hr : ListHdr.Represents h l (pre ++ (a :: as ++ (b :: bs ++ post))))
    (has : Sorted less (a :: as)) (hbs : Sorted less (b :: bs))
    (hfuel : (a :: as).length + (b :: bs).length < fuel) :
    ∃ h', inplaceMerge less fuel h a b (l.front post) = some h' ∧
      ListHdr.Represents h' l (pre ++ (Lib.inplaceMerge less (a :: as) (b :: bs) ++ post)) ∧
      ∀ n, n ∉ l.cells (pre ++ (a :: as ++ (b :: bs ++ post))) → h' n = h n := by
  have hcut : ListHdr.Represents h l ((pre ++ a :: as) ++ (b :: bs ++ post)) := by
    simpa using hr
  have hfirst : isSorted less fuel h a b = some true :=
    isSorted_eq hr has (by simp only [length_cons] at hfuel; omega)
  have hsecond : isSorted less fuel h b (l.front post) = some true :=
    isSorted_eq hcut hbs (by simp only [length_cons] at hfuel; omega)
  rw [inplaceMerge, if_pos ⟨hfirst, hsecond⟩]
  exact mergeLoop_spec hr hfuel

/-! ## Passes -/

lemma passLoop_spec (ho : WeakOrder less) {bound fuel' : Nat} (runCnt : Nat)
    (hr : ListHdr.Represents h l (pre ++ xs)) (hfuel : xs.length < fuel)
    (hfuel' : xs.length < fuel') (hbound : xs.length < bound) :
    ∃ h', passLoop less bound fuel h (l.front xs) l.tail runCnt =
        some (h', runCnt + (mergePass less fuel' xs).2) ∧
      ListHdr.Represents h' l (pre ++ (mergePass less fuel' xs).1) ∧
      ∀ n, n ∉ l.cells (pre ++ xs) → h' n = h n := by
  induction fuel' generalizing h pre xs fuel runCnt with
  | zero => exact absurd hfuel' (Nat.not_lt_zero _)
  | succ fuel' ih =>
    obtain ⟨fuel, rfl⟩ : ∃ k, fuel = k + 1 := ⟨fuel - 1, by omega⟩
    cases xs with
    | nil => exact ⟨h, by simp [passLoop, front, mergePass], hr, fun n _ => rfl⟩
    | cons a xs =>
      simp only [length_cons] at hfuel hfuel' hbound
      have hend : findEndOfRun less bound h a l.tail =
          some (l.front (Lib.findEndOfRun less a xs).2) :=
        findEndOfRun_eq hr (Nat.lt_of_succ_lt hbound)
      have happ := findEndOfRun_append less a xs
      have hsorted := findEndOfRun_sorted ho a xs
      obtain ⟨as, has⟩ := findEndOfRun_eq_cons less a xs
      have hfront : l.front (a :: xs) = a := rfl
      rw [hfront, passLoop, if_neg (ne_tail hr), hend]
      unfold mergePass
      dsimp only
      generalize Lib.findEndOfRun less a xs = first at has happ hsorted
      rcases first with ⟨run, _ | ⟨b, xs'⟩⟩
      · rw [append_nil] at happ
        refine ⟨h, by simp [front], ?_, fun n _ => rfl⟩
        rwa [happ]
      · dsimp only at has happ hsorted ⊢
        subst has
        rw [← happ] at hr
        have hcut : ListHdr.Represents h l ((pre ++ a :: as) ++ b :: xs') := by
          simpa using hr
        have hlen := congrArg length happ
        simp only [length_append, length_cons] at hlen
        have hend' : findEndOfRun less bound h b l.tail =
            some (l.front (Lib.findEndOfRun less b xs').2) :=
          findEndOfRun_eq hcut (by omega)
        have happ' := findEndOfRun_append less b xs'
        have hsorted' := findEndOfRun_sorted ho b xs'
        obtain ⟨bs, hbs⟩ := findEndOfRun_eq_cons less b xs'
        have hfront' : l.front (b :: xs') = b := rfl
        rw [hfront', if_neg (ne_tail hcut), hend']
        dsimp only
        generalize Lib.findEndOfRun less b xs' = second at hbs happ' hsorted'
        rcases second with ⟨run', rest⟩
        dsimp only at hbs happ' hsorted' ⊢
        subst hbs
        rw [← happ'] at hr
        have hlen' := congrArg length happ'
        simp only [length_append, length_cons] at hlen'
        have hboth : (a :: as).length + (b :: bs).length < bound := by
          simp only [length_cons]
          omega
        obtain ⟨h₁, hmerge, hrep₁, hframe₁⟩ := inplaceMerge_spec hr hsorted hsorted' hboth
        rw [← append_assoc] at hrep₁
        have hleft : rest.length < fuel := by omega
        obtain ⟨h₂, hloop, hrep₂, hframe₂⟩ :=
          ih (runCnt + 1) hrep₁ hleft (by omega) (by omega)
        refine ⟨h₂, ?_, ?_, ?_⟩
        · rw [hmerge, Option.bind_some, hloop, Nat.add_assoc, Nat.add_comm 1]
        · simpa using hrep₂
        · intro n hn
          rw [← happ, ← happ'] at hn
          have hmerged := inplaceMerge_perm less (a :: as) (b :: bs)
          have hperm := (hmerged.append_right rest).append_left pre
          rw [← append_assoc pre, append_assoc (a :: as)] at hperm
          rw [hframe₂ n fun hmem => hn (mem_cells_of_perm hperm hmem), hframe₁ n hn]

lemma sortLoop_spec (ho : WeakOrder less) {bound fuel' n : Nat} (hr : ListHdr.Represents h l xs)
    (hruns : Runs less n xs) (hfuel : n < fuel) (hfuel' : n < fuel') (hbound : xs.length < bound) :
    ∃ h', sortLoop less bound fuel h l = some h' ∧
      ListHdr.Represents h' l (sortPasses less fuel' xs) ∧ ∀ n, n ∉ l.cells xs → h' n = h n := by
  induction fuel' generalizing h xs n fuel with
  | zero => exact absurd hfuel' (Nat.not_lt_zero _)
  | succ fuel' ih =>
    obtain ⟨fuel, rfl⟩ : ∃ k, fuel = k + 1 := ⟨fuel - 1, by omega⟩
    have hbegin := hr.listBegin
    obtain ⟨hcount, hpass⟩ := mergePass_runs ho hruns (Nat.lt_add_one xs.length)
    have hperm := mergePass_perm less (xs.length + 1) xs
    have hall : ListHdr.Represents h l ([] ++ xs) := hr
    obtain ⟨h₁, hloop, hrep₁, hframe₁⟩ := passLoop_spec ho 0 hall hbound
      (Nat.lt_add_one xs.length) hbound
    rw [nil_append, Nat.zero_add] at *
    unfold sortLoop sortPasses
    rw [hbegin]
    dsimp only [listEnd]
    rw [hloop]
    dsimp only
    split
    next hmore =>
      have hleft : (mergePass less (xs.length + 1) xs).2 < fuel := by omega
      obtain ⟨h₂, hrest, hrep₂, hframe₂⟩ := ih hrep₁ hpass hleft (by omega)
        (by rw [hperm.length_eq]; exact hbound)
      refine ⟨h₂, hrest, hrep₂, ?_⟩
      intro n hn
      rw [hframe₂ n fun hmem => hn ?_, hframe₁ n hn]
      simpa only [cells, mem_cons, mem_append, hperm.mem_iff] using hmem
    next => exact ⟨h₁, rfl, hrep₁, hframe₁⟩

/-- On a well-formed list `list_sort` passes its `ASSERT`s, writes to its nodes only and leaves the
order of `listSort`. -/
lemma listSort_spec (ho : WeakOrder less) (hr : ListHdr.Represents h l xs)
    (hfuel : xs.length < fuel) :
    ∃ h', listSort less fuel h l = some h' ∧ ListHdr.Represents h' l (Lib.listSort less xs) ∧
      ∀ n, n ∉ l.cells xs → h' n = h n := by
  obtain ⟨h', hloop, hrep, hframe⟩ := sortLoop_spec ho hr (.length xs) hfuel
    (Nat.lt_add_one xs.length) hfuel
  refine ⟨h', ?_, hrep, hframe⟩
  have hsorted : isSorted less fuel h' (l.front (Lib.listSort less xs)) l.tail = some true := by
    have hlen := (listSort_perm less xs).length_eq
    have hs := listSort_sorted ho xs
    change ListHdr.Represents h' l (Lib.listSort less xs) at hrep
    cases hout : Lib.listSort less xs with
    | nil => simp [isSorted, front]
    | cons a as =>
      rw [hout] at hrep hs hlen
      rw [length_cons] at hlen
      have hall : ListHdr.Represents h' l ([] ++ (a :: as ++ [])) := by simpa using hrep
      have hend : isSorted less fuel h' a (l.front []) = some true :=
        isSorted_eq hall hs (by omega)
      exact hend
  rw [listSort, hloop]
  dsimp only
  rw [hrep.listBegin]
  exact if_pos hsorted

/-- On every well-formed list the sort ends without a failed `ASSERT` in a sorted permutation, with
equivalent elements as they were. -/
theorem listSort_stable {less : N → N → Bool} (ho : WeakOrder less) {h : Links N} {l : ListHdr N}
    {xs : List N} (hr : ListHdr.Represents h l xs) {fuel : Nat} (hfuel : xs.length < fuel) :
    ∃ h' ys, listSort less fuel h l = some h' ∧ ListHdr.Represents h' l ys ∧ ys.Perm xs ∧
      ys.Pairwise (fun a b => less b a = false) ∧
      ∀ a b, less a b = false → less b a = false → [a, b].Sublist xs → [a, b].Sublist ys := by
  obtain ⟨h', hsort, hrep, -⟩ := listSort_spec ho hr hfuel
  refine ⟨h', Lib.listSort less xs, hsort, hrep, listSort_perm less xs, listSort_sorted ho xs, ?_⟩
  intro a b hab hba hsub
  exact listSort_sublist ho (equivalent_iff.mpr ⟨hab, hba⟩) hsub

/-- Two nodes between the ends, where the second comes first in the order. -/
theorem listSort_stable_pair :
    ∃ h' ys, listSort (fun a b : Nat => decide (b < a)) 3
        (fun n => ⟨if n = 0 then none else some (n - 1), if n = 3 then none else some (n + 1)⟩)
        ⟨0, 3⟩ = some h' ∧ ListHdr.Represents h' ⟨0, 3⟩ ys ∧ ys.Perm [1, 2] := by
  have hr : ListHdr.Represents
      (fun n : Nat => ⟨if n = 0 then none else some (n - 1), if n = 3 then none else some (n + 1)⟩)
      ⟨0, 3⟩ [1, 2] := ⟨rfl, rfl, by simp [cells, Links.Linked], by decide⟩
  have ho : WeakOrder fun a b : Nat => decide (b < a) := by
    refine ⟨fun a b hab => ?_, fun a b c hba hcb => ?_⟩
    · rw [decide_eq_true_eq] at hab
      exact decide_eq_false (by omega)
    · rw [decide_eq_false_iff_not] at hba hcb
      exact decide_eq_false (by omega)
  obtain ⟨h', ys, hsort, hrep, hperm, -⟩ := listSort_stable ho hr (by decide : [1, 2].length < 3)
  exact ⟨h', ys, hsort, hrep, hperm⟩

variable (less) in
lemma insertOrderedLoop_eq (elem : N) (hr : ListHdr.Represents h l (pre ++ xs))
    (hfuel : xs.length < fuel) :
    ∃ us vs, xs = us ++ vs ∧
      insertOrderedLoop less fuel h elem (l.front xs) l.tail = some (l.front vs) ∧
      Lib.listInsertOrdered less elem xs = us ++ elem :: vs := by
  induction xs generalizing pre fuel with
  | nil =>
    cases fuel with
    | zero => cases hfuel
    | succ fuel => exact ⟨[], [], rfl, by simp [insertOrderedLoop, front], rfl⟩
  | cons e xs ih =>
    cases fuel with
    | zero => cases hfuel
    | succ fuel =>
      have hfront : l.front (e :: xs) = e := rfl
      have hnext : listNext h e = some (some (l.front xs)) := hr.listNext
      rw [hfront, insertOrderedLoop, if_neg (ne_tail hr), Lib.listInsertOrdered]
      by_cases hless : less elem e = true
      · rw [if_pos hless, if_pos hless]
        exact ⟨[], e :: xs, rfl, rfl, rfl⟩
      · rw [if_neg hless, if_neg hless, hnext]
        obtain ⟨us, vs, hsplit, hloop, hins⟩ :=
          ih (represents_assoc hr) (Nat.lt_of_succ_lt_succ hfuel)
        exact ⟨e :: us, vs, by rw [hsplit]; rfl, hloop, by rw [hins]; rfl⟩

lemma listInsertOrdered_spec {elem : N} (hr : ListHdr.Represents h l xs)
    (hfresh : elem ∉ l.cells xs) (hfuel : xs.length < fuel) :
    ∃ h', listInsertOrdered less fuel h l elem = some h' ∧
      ListHdr.Represents h' l (Lib.listInsertOrdered less elem xs) ∧
      ∀ n, n ≠ elem → n ∉ l.cells xs → h' n = h n := by
  have hall : ListHdr.Represents h l ([] ++ xs) := hr
  obtain ⟨us, vs, rfl, hloop, hins⟩ := insertOrderedLoop_eq less elem hall hfuel
  obtain ⟨h', hinsert, hrep, hframe⟩ := hr.listInsert us vs hfresh
  refine ⟨h', ?_, ?_, ?_⟩
  · rw [listInsertOrdered, hr.listBegin]
    dsimp only [listEnd]
    rw [hloop, Option.bind_some, hinsert]
  · rwa [hins]
  · intro n hne hn
    refine hframe n fun hmem => ?_
    have hcons : n ∈ elem :: l.cells (us ++ vs) := by
      have hperm : (l.cells (us ++ elem :: vs)).Perm (elem :: l.cells (us ++ vs)) := by
        simpa using l.cells_perm us [elem] vs
      exact hperm.mem_iff.mp hmem
    rcases mem_cons.mp hcons with rfl | hold
    · exact hne rfl
    · exact hn hold

end InPlace

end Pintos.Lib
