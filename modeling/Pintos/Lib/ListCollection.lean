import Pintos.Lib.LinkedList

/-!
# Collections of linked lists

Any number of lists that share a heap. Each operation of list.c acts on the sequences of
the lists it is about as the operation on sequences does, keeps all lists well formed and
disjoint, and leaves the nodes of every other list as they are.
-/

namespace Pintos.Lib

open Foundation List

variable {ι N : Type*} [DecidableEq ι]

/-- The lists that have been initialized, with their elements. -/
structure Collection (ι N : Type*) where
  live : Set ι
  seq : ι → List N

namespace Collection

def set (c : Collection ι N) (i : ι) (xs : List N) : Collection ι N where
  live := insert i c.live
  seq := Function.update c.seq i xs

@[simp] lemma set_seq_self (c : Collection ι N) (i : ι) (xs : List N) :
    (c.set i xs).seq i = xs := by
  simp [set]

lemma set_seq_of_ne (c : Collection ι N) {i j : ι} (hne : j ≠ i) (xs : List N) :
    (c.set i xs).seq j = c.seq j := by
  simp [set, hne]

lemma mem_set_live {c : Collection ι N} {i j : ι} {xs : List N} :
    j ∈ (c.set i xs).live ↔ j = i ∨ j ∈ c.live := Iff.rfl

def nodes (lists : ι → ListHdr N) (c : Collection ι N) (i : ι) : List N :=
  (lists i).cells (c.seq i)

def Fresh (lists : ι → ListHdr N) (c : Collection ι N) (n : N) : Prop :=
  ∀ i ∈ c.live, n ∉ c.nodes lists i

/-- Every list is well formed and no node is in two lists. -/
structure WellFormed (lists : ι → ListHdr N) (h : Links N) (c : Collection ι N) : Prop where
  represents : ∀ i ∈ c.live, (lists i).Represents h (c.seq i)
  disjoint : ∀ i ∈ c.live, ∀ j ∈ c.live, i ≠ j → (c.nodes lists i).Disjoint (c.nodes lists j)

end Collection

inductive ListCall (ι N : Type*)
  | init (i : ι)
  | insert (before elem : N)
  | pushFront (i : ι) (elem : N)
  | pushBack (i : ι) (elem : N)
  | remove (elem : N)
  | popFront (i : ι)
  | popBack (i : ι)
  | splice (before first last : N)
  | reverse (i : ι)

section Run

variable [DecidableEq N]

/-- The heap after a call and its result; `none` is a failed `ASSERT` or too small a bound. -/
def ListCall.run (lists : ι → ListHdr N) (fuel : Nat) (h : Links N) :
    ListCall ι N → Option (Links N × Option N)
  | .init i => some (listInit h (lists i), none)
  | .insert before elem => (listInsert h before elem).map (·, none)
  | .pushFront i elem => (listPushFront h (lists i) elem).map (·, none)
  | .pushBack i elem => (listPushBack h (lists i) elem).map (·, none)
  | .remove elem => listRemove h elem
  | .popFront i => (listPopFront h (lists i)).map fun r => (r.1, some r.2)
  | .popBack i => (listPopBack h (lists i)).map fun r => (r.1, some r.2)
  | .splice before first last => (listSplice h before first last).map (·, none)
  | .reverse i => (listReverse fuel h (lists i)).map (·, none)

end Run

/-- What a legal call does to the sequences: its result, the lists it is about and the sequences
after it. A new element is in no list, and a spliced range does not contain `before`. -/
inductive Acts (lists : ι → ListHdr N) (c : Collection ι N) :
    ListCall ι N → Option N → List ι → Collection ι N → Prop
  | init (i : ι) (hne : (lists i).head ≠ (lists i).tail)
      (hfresh : ∀ j ∈ c.live, j ≠ i → ((lists i).cells []).Disjoint (c.nodes lists j)) :
      Acts lists c (.init i) none [i] (c.set i [])
  | insert {i : ι} {elem : N} {xs ys : List N} (hi : i ∈ c.live) (hseq : c.seq i = xs ++ ys)
      (hfresh : c.Fresh lists elem) :
      Acts lists c (.insert ((lists i).front ys) elem) none [i] (c.set i (xs ++ elem :: ys))
  | pushFront {i : ι} {elem : N} (hi : i ∈ c.live) (hfresh : c.Fresh lists elem) :
      Acts lists c (.pushFront i elem) none [i] (c.set i (elem :: c.seq i))
  | pushBack {i : ι} {elem : N} (hi : i ∈ c.live) (hfresh : c.Fresh lists elem) :
      Acts lists c (.pushBack i elem) none [i] (c.set i (c.seq i ++ [elem]))
  | remove {i : ι} {elem : N} {xs ys : List N} (hi : i ∈ c.live)
      (hseq : c.seq i = xs ++ elem :: ys) :
      Acts lists c (.remove elem) (some ((lists i).front ys)) [i] (c.set i (xs ++ ys))
  | popFront {i : ι} {elem : N} {ys : List N} (hi : i ∈ c.live) (hseq : c.seq i = elem :: ys) :
      Acts lists c (.popFront i) (some elem) [i] (c.set i ys)
  | popBack {i : ι} {elem : N} {xs : List N} (hi : i ∈ c.live)
      (hseq : c.seq i = xs ++ [elem]) :
      Acts lists c (.popBack i) (some elem) [i] (c.set i xs)
  | splice {i j : ι} {xs rs ys us vs : List N} (hi : i ∈ c.live) (hj : j ∈ c.live)
      (hseq : c.seq i = xs ++ (rs ++ ys)) (hrest : (c.set i (xs ++ ys)).seq j = us ++ vs) :
      Acts lists c
        (.splice ((lists j).front vs) ((lists i).front (rs ++ ys)) ((lists i).front ys))
        none [i, j] ((c.set i (xs ++ ys)).set j (us ++ (rs ++ vs)))
  | reverse {i : ι} (hi : i ∈ c.live) :
      Acts lists c (.reverse i) none [i] (c.set i (c.seq i).reverse)

namespace Collection

variable {lists : ι → ListHdr N} {h h' : Links N} {c : Collection ι N} {i : ι} {xs : List N}

/-- One list is given new elements, of its own or fresh ones, and only the links of its
nodes change. -/
lemma WellFormed.set (wf : WellFormed lists h c)
    (hrep : (lists i).Represents h' xs ∧ ∀ n, n ∉ (lists i).cells xs → h' n = h n)
    (hdisj : ∀ j ∈ c.live, j ≠ i → ((lists i).cells xs).Disjoint (c.nodes lists j)) :
    WellFormed lists h' (c.set i xs) ∧
      ∀ j ∈ c.live, j ≠ i → ∀ n ∈ c.nodes lists j, h' n = h n := by
  have hframe : ∀ j ∈ c.live, j ≠ i → ∀ n ∈ c.nodes lists j, h' n = h n := fun j hj hji n hn =>
    hrep.2 n fun hmem => hdisj j hj hji hmem hn
  have hself : (c.set i xs).nodes lists i = (lists i).cells xs := by rw [nodes, set_seq_self]
  have hother : ∀ j, j ≠ i → (c.set i xs).nodes lists j = c.nodes lists j := by
    intro j hj
    rw [nodes, nodes, set_seq_of_ne c hj]
  have hlive : ∀ j ∈ (c.set i xs).live, j ≠ i → j ∈ c.live := fun j hj hne =>
    (mem_set_live.mp hj).resolve_left hne
  refine ⟨⟨?_, ?_⟩, hframe⟩
  · intro j hj
    by_cases hji : j = i
    · rw [hji, set_seq_self]
      exact hrep.1
    · rw [set_seq_of_ne c hji]
      exact (wf.represents j (hlive j hj hji)).congr (hframe j (hlive j hj hji) hji)
  · intro j hj k hk hjk
    by_cases hji : j = i
    · have hki : k ≠ i := fun heq => hjk (hji.trans heq.symm)
      rw [hji, hself, hother k hki]
      exact hdisj k (hlive k hk hki) hki
    · rw [hother j hji]
      by_cases hki : k = i
      · rw [hki, hself]
        exact fun n hn hn' => hdisj j (hlive j hj hji) hji hn' hn
      · rw [hother k hki]
        exact wf.disjoint j (hlive j hj hji) k (hlive k hk hki) hjk

omit [DecidableEq ι] in
lemma WellFormed.mono (wf : WellFormed lists h c) {c' : Collection ι N}
    (hsub : ∀ i ∈ c'.live, i ∈ c.live ∧ c'.seq i = c.seq i) : WellFormed lists h c' := by
  have hnodes : ∀ i ∈ c'.live, c'.nodes lists i = c.nodes lists i := by
    intro i hi
    rw [nodes, nodes, (hsub i hi).2]
  refine ⟨fun i hi => ?_, fun i hi j hj hij => ?_⟩
  · rw [(hsub i hi).2]
    exact wf.represents i (hsub i hi).1
  · rw [hnodes i hi, hnodes j hj]
    exact wf.disjoint i (hsub i hi).1 j (hsub j hj).1 hij

omit [DecidableEq ι] in
lemma WellFormed.disjoint_of (wf : WellFormed lists h c) (hi : i ∈ c.live)
    (hxs : ∀ n ∈ xs, n ∈ c.seq i ∨ c.Fresh lists n) :
    ∀ j ∈ c.live, j ≠ i → ((lists i).cells xs).Disjoint (c.nodes lists j) := by
  intro j hj hji n hn hnj
  have hcases : n ∈ c.nodes lists i ∨ c.Fresh lists n := by
    simp only [nodes, ListHdr.cells, mem_cons, mem_append] at hn ⊢
    rcases hn with hn | hn | hn
    · exact .inl (.inl hn)
    · exact (hxs n hn).imp_left fun hmem => .inr (.inl hmem)
    · exact .inl (.inr (.inr hn))
  cases hcases with
  | inl hni => exact wf.disjoint i hi j hj (Ne.symm hji) hni hnj
  | inr hfresh => exact hfresh j hj hnj

/-! ### One operation -/

lemma WellFormed.fresh_of_cut (wf : WellFormed lists h c) {rs ys : List N} (hi : i ∈ c.live)
    (hseq : c.seq i = xs ++ (rs ++ ys)) : ∀ n ∈ rs, (c.set i (xs ++ ys)).Fresh lists n := by
  have hperm := (lists i).cells_perm xs rs ys
  have hnodup := (wf.represents i hi).nodup
  rw [hseq, hperm.nodup_iff, nodup_append] at hnodup
  intro n hn k hk hnk
  by_cases hki : k = i
  · rw [hki, nodes, set_seq_self] at hnk
    exact hnodup.2.2 n hn n hnk rfl
  · rw [nodes, set_seq_of_ne c hki] at hnk
    refine wf.disjoint i hi k ((mem_set_live.mp hk).resolve_left hki) (Ne.symm hki) (a := n) ?_ hnk
    rw [nodes, hseq]
    exact hperm.mem_iff.mpr (mem_append_left _ hn)

/-- The guard of `list_splice` on `before`, which is evaluated while the range is still in
its old list. -/
lemma WellFormed.splice_guard (wf : WellFormed lists h c) {j : ι} {rs ys us vs : List N}
    (hj : j ∈ c.live) (hseq : c.seq i = xs ++ (rs ++ ys))
    (hrest : (c.set i (xs ++ ys)).seq j = us ++ vs) :
    (isInterior h ((lists j).front vs) || isTail h ((lists j).front vs)) = true := by
  have hsub : ∀ n ∈ us ++ vs, n ∈ c.seq j := by
    rw [← hrest]
    by_cases hji : j = i
    · rw [hji, set_seq_self, hseq]
      exact fun n hn => ((sublist_append_right rs ys).append_left xs).subset hn
    · rw [set_seq_of_ne c hji]
      exact fun n hn => hn
  refine (wf.represents j hj).interior_or_tail ?_
  rcases mem_append.mp ((lists j).front_mem vs) with hmem | hmem
  · exact mem_append_left _ (hsub _ (mem_append_right _ hmem))
  · exact mem_append_right _ hmem

section Operations

variable [DecidableEq N]

/-- A call that gives list `i` the elements `xs` and writes to no other list. -/
def Sets (lists : ι → ListHdr N) (c : Collection ι N) (h : Links N) (i : ι) (xs : List N)
    (h' : Links N) : Prop :=
  WellFormed lists h' (c.set i xs) ∧ ∀ j ∈ c.live, j ≠ i → ∀ n ∈ c.nodes lists j, h' n = h n

variable {i : ι} {elem : N} {xs ys : List N}

lemma WellFormed.listInit (wf : WellFormed lists h c) (hne : (lists i).head ≠ (lists i).tail)
    (hfresh : ∀ j ∈ c.live, j ≠ i → ((lists i).cells []).Disjoint (c.nodes lists j)) :
    Sets lists c h i [] (listInit h (lists i)) :=
  wf.set (ListHdr.represents_listInit h hne) hfresh

section

variable (wf : WellFormed lists h c) (hi : i ∈ c.live)
include wf hi

lemma WellFormed.listInsert (hseq : c.seq i = xs ++ ys) (hfresh : c.Fresh lists elem) :
    ∃ h', listInsert h ((lists i).front ys) elem = some h' ∧
      Sets lists c h i (xs ++ elem :: ys) h' := by
  have hr := wf.represents i hi
  have hnot := hfresh i hi
  rw [nodes, hseq] at hnot
  rw [hseq] at hr
  obtain ⟨h', heq, hrep⟩ := hr.listInsert xs ys hnot
  refine ⟨h', heq, wf.set hrep (wf.disjoint_of hi fun n hn => ?_)⟩
  rw [hseq, mem_append]
  rcases mem_append.mp hn with hn | hn
  · exact .inl (.inl hn)
  · rcases mem_cons.mp hn with rfl | hn
    · exact .inr hfresh
    · exact .inl (.inr hn)

lemma WellFormed.listPushFront (hfresh : c.Fresh lists elem) :
    ∃ h', listPushFront h (lists i) elem = some h' ∧
      Sets lists c h i (elem :: c.seq i) h' := by
  obtain ⟨h', heq, hsets⟩ := wf.listInsert hi (nil_append (c.seq i)).symm hfresh
  refine ⟨h', ?_, hsets⟩
  rwa [Lib.listPushFront, (wf.represents i hi).listBegin]

lemma WellFormed.listPushBack (hfresh : c.Fresh lists elem) :
    ∃ h', listPushBack h (lists i) elem = some h' ∧
      Sets lists c h i (c.seq i ++ [elem]) h' :=
  wf.listInsert hi (append_nil (c.seq i)).symm hfresh

lemma WellFormed.listRemove (hseq : c.seq i = xs ++ elem :: ys) :
    ∃ h', listRemove h elem = some (h', some ((lists i).front ys)) ∧
      Sets lists c h i (xs ++ ys) h' := by
  have hr := wf.represents i hi
  rw [hseq] at hr
  obtain ⟨h', heq, hrep⟩ := hr.listRemove xs ys
  refine ⟨h', heq, wf.set hrep (wf.disjoint_of hi fun n hn => .inl ?_)⟩
  rw [hseq]
  exact ((sublist_cons_self elem ys).append_left xs).subset hn

lemma WellFormed.listPopFront (hseq : c.seq i = elem :: ys) :
    ∃ h', listPopFront h (lists i) = some (h', elem) ∧ Sets lists c h i ys h' := by
  have hr := wf.represents i hi
  rw [hseq] at hr
  obtain ⟨h', heq, hrep⟩ := hr.listPopFront
  refine ⟨h', heq, wf.set hrep (wf.disjoint_of hi fun n hn => .inl ?_)⟩
  rw [hseq]
  exact mem_cons_of_mem elem hn

lemma WellFormed.listPopBack (hseq : c.seq i = xs ++ [elem]) :
    ∃ h', listPopBack h (lists i) = some (h', elem) ∧ Sets lists c h i xs h' := by
  have hr := wf.represents i hi
  rw [hseq] at hr
  obtain ⟨h', heq, hrep⟩ := hr.listPopBack
  refine ⟨h', heq, wf.set hrep (wf.disjoint_of hi fun n hn => .inl ?_)⟩
  rw [hseq]
  exact mem_append_left _ hn

lemma WellFormed.listReverse :
    ∃ h', (∀ fuel, (c.seq i).length < fuel → listReverse fuel h (lists i) = some h') ∧
      Sets lists c h i (c.seq i).reverse h' := by
  obtain ⟨h', heq, hrep⟩ := (wf.represents i hi).listReverse
  exact ⟨h', heq, wf.set hrep (wf.disjoint_of hi fun n hn => .inl (mem_reverse.mp hn))⟩

lemma WellFormed.splice
    {j : ι} {rs us vs : List N} (hj : j ∈ c.live) (hseq : c.seq i = xs ++ (rs ++ ys))
    (hrest : (c.set i (xs ++ ys)).seq j = us ++ vs) :
    ∃ h', listSplice h ((lists j).front vs) ((lists i).front (rs ++ ys)) ((lists i).front ys) =
        some h' ∧
      WellFormed lists h' ((c.set i (xs ++ ys)).set j (us ++ (rs ++ vs))) ∧
      ∀ k ∈ c.live, k ≠ i → k ≠ j → ∀ n ∈ c.nodes lists k, h' n = h n := by
  have hr := wf.represents i hi
  have hguard := wf.splice_guard hj hseq hrest
  have hfresh := wf.fresh_of_cut hi hseq
  have hdisj := wf.disjoint_of hi fun n (hn : n ∈ xs ++ ys) => .inl <| by
    rw [hseq]
    exact ((sublist_append_right rs ys).append_left xs).subset hn
  have hjlive : j ∈ (c.set i (xs ++ ys)).live := .inr hj
  rw [hseq] at hr
  cases hrs : rs with
  | nil =>
    rw [hrs, nil_append] at hr
    obtain ⟨hwf, -⟩ := wf.set ⟨hr, fun n _ => rfl⟩ hdisj
    have hrj := hwf.represents j hjlive
    rw [hrest] at hrj
    have hdisj' := hwf.disjoint_of hjlive fun n (hn : n ∈ us ++ vs) => .inl (hrest ▸ hn)
    refine ⟨h, ?_, (hwf.set ⟨hrj, fun n _ => rfl⟩ hdisj').1, fun k _ _ _ n _ => rfl⟩
    rw [listSplice, if_pos hguard, nil_append, if_pos rfl]
  | cons r rs' =>
    rw [← hrs]
    have hf : r ∈ rs.head? := by rw [hrs]; rfl
    obtain ⟨last, hl⟩ : ∃ last, last ∈ rs.getLast? := by
      rw [hrs, getLast?_cons]
      exact ⟨_, rfl⟩
    obtain ⟨hfirst, hne, hprev, hinterior⟩ := hr.range hf hl
    obtain ⟨h₁, hunlink, hrep₁, hrun, hframe₁⟩ := hr.unlink hf hl
    obtain ⟨hwf₁, hkeep₁⟩ := wf.set ⟨hrep₁, hframe₁⟩ hdisj
    have hrj := hwf₁.represents j hjlive
    rw [hrest] at hrj
    have hnodup : ((lists j).cells (us ++ (rs ++ vs))).Nodup := by
      have hold := hr.nodup
      rw [((lists i).cells_perm xs rs ys).nodup_iff, nodup_append] at hold
      rw [((lists j).cells_perm us rs vs).nodup_iff, nodup_append]
      refine ⟨hold.1, hrj.nodup, fun n hn m hm heq => hfresh n hn j hjlive ?_⟩
      rwa [nodes, hrest, heq]
    obtain ⟨h₂, hlink, hrep₂, hframe₂⟩ := hrj.linkBefore hrun hnodup hf hl
    obtain ⟨hwf₂, hkeep₂⟩ := hwf₁.set ⟨hrep₂, hframe₂⟩ (hwf₁.disjoint_of hjlive fun n hn => by
        rw [hrest]
        simp only [mem_append] at hn ⊢
        rcases hn with hn | hn | hn
        · exact .inl (.inl hn)
        · exact .inr (hfresh n hn)
        · exact .inl (.inr hn))
    refine ⟨h₂, ?_, hwf₂, fun k hk hki hkj n hn => ?_⟩
    · rw [listSplice, if_pos hguard, hfirst, if_neg hne, hprev]
      simp [hinterior, hunlink, hlink]
    · rw [hkeep₂ k (.inr hk) hkj n (by rwa [nodes, set_seq_of_ne c hki]), hkeep₁ k hk hki n hn]

end

end Operations

end Collection

open Collection in
/-- A legal call passes all its `ASSERT`s, returns the right pointer, leaves every list well formed
with the right elements, and writes to no other list. -/
theorem acts_run [DecidableEq N] {lists : ι → ListHdr N} {h : Links N} {c c' : Collection ι N}
    {call : ListCall ι N} {ret : Option N} {touched : List ι} (wf : WellFormed lists h c)
    (hacts : Acts lists c call ret touched c') :
    ∃ h', (∃ rounds, ∀ fuel, rounds ≤ fuel → call.run lists fuel h = some (h', ret)) ∧
      WellFormed lists h' c' ∧
      ∀ k ∈ c.live, k ∉ touched →
        k ∈ c'.live ∧ c'.seq k = c.seq k ∧ ∀ n ∈ c.nodes lists k, h' n = h n := by
  -- all calls but a splice set the elements of one list
  have hone : ∀ {i : ι} {xs : List N} {h' : Links N}, Sets lists c h i xs h' →
      WellFormed lists h' (c.set i xs) ∧ ∀ k ∈ c.live, k ∉ [i] →
        k ∈ (c.set i xs).live ∧ (c.set i xs).seq k = c.seq k ∧
          ∀ n ∈ c.nodes lists k, h' n = h n := by
    rintro i xs h' ⟨hwf, hframe⟩
    refine ⟨hwf, fun k hk hki => ?_⟩
    rw [mem_singleton] at hki
    exact ⟨.inr hk, set_seq_of_ne c hki xs, hframe k hk hki⟩
  cases hacts with
  | init i hne hfresh =>
    exact ⟨_, ⟨0, fun fuel _ => rfl⟩, hone (wf.listInit hne hfresh)⟩
  | insert hi hseq hfresh =>
    obtain ⟨h', heq, hsets⟩ := wf.listInsert hi hseq hfresh
    exact ⟨h', ⟨0, fun fuel _ => by rw [ListCall.run, heq]; rfl⟩, hone hsets⟩
  | pushFront hi hfresh =>
    obtain ⟨h', heq, hsets⟩ := wf.listPushFront hi hfresh
    exact ⟨h', ⟨0, fun fuel _ => by rw [ListCall.run, heq]; rfl⟩, hone hsets⟩
  | pushBack hi hfresh =>
    obtain ⟨h', heq, hsets⟩ := wf.listPushBack hi hfresh
    exact ⟨h', ⟨0, fun fuel _ => by rw [ListCall.run, heq]; rfl⟩, hone hsets⟩
  | remove hi hseq =>
    obtain ⟨h', heq, hsets⟩ := wf.listRemove hi hseq
    exact ⟨h', ⟨0, fun fuel _ => heq⟩, hone hsets⟩
  | popFront hi hseq =>
    obtain ⟨h', heq, hsets⟩ := wf.listPopFront hi hseq
    exact ⟨h', ⟨0, fun fuel _ => by rw [ListCall.run, heq]; rfl⟩, hone hsets⟩
  | popBack hi hseq =>
    obtain ⟨h', heq, hsets⟩ := wf.listPopBack hi hseq
    exact ⟨h', ⟨0, fun fuel _ => by rw [ListCall.run, heq]; rfl⟩, hone hsets⟩
  | splice hi hj hseq hrest =>
    obtain ⟨h', heq, hwf, hframe⟩ := wf.splice hi hj hseq hrest
    refine ⟨h', ⟨0, fun fuel _ => by rw [ListCall.run, heq]; rfl⟩, hwf, fun k hk hkt => ?_⟩
    simp only [mem_cons, not_mem_nil, or_false, not_or] at hkt
    refine ⟨.inr (.inr hk), ?_, hframe k hk hkt.1 hkt.2⟩
    rw [set_seq_of_ne _ hkt.2, set_seq_of_ne _ hkt.1]
  | @reverse i hi =>
    obtain ⟨h', heq, hsets⟩ := wf.listReverse hi
    refine ⟨h', ⟨(c.seq i).length + 1, fun fuel hfuel => ?_⟩, hone hsets⟩
    rw [ListCall.run, heq fuel hfuel]
    rfl

/-- Two lists: `false` with the elements 4, 5 and 6, and the empty list `true`. -/
def twoLists : Bool → ListHdr Nat
  | false => ⟨0, 1⟩
  | true => ⟨2, 3⟩

def twoHeap : Links Nat
  | 0 => ⟨none, some 4⟩
  | 1 => ⟨some 6, none⟩
  | 2 => ⟨none, some 3⟩
  | 3 => ⟨some 2, none⟩
  | 4 => ⟨some 0, some 5⟩
  | 5 => ⟨some 4, some 6⟩
  | 6 => ⟨some 5, some 1⟩
  | _ => ⟨none, none⟩

def twoSequences : Collection Bool Nat where
  live := Set.univ
  seq
    | false => [4, 5, 6]
    | true => []

lemma twoSequences_wellFormed : twoSequences.WellFormed twoLists twoHeap := by
  refine ⟨fun i _ => ?_, fun i _ j _ hij => ?_⟩
  · cases i with
    | false => exact ⟨rfl, rfl, by simp [Links.Linked, ListHdr.cells, twoSequences, twoLists,
        twoHeap], by decide⟩
    | true => exact ⟨rfl, rfl, by simp [Links.Linked, ListHdr.cells, twoSequences, twoLists,
        twoHeap], by decide⟩
  · cases i <;> cases j <;> first | exact absurd rfl hij | (unfold List.Disjoint; decide)

/-- `list_splice (&b.tail, 4, 6)` moves two elements to the other list. -/
theorem acts_run_twoLists :
    ∃ h', (∃ rounds, ∀ fuel, rounds ≤ fuel →
        (ListCall.splice 3 4 6).run twoLists fuel twoHeap = some (h', none)) ∧
      ((twoSequences.set false [6]).set true [4, 5]).WellFormed twoLists h' := by
  have hseq : twoSequences.seq false = [] ++ ([4, 5] ++ [6]) := rfl
  have hrest : (twoSequences.set false ([] ++ [6])).seq true = [] ++ [] := rfl
  have hacts : Acts twoLists twoSequences (.splice ((twoLists true).front [])
      ((twoLists false).front ([4, 5] ++ [6])) ((twoLists false).front [6])) none _ _ :=
    .splice trivial trivial hseq hrest
  obtain ⟨h', hrun, hwf, -⟩ := acts_run twoSequences_wellFormed hacts
  exact ⟨h', hrun, hwf⟩

end Pintos.Lib
