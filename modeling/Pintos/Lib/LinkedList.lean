import Pintos.Foundation.Links

/-!
# Linked lists (lib/kernel/list.c)

The pointer operations of the kernel's doubly linked lists over a heap of `list_elem`
nodes. A list has a head and a tail node of its own, which are not elements. `none` is a
failed `ASSERT` or an access through a null pointer.
-/

namespace Pintos.Lib

open Foundation List Option

variable {N : Type*} [DecidableEq N]

structure ListHdr (N : Type*) where
  head : N
  tail : N

section Operations

def isHead (h : Links N) (elem : N) : Bool := (h elem).prev.isNone && (h elem).next.isSome

def isInterior (h : Links N) (elem : N) : Bool := (h elem).prev.isSome && (h elem).next.isSome

def isTail (h : Links N) (elem : N) : Bool := (h elem).prev.isSome && (h elem).next.isNone

def listInit (h : Links N) (list : ListHdr N) : Links N :=
  let h := h.setPrev list.head none
  let h := h.setNext list.head (some list.tail)
  let h := h.setPrev list.tail (some list.head)
  h.setNext list.tail none

def listBegin (h : Links N) (list : ListHdr N) : Option N := (h list.head).next

def listEnd (list : ListHdr N) : N := list.tail

def listEmpty (h : Links N) (list : ListHdr N) : Bool := listBegin h list == some (listEnd list)

/-- The outer option is the `ASSERT`, the inner one the pointer. -/
def listNext (h : Links N) (elem : N) : Option (Option N) :=
  if isHead h elem || isInterior h elem then some (h elem).next else none

def listPrev (h : Links N) (elem : N) : Option (Option N) :=
  if isInterior h elem || isTail h elem then some (h elem).prev else none

def listInsert (h : Links N) (before elem : N) : Option (Links N) :=
  if isInterior h before || isTail h before then h.linkBefore before elem elem else none

def listSplice (h : Links N) (before first last : N) : Option (Links N) :=
  if isInterior h before || isTail h before then
    if first = last then some h
    else
      match listPrev h last with
      | some (some last) =>
          if isInterior h first && isInterior h last then
            (h.unlink first last).bind fun h => h.linkBefore before first last
          else none
      | _ => none
  else none

def listPushFront (h : Links N) (list : ListHdr N) (elem : N) : Option (Links N) :=
  (listBegin h list).bind fun before => listInsert h before elem

def listPushBack (h : Links N) (list : ListHdr N) (elem : N) : Option (Links N) :=
  listInsert h (listEnd list) elem

/-- The heap after the removal and `elem->next`. -/
def listRemove (h : Links N) (elem : N) : Option (Links N × Option N) :=
  if isInterior h elem then (h.unlink elem elem).map fun h => (h, (h elem).next) else none

def listFront (h : Links N) (list : ListHdr N) : Option N :=
  if listEmpty h list then none else (h list.head).next

def listBack (h : Links N) (list : ListHdr N) : Option N :=
  if listEmpty h list then none else (h list.tail).prev

def listPopFront (h : Links N) (list : ListHdr N) : Option (Links N × N) :=
  (listFront h list).bind fun front => (listRemove h front).map fun r => (r.1, front)

def listPopBack (h : Links N) (list : ListHdr N) : Option (Links N × N) :=
  (listBack h list).bind fun back => (listRemove h back).map fun r => (r.1, back)

def swapLinks (h : Links N) (e : N) : Links N :=
  Function.update h e ⟨(h e).next, (h e).prev⟩

/-- The loop of `list_reverse`; the first argument bounds the number of its rounds. -/
def reverseLoop : Nat → Links N → Option N → N → Option (Links N)
  | 0, _, _, _ => none
  | _ + 1, _, none, _ => none
  | fuel + 1, h, some e, tail =>
      if e = tail then some h
      else reverseLoop fuel (swapLinks h e) (swapLinks h e e).prev tail

def listReverse (fuel : Nat) (h : Links N) (list : ListHdr N) : Option (Links N) :=
  if listEmpty h list then some h
  else
    (reverseLoop fuel h (listBegin h list) (listEnd list)).bind fun h =>
      let g := (h.setNext list.head (h list.tail).prev).setPrev list.tail (h list.head).next
      match (g list.head).next, (g list.tail).prev with
      | some a, some b => some ((g.setPrev a (g b).next).setNext b (g a).prev)
      | _, _ => none

end Operations

namespace ListHdr

def cells (l : ListHdr N) (xs : List N) : List N := l.head :: (xs ++ [l.tail])

/-- The first node of `ys` if the list goes on with `ys`. -/
def front (l : ListHdr N) (ys : List N) : N := ys.headD l.tail

/-- The last node of `xs` if the list starts with `xs`. -/
def back (l : ListHdr N) (xs : List N) : N := xs.getLastD l.head

/-- The list is well formed and its elements are `xs`. -/
structure Represents (h : Links N) (l : ListHdr N) (xs : List N) : Prop where
  head_prev : (h l.head).prev = none
  tail_next : (h l.tail).next = none
  chain : (l.cells xs).IsChain h.Linked
  nodup : (l.cells xs).Nodup

omit [DecidableEq N]

variable {h h' : Links N} {l : ListHdr N} {xs ys rs : List N}

section

variable (l : ListHdr N)

lemma cells_append (xs ys : List N) : l.cells (xs ++ ys) = (l.head :: xs) ++ (ys ++ [l.tail]) := by
  simp [cells]

lemma cells_append_append (xs rs ys : List N) :
    l.cells (xs ++ (rs ++ ys)) = (l.head :: xs) ++ (rs ++ (ys ++ [l.tail])) := by
  simp [cells]

lemma cells_perm (xs rs ys : List N) :
    (l.cells (xs ++ (rs ++ ys))).Perm (rs ++ l.cells (xs ++ ys)) := by
  rw [cells_append_append, cells_append]
  exact perm_append_comm_assoc _ _ _

lemma back_mem_getLast? (xs : List N) : l.back xs ∈ (l.head :: xs).getLast? := by
  rw [getLast?_cons, back, getLastD_eq_getLast?]
  rfl

lemma front_mem_head? (ys : List N) : l.front ys ∈ (ys ++ [l.tail]).head? := by
  cases ys <;> rfl

lemma back_mem (xs : List N) : l.back xs ∈ l.head :: xs :=
  mem_of_getLast? (l.back_mem_getLast? xs)

lemma front_mem (ys : List N) : l.front ys ∈ ys ++ [l.tail] :=
  mem_of_head? (l.front_mem_head? ys)

end

lemma exists_front {n : N} (hn : n ∈ xs ++ [l.tail]) : ∃ us vs, xs = us ++ vs ∧ n = l.front vs := by
  rcases mem_append.mp hn with hn | hn
  · obtain ⟨us, vs, rfl⟩ := append_of_mem hn
    exact ⟨us, n :: vs, rfl, rfl⟩
  · rw [mem_singleton] at hn
    exact ⟨xs, [], by simp, hn⟩

lemma exists_back {n : N} (hn : n ∈ l.head :: xs) : ∃ us vs, xs = us ++ vs ∧ n = l.back us := by
  cases hn with
  | head => exact ⟨[], xs, rfl, rfl⟩
  | tail _ hn =>
    obtain ⟨us, vs, rfl⟩ := append_of_mem hn
    exact ⟨us ++ [n], vs, by simp, by simp [back, getLastD_eq_getLast?]⟩

namespace Represents

lemma linked (xs ys : List N) (hr : Represents h l (xs ++ ys)) :
    h.Linked (l.back xs) (l.front ys) := by
  have hchain := hr.chain
  rw [cells_append, isChain_append] at hchain
  exact hchain.2.2 _ (l.back_mem_getLast? xs) _ (l.front_mem_head? ys)

section

variable (hr : Represents h l xs)
include hr

lemma congr (hh : ∀ n ∈ l.cells xs, h' n = h n) : Represents h' l xs where
  head_prev := by rw [hh _ (by simp [cells]), hr.head_prev]
  tail_next := by rw [hh _ (by simp [cells]), hr.tail_next]
  chain := Links.chain_congr hr.chain (fun n hn => by rw [hh n (dropLast_subset _ hn)])
    fun n hn => by rw [hh n (mem_of_mem_tail hn)]
  nodup := hr.nodup

lemma prev_isSome {n : N} (hn : n ∈ xs ++ [l.tail]) : (h n).prev.isSome := by
  obtain ⟨us, vs, rfl, rfl⟩ := exists_front hn
  rw [(hr.linked us vs).2]
  rfl

lemma next_isSome {n : N} (hn : n ∈ l.head :: xs) : (h n).next.isSome := by
  obtain ⟨us, vs, rfl, rfl⟩ := exists_back hn
  rw [(hr.linked us vs).1]
  rfl

lemma interior_or_tail {n : N} (hn : n ∈ xs ++ [l.tail]) :
    (isInterior h n || isTail h n) = true := by
  have hprev := hr.prev_isSome hn
  cases hnext : (h n).next <;> simp [isInterior, isTail, hprev, hnext]

lemma isInterior {n : N} (hn : n ∈ xs) : isInterior h n = true := by
  have hprev := hr.prev_isSome (mem_append_left _ hn)
  have hnext := hr.next_isSome (mem_cons_of_mem _ hn)
  simp [Lib.isInterior, hprev, hnext]

end

lemma nodup_insert {elem : N} (hr : Represents h l (xs ++ ys))
    (hfresh : elem ∉ l.cells (xs ++ ys)) : (l.cells (xs ++ elem :: ys)).Nodup := by
  have hperm : (l.cells (xs ++ elem :: ys)).Perm (elem :: l.cells (xs ++ ys)) := by
    rw [cells_append, cells_append]
    exact perm_middle
  exact hperm.nodup_iff.mpr (nodup_cons.mpr ⟨hfresh, hr.nodup⟩)

end Represents

lemma Represents.listBegin (hr : Represents h l xs) : listBegin h l = some (l.front xs) :=
  (hr.linked [] xs).1

lemma Represents.next_elem {elem : N} (hr : Represents h l (xs ++ elem :: ys)) :
    (h elem).next = some (l.front ys) := by
  rw [append_cons] at hr
  have hlinked := (hr.linked _ _).1
  rwa [back, getLastD_concat] at hlinked

lemma Represents.listNext {elem : N} (hr : Represents h l (xs ++ elem :: ys)) :
    listNext h elem = some (some (l.front ys)) := by
  rw [Lib.listNext, hr.isInterior (by simp), Bool.or_true, if_pos rfl, hr.next_elem]

section Runs

variable {first last : N}

/-- The range of a run as `list_splice` reads it, with its `ASSERT`s true. -/
lemma Represents.range (hr : Represents h l (xs ++ (rs ++ ys))) (hf : first ∈ rs.head?)
    (hl : last ∈ rs.getLast?) :
    l.front (rs ++ ys) = first ∧ first ≠ l.front ys ∧
      listPrev h (l.front ys) = some (some last) ∧
      (Lib.isInterior h first && Lib.isInterior h last) = true := by
  have hfmem := mem_of_head? hf
  have hlmem := mem_of_getLast? hl
  have hfirst : l.front (rs ++ ys) = first := by
    rw [front, headD_eq_head?_getD, head?_append, mem_def.mp hf]
    rfl
  have hlast : l.back (xs ++ rs) = last := by
    rw [back, getLastD_eq_getLast?, getLast?_append, mem_def.mp hl]
    rfl
  have hne : first ≠ l.front ys := by
    have hnodup := hr.nodup
    rw [cells_append_append, nodup_append, nodup_append] at hnodup
    exact hnodup.2.1.2.2 _ hfmem _ (l.front_mem ys)
  have hguard := hr.interior_or_tail (n := l.front ys) (by
    have hmem := l.front_mem ys
    simp only [mem_append] at hmem ⊢
    tauto)
  have hprev : (h (l.front ys)).prev = some last := by
    rw [← append_assoc] at hr
    rw [(hr.linked (xs ++ rs) ys).2, hlast]
  refine ⟨hfirst, hne, by rw [listPrev, if_pos hguard, hprev], ?_⟩
  rw [hr.isInterior (by simp [hfmem]), hr.isInterior (by simp [hlmem])]
  rfl

variable [DecidableEq N]

lemma Represents.unlink (hr : Represents h l (xs ++ (rs ++ ys))) (hf : first ∈ rs.head?)
    (hl : last ∈ rs.getLast?) :
    ∃ h', h.unlink first last = some h' ∧ Represents h' l (xs ++ ys) ∧
      rs.IsChain h'.Linked ∧ ∀ n, n ∉ l.cells (xs ++ ys) → h' n = h n := by
  have hchain := hr.chain
  have hnodup := hr.nodup
  rw [cells_append_append] at hchain hnodup
  obtain ⟨h', heq, hrest, hrun, hprev, hnext⟩ := Links.unlink_spec hchain hnodup
    (l.back_mem_getLast? xs) hf hl (l.front_mem_head? ys)
  have hback := l.back_mem xs
  have hfront := l.front_mem ys
  have hsub : ((l.head :: xs) ++ (ys ++ [l.tail])).Nodup :=
    hnodup.sublist (Sublist.append (.refl _) (sublist_append_right rs _))
  have hdisj := (nodup_append.mp hsub).2.2
  refine ⟨h', heq, ⟨?_, ?_, ?_, ?_⟩, hrun, ?_⟩
  · rw [hprev _ (hdisj _ (by simp) _ hfront), hr.head_prev]
  · rw [hnext _ (hdisj _ hback _ (by simp)).symm, hr.tail_next]
  · rwa [cells_append]
  · rwa [cells_append]
  · intro n hn
    rw [cells_append, mem_append, not_or] at hn
    exact Links.ext_at (hprev n fun heq => hn.2 (heq ▸ hfront))
      (hnext n fun heq => hn.1 (heq ▸ hback))

lemma Represents.linkBefore (hr : Represents h l (xs ++ ys)) (hrun : rs.IsChain h.Linked)
    (hnodup : (l.cells (xs ++ (rs ++ ys))).Nodup) (hf : first ∈ rs.head?)
    (hl : last ∈ rs.getLast?) :
    ∃ h', h.linkBefore (l.front ys) first last = some h' ∧
      Represents h' l (xs ++ (rs ++ ys)) ∧
      ∀ n, n ∉ l.cells (xs ++ (rs ++ ys)) → h' n = h n := by
  have hchain := hr.chain
  have hnodup' := hnodup
  rw [cells_append] at hchain
  rw [cells_append_append] at hnodup'
  obtain ⟨h', heq, hall, hprev, hnext⟩ := Links.linkBefore_spec hchain hrun hnodup'
    (l.back_mem_getLast? xs) hf hl (l.front_mem_head? ys)
  have hback := l.back_mem xs
  have hfront := l.front_mem ys
  rw [nodup_append, nodup_append] at hnodup'
  obtain ⟨-, ⟨-, -, hrunrest⟩, hdisj⟩ := hnodup'
  refine ⟨h', heq, ⟨?_, ?_, ?_, hnodup⟩, ?_⟩
  · rw [hprev _ (hdisj _ (by simp) _ (mem_append_right _ hfront))
      fun hmem => hdisj _ (by simp) _ (mem_append_left _ hmem) rfl, hr.head_prev]
  · rw [hnext _ (hdisj _ hback _ (by simp)).symm
      fun hmem => hrunrest _ hmem _ (by simp) rfl, hr.tail_next]
  · rwa [cells_append_append]
  · intro n hn
    rw [cells_append_append, mem_append, mem_append, not_or, not_or] at hn
    exact Links.ext_at (hprev n (fun heq => hn.2.2 (heq ▸ hfront)) hn.2.1)
      (hnext n (fun heq => hn.1 (heq ▸ hback)) hn.2.1)

end Runs

section OneList

variable [DecidableEq N] {elem : N}

lemma represents_listInit (h : Links N) (hne : l.head ≠ l.tail) :
    Represents (listInit h l) l [] ∧ ∀ n, n ∉ l.cells [] → listInit h l n = h n := by
  refine ⟨⟨?_, ?_, ?_, ?_⟩, ?_⟩
  · simp [listInit, hne]
  · simp [listInit]
  · simp [cells, listInit, Links.Linked, hne]
  · simpa [cells] using hne
  · intro n hn
    simp only [cells, nil_append, mem_cons, not_mem_nil, or_false, not_or] at hn
    exact Links.ext_at (by simp [listInit, hn.1, hn.2]) (by simp [listInit, hn.1, hn.2])

lemma Represents.listInsert (xs ys : List N) (hr : Represents h l (xs ++ ys))
    (hfresh : elem ∉ l.cells (xs ++ ys)) :
    ∃ h', listInsert h (l.front ys) elem = some h' ∧ Represents h' l (xs ++ elem :: ys) ∧
      ∀ n, n ∉ l.cells (xs ++ elem :: ys) → h' n = h n := by
  have hguard := hr.interior_or_tail (n := l.front ys) (by
    rw [append_assoc]
    exact mem_append_right _ (l.front_mem ys))
  obtain ⟨h', heq, hrep, hframe⟩ := hr.linkBefore (.singleton elem) (hr.nodup_insert hfresh) rfl rfl
  refine ⟨h', ?_, hrep, hframe⟩
  rwa [Lib.listInsert, if_pos hguard]

lemma Represents.listRemove (xs ys : List N) (hr : Represents h l (xs ++ elem :: ys)) :
    ∃ h', listRemove h elem = some (h', some (l.front ys)) ∧ Represents h' l (xs ++ ys) ∧
      ∀ n, n ∉ l.cells (xs ++ ys) → h' n = h n := by
  have hin := hr.isInterior (n := elem) (by simp)
  obtain ⟨h', heq, hrep, -, hframe⟩ := hr.unlink
    (show elem ∈ [elem].head? from rfl) (show elem ∈ [elem].getLast? from rfl)
  have hnot : elem ∉ l.cells (xs ++ ys) := by
    have hnodup := hr.nodup
    rw [cells_append] at hnodup ⊢
    exact (nodup_cons.mp (perm_middle.nodup_iff.mp hnodup)).1
  refine ⟨h', ?_, hrep, hframe⟩
  rw [Lib.listRemove, if_pos hin, heq, map_some, hframe elem hnot, hr.next_elem]

lemma Represents.listEmpty_cons (hr : Represents h l (elem :: ys)) : listEmpty h l = false := by
  have hbegin : Lib.listBegin h l = some elem := hr.listBegin
  have hne : elem ≠ l.tail := by
    rintro rfl
    have hnodup := hr.nodup
    simp [cells] at hnodup
  simp [listEmpty, hbegin, listEnd, hne]

lemma Represents.listEmpty_nil (hr : Represents h l []) : listEmpty h l = true := by
  have hbegin : Lib.listBegin h l = some l.tail := hr.listBegin
  simp [listEmpty, hbegin, listEnd]

lemma Represents.listPopFront (hr : Represents h l (elem :: ys)) :
    ∃ h', listPopFront h l = some (h', elem) ∧ Represents h' l ys ∧
      ∀ n, n ∉ l.cells ys → h' n = h n := by
  have hnext : (h l.head).next = some elem := (hr.linked [] _).1
  obtain ⟨h', heq, hrest⟩ := hr.listRemove [] ys
  refine ⟨h', ?_, hrest⟩
  simp [Lib.listPopFront, listFront, hr.listEmpty_cons, hnext, heq]

lemma Represents.listPopBack (hr : Represents h l (xs ++ [elem])) :
    ∃ h', listPopBack h l = some (h', elem) ∧ Represents h' l xs ∧
      ∀ n, n ∉ l.cells xs → h' n = h n := by
  have hempty : listEmpty h l = false := by
    cases xs with
    | nil => exact hr.listEmpty_cons
    | cons x xs => exact hr.listEmpty_cons
  have hprev : (h l.tail).prev = some elem := by
    have hr' := hr
    rw [← append_nil (xs ++ [elem])] at hr'
    have hlinked := (hr'.linked _ _).2
    rwa [back, getLastD_concat] at hlinked
  obtain ⟨h', heq, hrest⟩ := hr.listRemove xs []
  rw [append_nil] at hrest
  refine ⟨h', ?_, hrest⟩
  simp [Lib.listPopBack, listBack, hempty, hprev, heq]

/-! ### Reversal -/

lemma swapLinks_self (h : Links N) (e : N) : swapLinks h e e = ⟨(h e).next, (h e).prev⟩ := by
  simp [swapLinks]

lemma swapLinks_of_ne (h : Links N) {e n : N} (hne : n ≠ e) : swapLinks h e n = h n := by
  simp [swapLinks, hne]

lemma reverseLoop_spec {tail : N} (h : Links N) (hchain : (xs ++ [tail]).IsChain h.Linked)
    (hnodup : (xs ++ [tail]).Nodup) :
    ∃ h', (∀ fuel, xs.length < fuel →
        reverseLoop fuel h (xs ++ [tail]).head? tail = some h') ∧
      (∀ n ∈ xs, h' n = ⟨(h n).next, (h n).prev⟩) ∧ ∀ n, n ∉ xs → h' n = h n := by
  induction xs generalizing h with
  | nil =>
    refine ⟨h, ?_, by simp, by simp⟩
    intro fuel hfuel
    cases fuel with
    | zero => cases hfuel
    | succ fuel => simp [reverseLoop]
  | cons x xs ih =>
    rw [cons_append, nodup_cons] at hnodup
    have hxtail : x ≠ tail := fun heq => hnodup.1 (by simp [heq])
    have hx : ∀ n ∈ xs ++ [tail], n ≠ x := fun n hn heq => hnodup.1 (heq ▸ hn)
    rw [cons_append, isChain_cons] at hchain
    have hchain' : (xs ++ [tail]).IsChain (swapLinks h x).Linked := by
      refine Links.chain_congr hchain.2 (fun n hn => ?_) fun n hn => ?_
      · rw [swapLinks_of_ne h (hx n (dropLast_subset _ hn))]
      · rw [swapLinks_of_ne h (hx n (mem_of_mem_tail hn))]
    obtain ⟨h', heq, hin, hout⟩ := ih (swapLinks h x) hchain' hnodup.2
    have hnext : (h x).next = (xs ++ [tail]).head? := by
      cases hhead : (xs ++ [tail]).head? with
      | none => simp at hhead
      | some y => exact (hchain.1 y hhead).1
    refine ⟨h', ?_, ?_, ?_⟩
    · intro fuel hfuel
      cases fuel with
      | zero => cases hfuel
      | succ fuel =>
        rw [cons_append, head?_cons, reverseLoop, if_neg hxtail, swapLinks_self, hnext]
        exact heq fuel (Nat.lt_of_succ_lt_succ hfuel)
    · intro n hn
      rcases mem_cons.mp hn with rfl | hn
      · rw [hout n fun hmem => hx n (mem_append_left _ hmem) rfl, swapLinks_self]
      · rw [hin n hn, swapLinks_of_ne h (hx n (mem_append_left _ hn))]
    · intro n hn
      rw [mem_cons, not_or] at hn
      rw [hout n hn.2, swapLinks_of_ne h hn.1]

/-- What `list_reverse` writes: all links are exchanged, those at the ends after the loop. -/
lemma Represents.listReverse_links (hr : Represents h l xs) {first last : N}
    (hf : first ∈ xs.head?) (hl : last ∈ xs.getLast?) :
    ∃ h', (∀ fuel, xs.length < fuel → listReverse fuel h l = some h') ∧
      (∀ n, (h' n).prev = if n = last then some l.head else if n = l.tail then some first
        else if n ∈ xs then (h n).next else (h n).prev) ∧
      ∀ n, (h' n).next = if n = first then some l.tail else if n = l.head then some last
        else if n ∈ xs then (h n).prev else (h n).next := by
  have hnodup := hr.nodup
  have hchain := hr.chain
  rw [cells, nodup_cons] at hnodup
  rw [cells, isChain_cons] at hchain
  have hfmem := mem_of_head? hf
  have hlmem := mem_of_getLast? hl
  have hheadxs : l.head ∉ xs := fun hmem => hnodup.1 (mem_append_left _ hmem)
  have htailxs : l.tail ∉ xs := fun hmem =>
    (nodup_append.mp hnodup.2).2.2 _ hmem _ (by simp) rfl
  have hfront : l.front xs = first := by
    rw [front, headD_eq_head?_getD, mem_def.mp hf]
    rfl
  have hback : l.back xs = last := by
    rw [back, getLastD_eq_getLast?, mem_def.mp hl]
    rfl
  have hhead : (h l.head).next = some first := by rw [← hfront]; exact (hr.linked [] xs).1
  have hfirst : (h first).prev = some l.head := by rw [← hfront]; exact (hr.linked [] xs).2
  have hr' : Represents h l (xs ++ []) := by rwa [append_nil]
  have htail : (h l.tail).prev = some last := by rw [← hback]; exact (hr'.linked xs []).2
  have hlast : (h last).next = some l.tail := by rw [← hback]; exact (hr'.linked xs []).1
  have hempty : listEmpty h l = false := by
    have hne : first ≠ l.tail := fun heq => htailxs (heq ▸ hfmem)
    simp [listEmpty, Lib.listBegin, listEnd, hhead, hne]
  have hbegin : Lib.listBegin h l = (xs ++ [l.tail]).head? := by
    rwa [head?_append, mem_def.mp hf]
  obtain ⟨g, hloop, hin, hout⟩ := reverseLoop_spec h hchain.2 hnodup.2
  have hfh : first ≠ l.head := fun heq => hheadxs (heq ▸ hfmem)
  have hlt : last ≠ l.tail := fun heq => htailxs (heq ▸ hlmem)
  refine ⟨(((g.setNext l.head (some last)).setPrev l.tail (some first)).setPrev last
    (some l.head)).setNext first (some l.tail), ?_, ?_, ?_⟩
  · intro fuel hfuel
    rw [Lib.listReverse, hempty, hbegin, listEnd, hloop fuel hfuel]
    simp [hout _ hheadxs, hout _ htailxs, hin _ hfmem, hin _ hlmem, hhead, hfirst, htail,
      hlast, hfh, hlt]
  · intro n
    simp only [Links.setNext_prev, Links.setPrev_prev]
    by_cases hn : n ∈ xs
    · simp [hin n hn, hn]
    · simp [hout n hn, hn]
  · intro n
    simp only [Links.setNext_next, Links.setPrev_next]
    by_cases hn : n ∈ xs
    · simp [hin n hn, hn]
    · simp [hout n hn, hn]

lemma Represents.listReverse (hr : Represents h l xs) :
    ∃ h', (∀ fuel, xs.length < fuel → listReverse fuel h l = some h') ∧
      Represents h' l xs.reverse ∧ ∀ n, n ∉ l.cells xs.reverse → h' n = h n := by
  cases hxs : xs with
  | nil =>
    rw [hxs] at hr
    refine ⟨h, fun fuel _ => ?_, hr, fun n _ => rfl⟩
    rw [Lib.listReverse, hr.listEmpty_nil, if_pos rfl]
  | cons x xs' =>
    rw [← hxs]
    have hf : x ∈ xs.head? := by rw [hxs]; rfl
    obtain ⟨y, hl⟩ : ∃ y, y ∈ xs.getLast? := by
      rw [hxs, getLast?_cons]
      exact ⟨_, rfl⟩
    obtain ⟨h', heq, hprev, hnext⟩ := hr.listReverse_links hf hl
    have hfmem := mem_of_head? hf
    have hlmem := mem_of_getLast? hl
    have hnodup := hr.nodup
    have hchain := hr.chain
    rw [cells, nodup_cons, nodup_append] at hnodup
    obtain ⟨hheadnot, hxsnodup, -, hxstail⟩ := hnodup
    rw [cells, isChain_cons, isChain_append] at hchain
    have hhead : ∀ n ∈ xs, l.head ≠ n := by
      rintro n hn rfl
      exact hheadnot (mem_append_left _ hn)
    have htail : ∀ n ∈ xs, l.tail ≠ n := fun n hn heq => hxstail n hn _ (by simp) heq.symm
    have hheadtail : l.head ≠ l.tail := fun hht => hheadnot (by simp [hht])
    have hheadxs : l.head ∉ xs := fun hmem => hhead _ hmem rfl
    have htailxs : l.tail ∉ xs := fun hmem => htail _ hmem rfl
    have hmiddle : xs.reverse.IsChain h'.Linked := by
      refine Links.chain_reverse hchain.2.1 (fun n hn => ?_) fun n hn => ?_
      · have hmem := dropLast_subset _ hn
        rw [hprev, if_neg (Links.ne_of_mem_dropLast hxsnodup hl n hn),
          if_neg (htail n hmem).symm, if_pos hmem]
      · have hmem := mem_of_mem_tail hn
        rw [hnext, if_neg (Links.ne_of_mem_tail hxsnodup hf n hn),
          if_neg (hhead n hmem).symm, if_pos hmem]
    have hperm : (l.cells xs.reverse).Perm (l.cells xs) :=
      ((reverse_perm xs).append_right _).cons _
    refine ⟨h', heq, ⟨?_, ?_, ?_, hperm.nodup_iff.mpr hr.nodup⟩, ?_⟩
    · rw [hprev, if_neg (hhead y hlmem), if_neg hheadtail, if_neg hheadxs, hr.head_prev]
    · rw [hnext, if_neg (htail x hfmem), if_neg hheadtail.symm, if_neg htailxs, hr.tail_next]
    · rw [cells, isChain_cons, isChain_append]
      refine ⟨?_, hmiddle, .singleton _, ?_⟩
      · intro b hb
        rw [head?_append, head?_reverse, mem_def.mp hl] at hb
        cases hb
        exact ⟨by rw [hnext, if_neg (hhead x hfmem), if_pos rfl], by rw [hprev, if_pos rfl]⟩
      · intro a ha b hb
        rw [getLast?_reverse] at ha
        cases mem_unique ha hf
        cases hb
        exact ⟨by rw [hnext, if_pos rfl], by rw [hprev, if_neg (htail y hlmem), if_pos rfl]⟩
    · intro n hn
      rw [hperm.mem_iff] at hn
      simp only [cells, mem_cons, mem_append, not_mem_nil, or_false, not_or] at hn
      obtain ⟨hnh, hnx, hnt⟩ := hn
      have hny : n ≠ y := fun he => hnx (he ▸ hlmem)
      have hnx' : n ≠ x := fun he => hnx (he ▸ hfmem)
      refine Links.ext_at ?_ ?_
      · rw [hprev, if_neg hny, if_neg hnt, if_neg hnx]
      · rw [hnext, if_neg hnx', if_neg hnh, if_neg hnx]

end OneList

end ListHdr

end Pintos.Lib
