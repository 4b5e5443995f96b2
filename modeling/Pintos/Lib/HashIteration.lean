import Pintos.Lib.HashRefinement
import Mathlib.Data.List.Flatten

/-!
# Iteration over hash tables (lib/kernel/hash.c)

`hash_first` and `hash_next` walk over the buckets with a pointer that starts at the head of
the first list; `hash_apply` walks over them with two loops. Both meet every element once, in
the order of the buckets and of the lists in them.
-/

namespace Pintos.Lib

open Foundation List Option

variable {α : Type*} [DecidableEq α]

/-- `struct hash_iterator`, with `bucket` as an index into the buckets of `hash`. -/
structure HashIterator (α : Type*) where
  hash : HashTable
  bucket : Nat
  elem : Option (HashNode α)

def hashFirst (h : HashTable) : HashIterator α :=
  ⟨h, 0, some (bucketAt h.buckets 0).head⟩

/-- The loop of `hash_next` that leaves the ends of buckets behind. -/
def skipLoop (heap : HashHeap α) (h : HashTable) :
    Nat → Nat → Option (HashNode α) → Option (HashIterator α)
  | 0, _, _ => none
  | fuel + 1, bucket, elem =>
      if elem = some (listEnd (bucketAt h.buckets bucket)) then
        if bucket + 1 ≥ h.bucketCnt then some ⟨h, bucket + 1, none⟩
        else
          skipLoop heap h fuel (bucket + 1) (listBegin heap (bucketAt h.buckets (bucket + 1)))
      else some ⟨h, bucket, elem⟩

def hashNext (heap : HashHeap α) (fuel : Nat) (i : HashIterator α) : Option (HashIterator α) :=
  i.elem.bind fun elem =>
    (listNext heap elem).bind fun next => skipLoop heap i.hash fuel i.bucket next

def hashCur (i : HashIterator α) : Option (HashNode α) := i.elem

/-- The loop `while (hash_next (&i))` of a caller, with the elements that `hash_cur` gives it. -/
def iterationLoop (heap : HashHeap α) (fuel : Nat) : Nat → HashIterator α → Option (List α)
  | 0, _ => none
  | rounds + 1, i =>
      (hashNext heap fuel i).bind fun i =>
        match hashCur i with
        | none => some []
        | some (.elem e) => (iterationLoop heap fuel rounds i).map (e :: ·)
        | some _ => none

/-- The inner loop of `hash_apply`, with the elements visited. `action` may write to memory. -/
def applyLoop (action : α → HashHeap α → HashHeap α) (bucket : ListHdr (HashNode α)) :
    Nat → HashHeap α × List α → Option (HashNode α) → Option (HashHeap α × List α)
  | 0, _, _ => none
  | _ + 1, _, none => none
  | fuel + 1, s, some elem =>
      if elem = listEnd bucket then some s
      else
        (listNext s.1 elem).bind fun next =>
          match elem with
          | .elem e => applyLoop action bucket fuel (action e s.1, s.2 ++ [e]) next
          | _ => none

def applyBucket (action : α → HashHeap α → HashHeap α) (fuel array : Nat)
    (s : HashHeap α × List α) (i : Nat) : Option (HashHeap α × List α) :=
  applyLoop action (bucketAt array i) fuel s (listBegin s.1 (bucketAt array i))

def hashApply (action : α → HashHeap α → HashHeap α) (fuel : Nat) (s : HashState α) :
    Option (HashHeap α × List α) :=
  (List.range s.2.bucketCnt).foldlM (applyBucket action fuel s.2.buckets) (s.1, [])

omit [DecidableEq α] in
lemma listNext_back {N : Type*} {heap : Links N} {l : ListHdr N} (xs ys : List N)
    (hr : l.Represents heap (xs ++ ys)) : listNext heap (l.back xs) = some (some (l.front ys)) := by
  have hnext := (hr.linked xs ys).1
  have hok : (isHead heap (l.back xs) || isInterior heap (l.back xs)) = true := by
    cases hprev : (heap (l.back xs)).prev <;> simp [isHead, isInterior, hprev, hnext]
  rw [listNext, if_pos hok, hnext]

/-- The elements of the buckets from the `i`th on. -/
def elemsFrom (b : Buckets α) (h : HashTable) (i : Nat) : List α :=
  (List.range' i (h.bucketCnt - i)).flatMap fun j => b (h.buckets, j)

omit [DecidableEq α] in
variable {b : Buckets α} {h : HashTable} {i : Nat}

lemma elemsFrom_eq (hi : i < h.bucketCnt) :
    elemsFrom b h i = b (h.buckets, i) ++ elemsFrom b h (i + 1) := by
  have hcnt : h.bucketCnt - i = h.bucketCnt - (i + 1) + 1 := by omega
  rw [elemsFrom, hcnt, range'_succ, flatMap_cons]
  rfl

omit [DecidableEq α] in
lemma elemsFrom_end (hi : h.bucketCnt ≤ i) : elemsFrom b h i = [] := by
  rw [elemsFrom, Nat.sub_eq_zero_of_le hi]
  rfl

namespace HashIterator

/-- The iterator stands before `rest`: on the head or the last element passed. -/
structure At (b : Buckets α) (h : HashTable) (i : HashIterator α) (rest : List α) : Prop where
  hash : i.hash = h
  bucket : i.bucket < h.bucketCnt
  split : ∃ xs ys, b (h.buckets, i.bucket) = xs ++ ys ∧
    i.elem = some ((bucketAt h.buckets i.bucket).back (xs.map .elem)) ∧
    rest = ys ++ elemsFrom b h (i.bucket + 1)

/-- The iterator has been advanced to the first of the elements `rest`, or to the end. -/
def Advanced (b : Buckets α) (h : HashTable) (i : HashIterator α) : List α → Prop
  | [] => i.elem = none
  | e :: rest => i.elem = some (.elem e) ∧ i.At b h rest

end HashIterator

section Iterator

variable {heap : HashHeap α} {h : HashTable} {b : Buckets α} {ys : List α} {fuel : Nat}
  {i : HashIterator α} {heap' : HashHeap α}

lemma skipLoop_spec (hb : Holds heap (tableLive h) b) {i : Nat} (hi : i < h.bucketCnt)
    (xs : List α) (hsplit : b (h.buckets, i) = xs ++ ys) (hfuel : h.bucketCnt - i ≤ fuel) :
    ∃ it, skipLoop heap h fuel i (some ((bucketAt h.buckets i).front (ys.map .elem))) = some it ∧
      it.Advanced b h (ys ++ elemsFrom b h (i + 1)) := by
  induction fuel generalizing i xs ys with
  | zero => omega
  | succ fuel ih =>
    cases ys with
    | cons y ys =>
      refine ⟨⟨h, i, some (.elem y)⟩, ?_, rfl, rfl, hi, xs ++ [y], ys, ?_, ?_, rfl⟩
      · rw [skipLoop, Holds.front_map_cons, if_neg (by simp [listEnd, bucketAt])]
      · rw [hsplit, append_assoc]
        rfl
      · rw [map_append]
        simp [ListHdr.back, getLastD_eq_getLast?]
    | nil =>
      have hend : some ((bucketAt h.buckets i).front (([] : List α).map .elem)) =
          some (listEnd (bucketAt h.buckets i)) := rfl
      rw [skipLoop, if_pos hend]
      by_cases hlast : i + 1 ≥ h.bucketCnt
      · rw [if_pos hlast, elemsFrom_end hlast]
        exact ⟨_, rfl, rfl⟩
      · have hlive : (h.buckets, i + 1) ∈ tableLive h := ⟨rfl, by omega⟩
        have hbegin := (hb.represents hlive).listBegin
        rw [if_neg hlast, hbegin, nil_append, elemsFrom_eq (by omega)]
        exact ih (by omega) [] rfl (by omega)

lemma hashNext_spec (hb : Holds heap (tableLive h) b) {rest : List α} (hi : i.At b h rest)
    (hfuel : h.bucketCnt ≤ fuel) : ∃ it, hashNext heap fuel i = some it ∧ it.Advanced b h rest := by
  obtain ⟨xs, ys, hsplit, helem, rfl⟩ := hi.split
  have hr := hb.represents (p := (h.buckets, i.bucket)) ⟨rfl, hi.bucket⟩
  rw [hsplit, map_append] at hr
  obtain ⟨it, hskip, hadv⟩ := skipLoop_spec hb hi.bucket xs hsplit
    (hfuel.trans' (Nat.sub_le _ i.bucket))
  refine ⟨it, ?_, hadv⟩
  rwa [hashNext, helem, bind_some, listNext_back _ _ hr, bind_some, hi.hash]

lemma iterationLoop_spec (hb : Holds heap (tableLive h) b) {rest : List α} (hi : i.At b h rest)
    {rounds : Nat} (hfuel : h.bucketCnt ≤ fuel) (hrounds : rest.length < rounds) :
    iterationLoop heap fuel rounds i = some rest := by
  induction rest generalizing i rounds with
  | nil =>
    cases rounds with
    | zero => omega
    | succ rounds =>
      obtain ⟨it, hnext, hend⟩ := hashNext_spec hb hi hfuel
      have hcur : hashCur it = none := hend
      simp [iterationLoop, hnext, hcur]
  | cons e rest ih =>
    cases rounds with
    | zero => omega
    | succ rounds =>
      obtain ⟨it, hnext, helem, hat⟩ := hashNext_spec hb hi hfuel
      have hcur : hashCur it = some (.elem e) := helem
      have hrest := ih hat (Nat.lt_of_succ_lt_succ hrounds)
      simp [iterationLoop, hnext, hcur, hrest]

omit [DecidableEq α] in
lemma hashFirst_at (hcnt : 0 < h.bucketCnt) : (hashFirst h).At b h (elemsFrom b h 0) :=
  ⟨rfl, hcnt, [], b (h.buckets, 0), rfl, rfl, elemsFrom_eq hcnt⟩

/-- The action leaves the links of a table alone, except for those in the element that it is
called for. -/
def Local (action : α → HashHeap α → HashHeap α) : Prop :=
  ∀ e heap n, n ≠ .elem e → action e heap n = heap n

omit [DecidableEq α] in
lemma listNext_congr {N : Type*} {heap heap' : Links N} {n : N} (h : heap' n = heap n) :
    listNext heap' n = listNext heap n := by
  rw [listNext, listNext, isHead, isHead, isInterior, isInterior, h]

variable {action : α → HashHeap α → HashHeap α}

lemma applyLoop_spec (hb : Holds heap (tableLive h) b) (haction : Local action) {p : Nat × Nat}
    (hp : p ∈ tableLive h) (xs : List α) (hsplit : b p = xs ++ ys)
    (hsame : ∀ e ∈ ys, heap' (.elem e) = heap (.elem e)) (calls : List α)
    (hfuel : ys.length < fuel) :
    ∃ heap'', applyLoop action (bucketAt p.1 p.2) fuel (heap', calls)
        (some ((bucketAt p.1 p.2).front (ys.map .elem))) = some (heap'', calls ++ ys) ∧
      ∀ n, (∀ e ∈ ys, n ≠ .elem e) → heap'' n = heap' n := by
  induction ys generalizing xs heap' calls fuel with
  | nil =>
    cases fuel with
    | zero => omega
    | succ fuel => exact ⟨heap', by simp [applyLoop, ListHdr.front, listEnd], fun _ _ => rfl⟩
  | cons y ys ih =>
    cases fuel with
    | zero => omega
    | succ fuel =>
      have hr := hb.represents hp
      rw [hsplit, map_append, map_cons] at hr
      have hnext : listNext heap' (.elem y) =
          some (some ((bucketAt p.1 p.2).front (ys.map .elem))) := by
        rw [listNext_congr (hsame y mem_cons_self), hr.listNext]
      have hnodup := hb.nodup hp
      rw [hsplit, nodup_append, nodup_cons] at hnodup
      have hsame' : ∀ e ∈ ys, action y heap' (.elem e) = heap (.elem e) := by
        intro e he
        rw [haction y heap' (.elem e) (by rintro ⟨⟩; exact hnodup.2.1.1 he)]
        exact hsame e (mem_cons_of_mem y he)
      obtain ⟨heap'', hloop, hframe⟩ := ih (xs ++ [y])
        (by rw [hsplit, append_assoc]; rfl) hsame' (calls ++ [y]) (Nat.lt_of_succ_lt_succ hfuel)
      refine ⟨heap'', ?_, fun n hn => ?_⟩
      · rw [Holds.front_map_cons, applyLoop, if_neg (by simp [listEnd, bucketAt]), hnext, bind_some]
        rwa [append_assoc] at hloop
      · rw [hframe n fun e he => hn e (mem_cons_of_mem y he)]
        exact haction y heap' n (hn y mem_cons_self)

lemma applyBuckets_spec (hb : Holds heap (tableLive h) b) (haction : Local action)
    {js : List Nat} (hjs : ∀ j ∈ js, j < h.bucketCnt) (hnodup : js.Nodup)
    (hheads : ∀ j, heap' (.head h.buckets j) = heap (.head h.buckets j))
    (hsame : ∀ j ∈ js, ∀ e ∈ b (h.buckets, j), heap' (.elem e) = heap (.elem e)) (calls : List α)
    (hfuel : ∀ j ∈ js, (b (h.buckets, j)).length < fuel) :
    ∃ heap'', js.foldlM (applyBucket action fuel h.buckets) (heap', calls) =
      some (heap'', calls ++ js.flatMap fun j => b (h.buckets, j)) := by
  induction js generalizing heap' calls with
  | nil => exact ⟨heap', by simp⟩
  | cons j js ih =>
    have hlive : (h.buckets, j) ∈ tableLive h := ⟨rfl, hjs j mem_cons_self⟩
    have hbegin : listBegin heap' (bucketAt h.buckets j) =
        some ((bucketAt h.buckets j).front ((b (h.buckets, j)).map .elem)) := by
      rw [← (hb.represents hlive).listBegin]
      simp only [listBegin, bucketAt, hheads]
    obtain ⟨heap₁, hloop, hframe⟩ := applyLoop_spec hb haction hlive [] rfl
      (hsame j mem_cons_self) calls (hfuel j mem_cons_self)
    rw [nodup_cons] at hnodup
    have hheads₁ : ∀ k, heap₁ (.head h.buckets k) = heap (.head h.buckets k) := by
      intro k
      rw [hframe _ (by simp), hheads]
    have hsame₁ : ∀ k ∈ js, ∀ e ∈ b (h.buckets, k), heap₁ (.elem e) = heap (.elem e) := by
      intro k hk e he
      have hlive' : (h.buckets, k) ∈ tableLive h := ⟨rfl, hjs k (mem_cons_of_mem j hk)⟩
      rw [hframe (.elem e), hsame k (mem_cons_of_mem j hk) e he]
      rintro e' he' ⟨⟩
      have heq := hb.eq_of_mem hlive hlive' he' he
      cases heq
      exact hnodup.1 hk
    obtain ⟨heap'', hrest⟩ := ih (fun k hk => hjs k (mem_cons_of_mem j hk)) hnodup.2
      hheads₁ hsame₁ (calls ++ b (h.buckets, j)) (fun k hk => hfuel k (mem_cons_of_mem j hk))
    refine ⟨heap'', ?_⟩
    rw [foldlM_cons, applyBucket, hbegin]
    rw [append_assoc] at hrest
    simpa [hloop] using hrest

end Iterator

section Complete

variable {hash : α → Nat} {less : α → α → Bool} {s : HashState α} {S : KeySet less}
  {b : Buckets α}

omit [DecidableEq α] in
lemma TableHolds.mem_elemsFrom (ht : TableHolds hash s S b) (e : α) :
    e ∈ elemsFrom b s.2 0 ↔ e ∈ S.elems := by
  rw [elemsFrom, Nat.sub_zero, ← range_eq_range', mem_flatMap]
  constructor
  · rintro ⟨i, hi, he⟩
    exact ((ht.mem i (mem_range.mp hi) e).mp he).1
  · intro he
    exact ⟨_, mem_range.mpr (ht.idx_lt e), ht.mem_bucket.mpr he⟩

omit [DecidableEq α] in
lemma TableHolds.nodup_elemsFrom (ht : TableHolds hash s S b) : (elemsFrom b s.2 0).Nodup := by
  have hlive : ∀ i ∈ range s.2.bucketCnt, (s.2.buckets, i) ∈ tableLive s.2 :=
    fun i hi => ⟨rfl, mem_range.mp hi⟩
  rw [elemsFrom, Nat.sub_zero, ← range_eq_range', nodup_flatMap]
  refine ⟨fun i hi => ht.holds.nodup (hlive i hi), ?_⟩
  refine nodup_range.pairwise_of_forall_ne fun i hi j hj hij e hei hej => ?_
  have heq := ht.holds.eq_of_mem (hlive i hi) (hlive j hj) hei hej
  cases heq
  exact hij rfl

lemma TableHolds.iteration (ht : TableHolds hash s S b) :
    ∃ rounds, ∀ fuel, rounds ≤ fuel →
      iterationLoop s.1 fuel fuel (hashFirst s.2) = some (elemsFrom b s.2 0) := by
  obtain ⟨m, -, hpow⟩ := ht.power
  have hcnt : 0 < s.2.bucketCnt := hpow ▸ Nat.two_pow_pos m
  refine ⟨s.2.bucketCnt + (elemsFrom b s.2 0).length + 1, fun fuel hfuel => ?_⟩
  exact iterationLoop_spec ht.holds (hashFirst_at hcnt) (by omega) (by omega)

lemma TableHolds.apply (ht : TableHolds hash s S b) {action : α → HashHeap α → HashHeap α}
    (haction : Local action) :
    ∃ rounds, ∀ fuel, rounds ≤ fuel →
      ∃ heap, hashApply action fuel s = some (heap, elemsFrom b s.2 0) := by
  refine ⟨(elemsFrom b s.2 0).length + 1, fun fuel hfuel => ?_⟩
  have hlen : ∀ j ∈ range s.2.bucketCnt, (b (s.2.buckets, j)).length < fuel := by
    intro j hj
    have hsub : (b (s.2.buckets, j)).Sublist (elemsFrom b s.2 0) := by
      rw [elemsFrom, Nat.sub_zero, ← range_eq_range', flatMap_def]
      exact sublist_flatten_of_mem (mem_map_of_mem hj)
    have := hsub.length_le
    omega
  obtain ⟨heap, happly⟩ := applyBuckets_spec ht.holds haction
    (fun j hj => mem_range.mp hj) nodup_range (fun _ => rfl) (fun _ _ _ _ => rfl) [] hlen
  refine ⟨heap, ?_⟩
  rw [hashApply, happly, nil_append, elemsFrom, Nat.sub_zero, range_eq_range']

end Complete

/-- On every table that calls from `hash_init` on lead to, the loop over `hash_next` and
`hash_apply` visit every element once. -/
theorem hashIteration_complete (hash : α → Nat) (less : α → α → Bool)
    (hless : IsStrictWeakOrder α (less · · = true))
    (hhash : ∀ a b, SameKey less a b → hash a = hash b) (heap : HashHeap α) (array : Nat)
    (calls : List (HashCall α × Option Nat)) :
    ∃ s₀ s outs xs, (∀ fuel, hashInit fuel heap (some array) = some (some s₀)) ∧
      (∃ rounds, ∀ fuel, rounds ≤ fuel → hashRun hash less fuel s₀ calls = some (s, outs)) ∧
      xs.Nodup ∧
      (∀ e, e ∈ xs ↔ e ∈ (setRun (KeySet.empty less) (calls.map Prod.fst)).1.elems) ∧
      (∃ rounds, ∀ fuel, rounds ≤ fuel →
        iterationLoop s.1 fuel fuel (hashFirst s.2) = some xs) ∧
      ∀ action, Local action → ∃ rounds, ∀ fuel, rounds ≤ fuel →
        ∃ heap', hashApply action fuel s = some (heap', xs) := by
  obtain ⟨s₀, b₀, hinit, ht₀⟩ := hashInit_holds hash less heap array
  obtain ⟨s, b, outs, hrun, ht, -⟩ := ht₀.run ⟨hless, hhash⟩ calls
  exact ⟨s₀, s, outs, elemsFrom b s.2 0, hinit, hrun, ht.nodup_elemsFrom, ht.mem_elemsFrom,
    ht.iteration, fun action haction => ht.apply haction⟩

/-- A table that two elements of different buckets have been put into. -/
theorem hashIteration_complete_pairs :
    ∃ s₀ s outs xs, (∀ fuel, hashInit fuel (fun _ => ⟨none, none⟩) (some 0) = some (some s₀)) ∧
      (∃ rounds, ∀ fuel, rounds ≤ fuel → hashRun Prod.fst pairLess fuel s₀
        [(.insert (1, 0), none), (.insert (3, 1), none)] = some (s, outs)) ∧
      xs.Nodup ∧ (1, 0) ∈ xs ∧ (3, 1) ∈ xs ∧
      ∃ rounds, ∀ fuel, rounds ≤ fuel →
        iterationLoop s.1 fuel fuel (hashFirst s.2) = some xs := by
  obtain ⟨s₀, s, outs, xs, hinit, hrun, hnodup, hmem, hiter, -⟩ :=
    hashIteration_complete Prod.fst pairLess pairLess_order
      (by simp only [SameKey, pairLess, decide_eq_false_iff_not]; omega)
      (fun _ => ⟨none, none⟩) 0 [(.insert (1, 0), none), (.insert (3, 1), none)]
  exact ⟨s₀, s, outs, xs, hinit, hrun, hnodup, (hmem _).mpr (by decide), (hmem _).mpr (by decide),
    hiter⟩

end Pintos.Lib
