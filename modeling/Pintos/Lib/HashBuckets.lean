import Pintos.Lib.Hash
import Pintos.Lib.ListCollection
import Mathlib.Data.Set.Insert

/-!
# The buckets of a hash table

The loops of hash.c over the lists of the buckets. A bucket is named by its array and its
index; while a table is rehashed the buckets of two arrays are in use. `Holds` says which
elements each bucket in use has, in the order of its list.
-/

namespace Pintos.Lib

open Foundation Function List Nat ListHdr

variable {α : Type*} [DecidableEq α]

abbrev Buckets (α : Type*) := Nat × Nat → List α

/-- The first `cnt` buckets of an array without elements. -/
def emptied (b : Buckets α) (array cnt : Nat) : Buckets α := fun q =>
  if q.1 = array ∧ q.2 < cnt then [] else b q

def bucketSeqs (live : Set (Nat × Nat)) (b : Buckets α) : Collection (Nat × Nat) (HashNode α) where
  live := live
  seq := fun p => (b p).map .elem

def bucketLists (p : Nat × Nat) : ListHdr (HashNode α) := bucketAt p.1 p.2

/-- The lists of the buckets in `live` are well formed and have the elements `b`. -/
def Holds (heap : HashHeap α) (live : Set (Nat × Nat)) (b : Buckets α) : Prop :=
  (bucketSeqs live b).WellFormed bucketLists heap

namespace Holds

variable {heap : HashHeap α} {live : Set (Nat × Nat)} {b : Buckets α} {p : Nat × Nat}

omit [DecidableEq α]

lemma represents (hb : Holds heap live b) (hp : p ∈ live) :
    (bucketAt p.1 p.2).Represents heap ((b p).map .elem) :=
  Collection.WellFormed.represents hb p hp

lemma mono (hb : Holds heap live b) {live' : Set (Nat × Nat)} {b' : Buckets α}
    (hsub : ∀ q ∈ live', q ∈ live ∧ b' q = b q) : Holds heap live' b' := by
  refine Collection.WellFormed.mono hb fun q hq => ⟨(hsub q hq).1, ?_⟩
  change (b' q).map _ = (b q).map _
  rw [(hsub q hq).2]

lemma nodup (hb : Holds heap live b) (hp : p ∈ live) : (b p).Nodup := by
  have hnodup := (hb.represents hp).nodup
  rw [cells, nodup_cons, nodup_append] at hnodup
  exact hnodup.2.1.of_map _

variable {e : α} {heap' : HashHeap α} {xs ys : List α} {fuel : Nat}

lemma eq_of_mem (hb : Holds heap live b) {q : Nat × Nat} (hp : p ∈ live) (hq : q ∈ live)
    (hep : e ∈ b p) (heq : e ∈ b q) : p = q := by
  by_contra hne
  have hdisj := Collection.WellFormed.disjoint hb p hp q hq hne
  refine hdisj (a := .elem e) ?_ ?_
  · simpa [Collection.nodes, cells, bucketLists, bucketAt, bucketSeqs] using hep
  · simpa [Collection.nodes, cells, bucketLists, bucketAt, bucketSeqs] using heq

lemma fresh (he : ∀ q ∈ live, e ∉ b q) : (bucketSeqs live b).Fresh bucketLists (.elem e) := by
  intro q hq
  simpa [Collection.nodes, cells, bucketLists, bucketAt, bucketSeqs] using he q hq

lemma of_sets
    (hsets : Collection.Sets bucketLists (bucketSeqs live b) heap p (xs.map .elem) heap') :
    Holds heap' (insert p live) (update b p xs) := by
  refine hsets.1.mono fun q hq => ⟨hq, ?_⟩
  by_cases hqp : q = p
  · rw [hqp, Collection.set_seq_self]
    simp [bucketSeqs]
  · rw [Collection.set_seq_of_ne _ hqp]
    simp [bucketSeqs, hqp]

lemma of_sets_live (hp : p ∈ live)
    (hsets : Collection.Sets bucketLists (bucketSeqs live b) heap p (xs.map .elem) heap') :
    Holds heap' live (update b p xs) := by
  have hb := of_sets hsets
  rwa [Set.insert_eq_of_mem hp] at hb

lemma front_map_cons (a i : Nat) (e : α) (l : List α) :
    (bucketAt a i).front ((e :: l).map HashNode.elem) = .elem e := rfl

variable [DecidableEq α]

lemma listInit (hb : Holds heap live b) (p : Nat × Nat) :
    Holds (listInit heap (bucketAt p.1 p.2)) (insert p live) (update b p []) := by
  refine of_sets (Collection.WellFormed.listInit hb (i := p) (by simp [bucketLists, bucketAt]) ?_)
  intro q hq hqp n hn hnq
  obtain ⟨qa, qi⟩ := q
  obtain ⟨pa, pi⟩ := p
  simp only [cells, bucketLists, bucketAt, nil_append, mem_cons, not_mem_nil, or_false] at hn
  simp only [Collection.nodes, cells, bucketLists, bucketAt, bucketSeqs, mem_cons,
    mem_append, mem_map, not_mem_nil, or_false] at hnq
  rcases hn with rfl | rfl <;> simp_all

lemma listPushFront (hb : Holds heap live b) (hp : p ∈ live) (he : ∀ q ∈ live, e ∉ b q) :
    ∃ heap', listPushFront heap (bucketAt p.1 p.2) (.elem e) = some heap' ∧
      Holds heap' live (update b p (e :: b p)) := by
  obtain ⟨heap', heq, hsets⟩ := Collection.WellFormed.listPushFront hb hp (fresh he)
  exact ⟨heap', heq, of_sets_live hp hsets⟩

lemma listRemove (hb : Holds heap live b) (hp : p ∈ live) (hsplit : b p = xs ++ e :: ys) :
    ∃ heap' next, listRemove heap (.elem e) = some (heap', next) ∧
      Holds heap' live (update b p (xs ++ ys)) := by
  have hseq : (bucketSeqs live b).seq p = xs.map .elem ++ .elem e :: ys.map .elem := by
    change (b p).map _ = _
    rw [hsplit, map_append, map_cons]
  obtain ⟨heap', heq, hsets⟩ := Collection.WellFormed.listRemove hb hp hseq
  rw [← map_append] at hsets
  exact ⟨heap', _, heq, of_sets_live hp hsets⟩

lemma findElemLoop_spec (less : α → α → Bool) (hb : Holds heap live b) (hp : p ∈ live) (e : α)
    (xs : List α) (hsplit : b p = xs ++ ys) (hfuel : ys.length < fuel) :
    findElemLoop less heap (bucketAt p.1 p.2) e fuel
        (some ((bucketAt p.1 p.2).front (ys.map .elem))) =
      some (ys.find? fun o => !less o e && !less e o) := by
  induction ys generalizing xs fuel with
  | nil =>
    cases fuel with
    | zero => cases hfuel
    | succ fuel => simp [findElemLoop, front, listEnd]
  | cons y ys ih =>
    cases fuel with
    | zero => cases hfuel
    | succ fuel =>
      have hr := hb.represents hp
      rw [hsplit, map_append, map_cons] at hr
      have hrest := ih (xs ++ [y]) (by rw [hsplit, append_assoc]; rfl) (lt_of_succ_lt_succ hfuel)
      rw [front_map_cons, findElemLoop, if_neg (by simp [listEnd, bucketAt]), find?_cons]
      cases hkey : (!less y e && !less e y) with
      | true => simp
      | false => simp [hr.listNext, hrest]

lemma findElem (less : α → α → Bool) (hb : Holds heap live b) (hp : p ∈ live) (e : α)
    (hfuel : (b p).length < fuel) :
    findElem less fuel heap (bucketAt p.1 p.2) e =
      some ((b p).find? fun o => !less o e && !less e o) := by
  rw [Lib.findElem, (hb.represents hp).listBegin]
  exact findElemLoop_spec less hb hp e [] rfl hfuel

lemma initBuckets (hb : Holds heap live b) (array cnt : Nat) :
    Holds (initBuckets heap array cnt) (live ∪ {q | q.1 = array ∧ q.2 < cnt})
      (emptied b array cnt) := by
  induction cnt with
  | zero =>
    refine hb.mono fun q hq => ⟨hq.resolve_right fun h => not_lt_zero _ h.2, ?_⟩
    rw [emptied, if_neg fun h => not_lt_zero _ h.2]
  | succ cnt ih =>
    rw [Lib.initBuckets, range_succ, foldl_append]
    refine (ih.listInit (array, cnt)).mono fun q hq => ⟨?_, ?_⟩
    · rcases hq with hq | ⟨harray, hlt⟩
      · exact .inr (.inl hq)
      · rcases Nat.lt_succ_iff_lt_or_eq.mp hlt with hlt | heq
        · exact .inr (.inr ⟨harray, hlt⟩)
        · exact .inl (Prod.ext harray heq)
    · by_cases hqc : q = (array, cnt)
      · simp [emptied, hqc]
      · have hiff : (q.1 = array ∧ q.2 < cnt + 1) ↔ (q.1 = array ∧ q.2 < cnt) := by
          rw [Prod.ext_iff] at hqc
          omega
        simp only [update_of_ne hqc, emptied, hiff]

section Move

variable {hash : α → Nat} {h : HashTable}

/-- The inner loop empties the old bucket and puts each of its elements in its new one. -/
lemma moveLoop_spec (hb : Holds heap live b) (hp : p ∈ live) (hne : p.1 ≠ h.buckets)
    (hnew : ∀ e, (h.buckets, bucketIdx hash h e) ∈ live) :
    ∃ heap' b', (∀ fuel, (b p).length < fuel →
        moveLoop hash h (bucketAt p.1 p.2) fuel heap
          (some ((bucketAt p.1 p.2).front ((b p).map .elem))) = some heap') ∧
      Holds heap' live b' ∧ (∀ q, q ≠ p → q.1 ≠ h.buckets → b' q = b q) ∧
      ∀ k e, e ∈ b' (h.buckets, k) ↔ e ∈ b (h.buckets, k) ∨ e ∈ b p ∧ bucketIdx hash h e = k := by
  induction hxs : b p generalizing heap b with
  | nil =>
    refine ⟨heap, b, ?_, hb, fun q _ _ => rfl, by simp⟩
    intro fuel hfuel
    cases fuel with
    | zero => cases hfuel
    | succ fuel => simp [moveLoop, front, listEnd]
  | cons e ys ih =>
    have hr : (bucketAt p.1 p.2).Represents heap ([] ++ .elem e :: ys.map .elem) := by
      have hr := hb.represents hp
      rwa [hxs] at hr
    obtain ⟨heap₁, next, hremove, hb₁⟩ := hb.listRemove hp (show b p = [] ++ e :: ys from hxs)
    have hfresh : ∀ q ∈ live, e ∉ update b p ys q := by
      intro q hq heq
      by_cases hqp : q = p
      · rw [hqp, update_self] at heq
        have hnodup := hb.nodup hp
        rw [hxs, nodup_cons] at hnodup
        exact hnodup.1 heq
      · rw [update_of_ne hqp] at heq
        exact hqp (hb.eq_of_mem hq hp heq (by rw [hxs]; exact mem_cons_self))
    obtain ⟨heap₂, hpush, hb₂⟩ := hb₁.listPushFront (hnew e) hfresh
    have hqp : ∀ k, (h.buckets, k) ≠ p := fun k heq => hne (by rw [← heq])
    have hp₂ : update (update b p ys) (h.buckets, bucketIdx hash h e)
        (e :: b (h.buckets, bucketIdx hash h e)) p = ys := by
      rw [update_of_ne (hqp _).symm, update_self]
    rw [nil_append, update_of_ne (hqp _)] at hb₂
    obtain ⟨heap', b', heq, hb', hother, hmem⟩ := ih hb₂ hp₂
    refine ⟨heap', b', ?_, hb', ?_, ?_⟩
    · intro fuel hfuel
      cases fuel with
      | zero => cases hfuel
      | succ fuel =>
        have hnext := heq fuel (lt_of_succ_lt_succ hfuel)
        rw [front_map_cons, moveLoop, if_neg (by simp [listEnd, bucketAt])]
        simp [hr.listNext, hremove, findBucket, hpush, hnext]
    · intro q hq hqb
      rw [hother q hq hqb, update_of_ne fun heq => hqb (by rw [heq]), update_of_ne hq]
    · intro k o
      rw [hmem, mem_cons]
      by_cases hk : bucketIdx hash h e = k
      · rw [hk, update_self, mem_cons]
        by_cases hoe : o = e
        · simp [hoe, hk]
        · simp [hoe]
      · rw [update_of_ne fun heq => hk (Prod.ext_iff.mp heq).2.symm, update_of_ne (hqp k)]
        by_cases hoe : o = e
        · simp [hoe, hk]
        · simp [hoe]

lemma moveBuckets (hb : Holds heap live b) {old : HashTable} (hne : old.buckets ≠ h.buckets)
    (hnew : ∀ e, (h.buckets, bucketIdx hash h e) ∈ live) (m : Nat)
    (hold : ∀ i < m, (old.buckets, i) ∈ live) :
    ∃ heap' b', (∃ rounds, ∀ fuel, rounds ≤ fuel →
        (range m).foldlM (moveBucket hash fuel old h) heap = some heap') ∧
      Holds heap' live b' ∧ (∀ i, m ≤ i → b' (old.buckets, i) = b (old.buckets, i)) ∧
      ∀ k e, e ∈ b' (h.buckets, k) ↔ e ∈ b (h.buckets, k) ∨
        (∃ i < m, e ∈ b (old.buckets, i)) ∧ bucketIdx hash h e = k := by
  induction m with
  | zero => exact ⟨heap, b, ⟨0, fun fuel _ => rfl⟩, hb, fun i _ => rfl, by simp⟩
  | succ m ih =>
    obtain ⟨heap₁, b₁, ⟨rounds, hrun₁⟩, hb₁, hother₁, hmem₁⟩ :=
      ih fun i hi => hold i (Nat.lt_succ_of_lt hi)
    have hm := hold m (Nat.lt_succ_self m)
    obtain ⟨heap', b', hrun, hb', hother, hmem⟩ := hb₁.moveLoop_spec hm hne hnew
    refine ⟨heap', b', ⟨rounds + (b₁ (old.buckets, m)).length + 1, ?_⟩, hb', ?_, ?_⟩
    · intro fuel hfuel
      rw [range_succ, foldlM_append, hrun₁ fuel (by omega)]
      simp only [Option.bind_eq_bind, Option.bind_some, foldlM_cons, foldlM_nil,
        moveBucket, (hb₁.represents hm).listBegin, hrun fuel (by omega)]
      rfl
    · intro i hi
      have him : (old.buckets, i) ≠ (old.buckets, m) := fun heq => by
        have := (Prod.ext_iff.mp heq).2
        simp only at this
        omega
      rw [hother _ him hne, hother₁ i (Nat.le_of_succ_le hi)]
    · intro k e
      rw [hmem, hmem₁, hother₁ m (Nat.le_refl m)]
      simp only [Nat.lt_succ_iff_lt_or_eq, or_and_right, exists_or, exists_eq_left, or_assoc]

end Move

lemma destroyLoop (hb : Holds heap live b) (hp : p ∈ live) :
    ∃ heap', (∀ fuel destroyed, (b p).length < fuel →
        destroyLoop (bucketAt p.1 p.2) fuel heap destroyed = some (heap', destroyed ++ b p)) ∧
      Holds heap' live (update b p []) := by
  induction hxs : b p generalizing heap b with
  | nil =>
    have hr := hb.represents hp
    rw [hxs] at hr
    refine ⟨heap, ?_, ?_⟩
    · intro fuel destroyed hfuel
      cases fuel with
      | zero => cases hfuel
      | succ fuel => rw [Lib.destroyLoop, hr.listEmpty_nil, if_pos rfl, append_nil]
    · rwa [← hxs, update_eq_self]
  | cons e ys ih =>
    have hr := hb.represents hp
    rw [hxs, map_cons] at hr
    have hseq : (bucketSeqs live b).seq p = .elem e :: ys.map .elem := by
      change (b p).map _ = _
      rw [hxs, map_cons]
    obtain ⟨heap₁, hpop, hsets⟩ := Collection.WellFormed.listPopFront hb hp hseq
    obtain ⟨heap', heq, hb'⟩ := ih (of_sets_live hp hsets) (update_self p ys b)
    rw [update_idem] at hb'
    refine ⟨heap', ?_, hb'⟩
    intro fuel destroyed hfuel
    cases fuel with
    | zero => cases hfuel
    | succ fuel =>
      rw [Lib.destroyLoop, hr.listEmpty_cons, if_neg Bool.false_ne_true]
      have hpop' : listPopFront heap (bucketAt p.1 p.2) = some (heap₁, .elem e) := hpop
      simp only [hpop', Option.bind_some]
      rw [heq fuel _ (lt_of_succ_lt_succ hfuel), append_assoc]
      rfl

lemma clearBuckets (hb : Holds heap live b) (array m : Nat) (hlive : ∀ i < m, (array, i) ∈ live) :
    ∃ heap', (∃ rounds, ∀ fuel, rounds ≤ fuel →
        (range m).foldlM (clearBucket fuel true array) (heap, []) =
          some (heap', (range m).flatMap fun i => b (array, i))) ∧
      Holds heap' live (emptied b array m) := by
  induction m with
  | zero =>
    refine ⟨heap, ⟨0, fun fuel _ => rfl⟩, hb.mono fun q hq => ⟨hq, ?_⟩⟩
    rw [emptied, if_neg fun h => not_lt_zero _ h.2]
  | succ m ih =>
    obtain ⟨heap₁, ⟨rounds, hrun₁⟩, hb₁⟩ := ih fun i hi => hlive i (lt_succ_of_lt hi)
    have hm := hlive m (lt_succ_self m)
    obtain ⟨heap₂, hrun₂, hb₂⟩ := hb₁.destroyLoop hm
    have hbm : emptied b array m (array, m) = b (array, m) :=
      if_neg fun h => lt_irrefl _ h.2
    rw [hbm] at hrun₂
    refine ⟨Lib.listInit heap₂ (bucketAt array m), ⟨rounds + (b (array, m)).length + 1, ?_⟩, ?_⟩
    · intro fuel hfuel
      rw [range_succ, foldlM_append, hrun₁ fuel (by omega)]
      simp only [Option.bind_eq_bind, Option.bind_some, foldlM_cons, foldlM_nil,
        clearBucket, if_true, hrun₂ fuel _ (by omega), Option.map_some,
        flatMap_append, flatMap_singleton]
      rfl
    · refine (hb₂.listInit (array, m)).mono fun q hq => ⟨.inr hq, ?_⟩
      by_cases hqm : q = (array, m)
      · simp [emptied, hqm]
      · have hiff : (q.1 = array ∧ q.2 < m + 1) ↔ (q.1 = array ∧ q.2 < m) := by
          rw [Prod.ext_iff] at hqm
          omega
        simp only [update_of_ne hqm, emptied, hiff]

lemma clearBuckets_null (heap : HashHeap α) (fuel array m : Nat) :
    (range m).foldlM (clearBucket fuel false array) (heap, []) =
      some (Lib.initBuckets heap array m, ([] : List α)) := by
  induction m with
  | zero => rfl
  | succ m ih =>
    rw [Lib.initBuckets, range_succ, foldlM_append, ih, foldl_append]
    rfl

end Holds

end Pintos.Lib
