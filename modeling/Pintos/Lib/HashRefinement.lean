import Pintos.Foundation.KeySet
import Pintos.Lib.HashBuckets

/-!
# Hash tables refine sets

A table holds a set with one element per key: every call returns what the operation on the
set returns and leaves the set it leaves. Each element is in the bucket its hash value
selects, and the number of buckets is a power of two, whichever allocations of `rehash`
fail.
-/

namespace Pintos.Lib

open Foundation Function List Option Nat KeySet

lemma turnOffLeast1bit_bounds {m x : Nat} (hlt : 2 ^ m < x) (hlt' : x < 2 ^ (m + 1)) :
    2 ^ m ≤ turnOffLeast1bit x ∧ turnOffLeast1bit x < x := by
  have hbit : x.testBit m = true :=
    testBit_of_two_pow_le_and_two_pow_add_one_gt (le_of_lt hlt) hlt'
  have hbit' : (x - 1).testBit m = true :=
    testBit_of_two_pow_le_and_two_pow_add_one_gt (by omega) (by omega)
  refine ⟨ge_two_pow_of_testBit ?_, ?_⟩
  · rw [turnOffLeast1bit, testBit_and, hbit, hbit']
    rfl
  · have hle : turnOffLeast1bit x ≤ x - 1 := and_le_right
    omega

lemma isPowerOf2_two_pow (m : Nat) : isPowerOf2 (2 ^ m) = true := by
  have hzero : turnOffLeast1bit (2 ^ m) = 0 := by
    rw [turnOffLeast1bit, and_two_pow_sub_one_eq_mod, mod_self]
  simp [isPowerOf2, hzero]

lemma powerOf2Loop_spec {m n fuel : Nat} (hle : 2 ^ m ≤ n) (hlt : n < 2 ^ (m + 1))
    (hfuel : n < fuel) : powerOf2Loop fuel n = some (2 ^ m) := by
  induction fuel generalizing n with
  | zero => cases hfuel
  | succ fuel ih =>
    rw [powerOf2Loop]
    rcases eq_or_lt_of_le hle with heq | hgt
    · rw [← heq, isPowerOf2_two_pow, if_pos rfl]
    · obtain ⟨hge, hless⟩ := turnOffLeast1bit_bounds hgt hlt
      have hnot : isPowerOf2 n = false := by
        have hne : turnOffLeast1bit n ≠ 0 := by omega
        simp [isPowerOf2, hne]
      rw [hnot, if_neg Bool.false_ne_true]
      exact ih hge (by omega) (by omega)

/-- `rehash` asks for the largest power of two up to half the number of elements, and for
four buckets at least. -/
lemma newBucketCnt_spec (cnt : Nat) :
    ∃ m, 2 ≤ m ∧ ∀ fuel, cnt + 4 < fuel → newBucketCnt fuel cnt = some (2 ^ m) := by
  obtain ⟨n, hn⟩ : ∃ n, n = if cnt / 2 < 4 then 4 else cnt / 2 := ⟨_, rfl⟩
  have hge : 4 ≤ n := by
    rw [hn]
    split <;> omega
  have hle : n ≤ cnt + 4 := by
    rw [hn]
    split <;> omega
  have hlog := log2_self_le (n := n) (by omega)
  have hlog' := lt_log2_self (n := n)
  refine ⟨n.log2, ?_, ?_⟩
  · by_contra hlt
    have hpow : 2 ^ (n.log2 + 1) ≤ 2 ^ 2 := Nat.pow_le_pow_right (by decide) (by omega)
    omega
  · intro fuel hfuel
    rw [newBucketCnt, ← hn]
    exact powerOf2Loop_spec hlog hlog' (by omega)

/-! ## The set of a table -/

variable {α : Type*} [DecidableEq α] {hash : α → Nat} {less : α → α → Bool}

def tableLive (h : HashTable) : Set (Nat × Nat) := {q | q.1 = h.buckets ∧ q.2 < h.bucketCnt}

/-- The table holds the set `S`, with the elements `b` in its buckets. -/
structure TableHolds (hash : α → Nat) (s : HashState α) (S : KeySet less) (b : Buckets α) :
    Prop where
  holds : Holds s.1 (tableLive s.2) b
  mem : ∀ i < s.2.bucketCnt, ∀ e,
    e ∈ b (s.2.buckets, i) ↔ e ∈ S.elems ∧ hash e &&& (s.2.bucketCnt - 1) = i
  count : s.2.elemCnt = S.elems.card
  power : ∃ m, 2 ≤ m ∧ s.2.bucketCnt = 2 ^ m

omit [DecidableEq α] in
lemma bucketIdx_lt {h : HashTable} {m : Nat} (hpow : h.bucketCnt = 2 ^ m) (e : α) :
    bucketIdx hash h e < h.bucketCnt := by
  rw [bucketIdx, hpow, and_two_pow_sub_one_eq_mod]
  exact Nat.mod_lt _ (Nat.two_pow_pos m)

/-- What every call needs to know of the two functions. -/
structure KeyFunctions (hash : α → Nat) (less : α → α → Bool) : Prop where
  order : IsStrictWeakOrder α (less · · = true)
  hash_eq : ∀ a b, SameKey less a b → hash a = hash b

namespace TableHolds

variable {s : HashState α} {S : KeySet less} {b : Buckets α}

omit [DecidableEq α] in
lemma idx_lt (ht : TableHolds hash s S b) (e : α) : bucketIdx hash s.2 e < s.2.bucketCnt := by
  obtain ⟨m, -, hpow⟩ := ht.power
  exact bucketIdx_lt hpow e

omit [DecidableEq α] in
lemma live (ht : TableHolds hash s S b) (e : α) :
    (s.2.buckets, bucketIdx hash s.2 e) ∈ tableLive s.2 := ⟨rfl, ht.idx_lt e⟩

omit [DecidableEq α] in
lemma mem_bucket (ht : TableHolds hash s S b) {e : α} :
    e ∈ b (s.2.buckets, bucketIdx hash s.2 e) ↔ e ∈ S.elems := by
  rw [ht.mem _ (ht.idx_lt e)]
  exact and_iff_left rfl

section

variable (hkeys : KeyFunctions hash less) (ht : TableHolds hash s S b)
include hkeys ht

lemma findElem (e : α) :
    ∃ rounds, ∀ fuel, rounds ≤ fuel →
      findElem less fuel s.1 (findBucket hash s.2 e) e = some (S.find e) := by
  refine ⟨(b (s.2.buckets, bucketIdx hash s.2 e)).length + 1, fun fuel hfuel => ?_⟩
  rw [findBucket, ht.holds.findElem less (ht.live e) e hfuel]
  congr 1
  have hkey : ∀ o, (!less o e && !less e o) = true ↔ SameKey less o e := by
    intro o
    simp [SameKey]
  cases hfind : find? (fun o => !less o e && !less e o) (b (s.2.buckets, bucketIdx hash s.2 e)) with
  | some o =>
    have hmem := (ht.mem _ (ht.idx_lt e) o).mp (mem_of_find?_eq_some hfind)
    have hsame := find?_some hfind
    exact ((find_eq_some hkeys.order).mpr ⟨hmem.1, (hkey o).mp hsame⟩).symm
  | none =>
    rw [find?_eq_none] at hfind
    refine (find_eq_none.mpr fun o ho hsame => ?_).symm
    have hmem : o ∈ b (s.2.buckets, bucketIdx hash s.2 e) := by
      rw [ht.mem _ (ht.idx_lt e), hkeys.hash_eq o e hsame]
      exact ⟨ho, rfl⟩
    exact hfind o hmem ((hkey o).mpr hsame)

lemma insertElem {e : α} (hfind : S.find e = none) :
    ∃ s' b', insertElem s (findBucket hash s.2 e) e = some s' ∧
      TableHolds hash s' (S.replace e) b' := by
  have hnot : e ∉ S.elems := fun he => find_eq_none.mp hfind e he (.refl hkeys.order e)
  have hfresh : ∀ q ∈ tableLive s.2, e ∉ b q := by
    rintro ⟨a, i⟩ ⟨ha, hi⟩ he
    cases ha
    exact hnot ((ht.mem i hi e).mp he).1
  obtain ⟨heap', hpush, hb'⟩ := ht.holds.listPushFront (ht.live e) hfresh
  have helems : (S.erase e).elems = S.elems := erase_of_find_none hfind
  refine ⟨(heap', { s.2 with elemCnt := s.2.elemCnt + 1 }), _, ?_, hb', ?_, ?_, ht.power⟩
  · rw [Lib.insertElem, findBucket, hpush]
    rfl
  · intro i hi o
    have hrep : o ∈ (S.replace e).elems ↔ o = e ∨ o ∈ S.elems := by
      rw [mem_replace, ← mem_erase, helems]
    have hmem := ht.mem i hi o
    rw [hrep]
    by_cases hie : i = bucketIdx hash s.2 e
    · rw [hie, update_self, mem_cons]
      rw [hie] at hmem
      rw [hmem]
      by_cases hoe : o = e
      · simp [hoe, bucketIdx]
      · simp [hoe]
    · rw [update_of_ne fun heq => hie (Prod.ext_iff.mp heq).2, hmem]
      by_cases hoe : o = e
      · simp [hoe, hnot, Ne.symm (bucketIdx.eq_1 hash s.2 e ▸ hie)]
      · simp [hoe]
  · change s.2.elemCnt + 1 = _
    rw [card_replace hkeys.order, helems, ht.count]

lemma removeElem {e o : α} (hfind : S.find e = some o) :
    ∃ s' b', removeElem s o = some s' ∧ TableHolds hash s' (S.erase e) b' ∧
      findBucket hash s'.2 e = findBucket hash s.2 e := by
  have ho := (mem_of_find hfind).1
  obtain ⟨xs, ys, hsplit⟩ := append_of_mem (ht.mem_bucket.mpr ho)
  obtain ⟨heap', next, hremove, hb'⟩ := ht.holds.listRemove (ht.live o) hsplit
  have helems := erase_of_find hkeys.order hfind
  refine ⟨(heap', { s.2 with elemCnt := s.2.elemCnt - 1 }), _, ?_, ⟨hb', ?_, ?_, ht.power⟩, rfl⟩
  · rw [Lib.removeElem, hremove]
    rfl
  · intro i hi a
    have hmem := ht.mem i hi a
    rw [helems, Finset.mem_erase]
    by_cases hio : i = bucketIdx hash s.2 o
    · have hnodup := ht.holds.nodup (ht.live o)
      rw [hsplit, nodup_middle, nodup_cons] at hnodup
      rw [hio, hsplit, mem_append, mem_cons] at hmem
      rw [hio, update_self, mem_append]
      by_cases hao : a = o
      · simp only [hao, ne_eq, not_true_eq_false, false_and, iff_false]
        rw [← mem_append]
        exact hnodup.1
      · simpa [hao] using hmem
    · rw [update_of_ne fun heq => hio (Prod.ext_iff.mp heq).2, hmem]
      by_cases hao : a = o
      · simp [hao, Ne.symm (bucketIdx.eq_1 hash s.2 o ▸ hio)]
      · simp [hao]
  · change s.2.elemCnt - 1 = _
    rw [card_erase hkeys.order hfind, ht.count]

end

lemma rehash (ht : TableHolds hash s S b) (answer : Option Nat) :
    ∃ s' b', (∃ rounds, ∀ fuel, rounds ≤ fuel → rehash hash fuel answer s = some s') ∧
      TableHolds hash s' S b' := by
  obtain ⟨m, hm, hcnt⟩ := newBucketCnt_spec s.2.elemCnt
  -- the two ways to leave the table as it is
  by_cases heq : 2 ^ m = s.2.bucketCnt
  · refine ⟨s, b, ⟨s.2.elemCnt + 5, fun fuel hfuel => ?_⟩, ht⟩
    rw [Lib.rehash, hcnt fuel hfuel, bind_some, if_pos heq]
  cases hmalloc : mallocBuckets s.2 answer with
  | none =>
    refine ⟨s, b, ⟨s.2.elemCnt + 5, fun fuel hfuel => ?_⟩, ht⟩
    rw [Lib.rehash, hcnt fuel hfuel, bind_some, if_neg heq, hmalloc]
  | some array =>
    have hne : s.2.buckets ≠ array := by
      rintro rfl
      unfold mallocBuckets at hmalloc
      split at hmalloc
      next => cases hmalloc
      next hneq => exact hneq hmalloc
    obtain ⟨h, hh⟩ : ∃ h : HashTable, h = { s.2 with buckets := array, bucketCnt := 2 ^ m } :=
      ⟨_, rfl⟩
    have hcount : h.bucketCnt = 2 ^ m := by rw [hh]
    have harray : h.buckets = array := by rw [hh]
    have hinit := ht.holds.initBuckets array (2 ^ m)
    have hne' : s.2.buckets ≠ h.buckets := by rwa [harray]
    have hnew : ∀ e, (h.buckets, bucketIdx hash h e) ∈
        tableLive s.2 ∪ {q | q.1 = array ∧ q.2 < 2 ^ m} := fun e =>
      .inr ⟨harray, hcount ▸ bucketIdx_lt hcount e⟩
    obtain ⟨heap', b', ⟨rounds, hrun⟩, hb', -, hmem⟩ :=
      hinit.moveBuckets hne' hnew s.2.bucketCnt fun i hi => .inl ⟨rfl, hi⟩
    refine ⟨(heap', h), b', ⟨rounds + s.2.elemCnt + 5, fun fuel hfuel => ?_⟩,
      ⟨?_, ?_, ?_, ⟨m, hm, hcount⟩⟩⟩
    · rw [Lib.rehash, hcnt fuel (by omega), bind_some, if_neg heq, hmalloc]
      simp [← hh, hrun fuel (by omega)]
    · refine hb'.mono fun q hq => ⟨.inr ⟨hq.1.trans harray, hcount ▸ hq.2⟩, rfl⟩
    · intro i hi e
      have hold : (∃ j < s.2.bucketCnt, e ∈ emptied b array (2 ^ m) (s.2.buckets, j)) ↔
          e ∈ S.elems := by
        simp only [emptied, hne, false_and, if_false]
        constructor
        · rintro ⟨j, hj, he⟩
          exact ((ht.mem j hj e).mp he).1
        · intro he
          exact ⟨_, ht.idx_lt e, ht.mem_bucket.mpr he⟩
      have hempty : emptied b array (2 ^ m) (h.buckets, i) = [] :=
        if_pos ⟨harray, hcount ▸ hi⟩
      rw [hmem, hold, hempty]
      simp [bucketIdx]
    · rw [hh]
      exact ht.count

lemma hashClear (ht : TableHolds hash s S b) (destructor : Bool) :
    ∃ s' b' destroyed, (∃ rounds, ∀ fuel, rounds ≤ fuel →
        hashClear fuel destructor s = some (s', destroyed)) ∧
      TableHolds hash s' (empty less) b' ∧ destroyed.Nodup ∧
      destroyed.toFinset = if destructor then S.elems else ∅ := by
  have hempty : ∀ heap', Holds heap' (tableLive s.2) (emptied b s.2.buckets s.2.bucketCnt) →
      TableHolds hash (heap', { s.2 with elemCnt := 0 }) (empty less)
        (emptied b s.2.buckets s.2.bucketCnt) := by
    intro heap' hb'
    refine ⟨hb', fun i hi e => ?_, rfl, ht.power⟩
    simp [emptied, show i < s.2.bucketCnt from hi, empty]
  cases destructor with
  | false =>
    have hinit := ht.holds.initBuckets s.2.buckets s.2.bucketCnt
    refine ⟨_, _, [], ⟨0, fun fuel _ => ?_⟩, hempty _ (hinit.mono fun q hq => ⟨.inl hq, rfl⟩),
      nodup_nil, rfl⟩
    rw [Lib.hashClear, Holds.clearBuckets_null]
    rfl
  | true =>
    obtain ⟨heap', ⟨rounds, hrun⟩, hb'⟩ := ht.holds.clearBuckets s.2.buckets s.2.bucketCnt
      fun i hi => ⟨rfl, hi⟩
    refine ⟨_, _, (range s.2.bucketCnt).flatMap fun i => b (s.2.buckets, i),
      ⟨rounds, fun fuel hfuel => ?_⟩, hempty heap' hb', ?_, ?_⟩
    · rw [Lib.hashClear, hrun fuel hfuel]
      rfl
    · rw [nodup_flatMap]
      refine ⟨fun i hi => ht.holds.nodup ⟨rfl, mem_range.mp hi⟩, ?_⟩
      refine Pairwise.imp_of_mem ?_ nodup_range
      intro i j hi hj hij e hei hej
      have heq := ht.holds.eq_of_mem ⟨rfl, mem_range.mp hi⟩ ⟨rfl, mem_range.mp hj⟩ hei hej
      exact hij (Prod.ext_iff.mp heq).2
    · ext e
      rw [List.mem_toFinset, mem_flatMap, if_pos rfl]
      constructor
      · rintro ⟨i, hi, he⟩
        exact ((ht.mem i (mem_range.mp hi) e).mp he).1
      · intro he
        exact ⟨_, mem_range.mpr (ht.idx_lt e), ht.mem_bucket.mpr he⟩

end TableHolds

/-! ## Sequences of calls -/

/-- What a call does to the set: the element it returns, the elements it destroys and the
set it leaves. -/
noncomputable def HashCall.act (S : KeySet less) :
    HashCall α → (Option α × Finset α) × KeySet less
  | .insert new => ((S.find new, ∅), S.insert new)
  | .replace new => ((S.find new, ∅), S.replace new)
  | .find e => ((S.find e, ∅), S)
  | .delete e => ((S.find e, ∅), S.erase e)
  | .clear destructor => ((none, if destructor then S.elems else ∅), .empty less)

noncomputable def setRun (S : KeySet less) :
    List (HashCall α) → KeySet less × List (Option α × Finset α)
  | [] => (S, [])
  | call :: calls =>
      let r := setRun (call.act S).2 calls
      (r.1, (call.act S).1 :: r.2)

/-- The elements a call destroys, each of which it destroys once. -/
def Returned (out : Option α × List α) (ret : Option α × Finset α) : Prop :=
  out.1 = ret.1 ∧ out.2.Nodup ∧ out.2.toFinset = ret.2

namespace TableHolds

variable {s : HashState α} {S : KeySet less} {b : Buckets α}

lemma call (hkeys : KeyFunctions hash less) (ht : TableHolds hash s S b) (call : HashCall α)
    (answer : Option Nat) :
    ∃ s' b' out, (∃ rounds, ∀ fuel, rounds ≤ fuel →
        call.run hash less fuel answer s = some (s', out)) ∧
      TableHolds hash s' (call.act S).2 b' ∧ Returned out (call.act S).1 := by
  cases call with
  | insert new =>
    obtain ⟨r₁, hfind⟩ := ht.findElem hkeys new
    cases hS : S.find new with
    | none =>
      obtain ⟨s₁, b₁, hinsert, ht₁⟩ := ht.insertElem hkeys hS
      obtain ⟨s', b', ⟨r₂, hrehash⟩, ht'⟩ := ht₁.rehash answer
      refine ⟨s', b', (none, []), ⟨r₁ + r₂, fun fuel hfuel => ?_⟩, ?_, ?_⟩
      · simp [HashCall.run, hashInsert, hfind fuel (by omega), hS, hinsert, hrehash fuel (by omega)]
      · simpa only [HashCall.act, KeySet.insert, hS] using ht'
      · simp [Returned, HashCall.act, hS]
    | some o =>
      obtain ⟨s', b', ⟨r₂, hrehash⟩, ht'⟩ := ht.rehash answer
      refine ⟨s', b', (some o, []), ⟨r₁ + r₂, fun fuel hfuel => ?_⟩, ?_, ?_⟩
      · simp [HashCall.run, hashInsert, hfind fuel (by omega), hS, hrehash fuel (by omega)]
      · simpa only [HashCall.act, KeySet.insert, hS] using ht'
      · simp [Returned, HashCall.act, hS]
  | replace new =>
    obtain ⟨r₁, hfind⟩ := ht.findElem hkeys new
    cases hS : S.find new with
    | none =>
      obtain ⟨s₁, b₁, hinsert, ht₁⟩ := ht.insertElem hkeys hS
      obtain ⟨s', b', ⟨r₂, hrehash⟩, ht'⟩ := ht₁.rehash answer
      refine ⟨s', b', (none, []), ⟨r₁ + r₂, fun fuel hfuel => ?_⟩, ht', ?_⟩
      · simp [HashCall.run, hashReplace, hfind fuel (by omega), hS, hinsert,
          hrehash fuel (by omega)]
      · simp [Returned, HashCall.act, hS]
    | some o =>
      -- the bucket was found before the old element is removed
      obtain ⟨s₁, b₁, hremove, ht₁, hbucket⟩ := ht.removeElem hkeys hS
      obtain ⟨s₂, b₂, hinsert, ht₂⟩ := ht₁.insertElem hkeys (S.find_erase new)
      obtain ⟨s', b', ⟨r₂, hrehash⟩, ht'⟩ := ht₂.rehash answer
      rw [hbucket] at hinsert
      refine ⟨s', b', (some o, []), ⟨r₁ + r₂, fun fuel hfuel => ?_⟩, ?_, ?_⟩
      · simp [HashCall.run, hashReplace, hfind fuel (by omega), hS, hremove, hinsert,
          hrehash fuel (by omega)]
      · simpa only [HashCall.act, replace_erase] using ht'
      · simp [Returned, HashCall.act, hS]
  | find e =>
    obtain ⟨r₁, hfind⟩ := ht.findElem hkeys e
    refine ⟨s, b, (S.find e, []), ⟨r₁, fun fuel hfuel => ?_⟩, ht, ?_⟩
    · simp [HashCall.run, hashFind, hfind fuel hfuel]
    · simp [Returned, HashCall.act]
  | delete e =>
    obtain ⟨r₁, hfind⟩ := ht.findElem hkeys e
    cases hS : S.find e with
    | none =>
      refine ⟨s, b, (none, []), ⟨r₁, fun fuel hfuel => ?_⟩, ?_, ?_⟩
      · simp [HashCall.run, hashDelete, hfind fuel hfuel, hS]
      · have helems := erase_of_find_none hS
        have hset : S.erase e = S := KeySet.ext helems
        simpa only [HashCall.act, hset] using ht
      · simp [Returned, HashCall.act, hS]
    | some o =>
      obtain ⟨s₁, b₁, hremove, ht₁, -⟩ := ht.removeElem hkeys hS
      obtain ⟨s', b', ⟨r₂, hrehash⟩, ht'⟩ := ht₁.rehash answer
      refine ⟨s', b', (some o, []), ⟨r₁ + r₂, fun fuel hfuel => ?_⟩, ht', ?_⟩
      · simp [HashCall.run, hashDelete, hfind fuel (by omega), hS, hremove, hrehash fuel (by omega)]
      · simp [Returned, HashCall.act, hS]
  | clear destructor =>
    obtain ⟨s', b', destroyed, ⟨r₁, hclear⟩, ht', hnodup, hset⟩ := ht.hashClear destructor
    refine ⟨s', b', (none, destroyed), ⟨r₁, fun fuel hfuel => ?_⟩, ht', rfl, hnodup, hset⟩
    simp [HashCall.run, hclear fuel hfuel]

lemma run (hkeys : KeyFunctions hash less) (calls : List (HashCall α × Option Nat))
    (ht : TableHolds hash s S b) :
    ∃ s' b' outs, (∃ rounds, ∀ fuel, rounds ≤ fuel →
        hashRun hash less fuel s calls = some (s', outs)) ∧
      TableHolds hash s' (setRun S (calls.map Prod.fst)).1 b' ∧
      Forall₂ Returned outs (setRun S (calls.map Prod.fst)).2 := by
  induction calls generalizing s S b with
  | nil => exact ⟨s, b, [], ⟨0, fun fuel _ => rfl⟩, ht, .nil⟩
  | cons c calls ih =>
    obtain ⟨s₁, b₁, out, ⟨r₁, hcall⟩, ht₁, hout⟩ := ht.call hkeys c.1 c.2
    obtain ⟨s', b', outs, ⟨r₂, hrun⟩, ht', houts⟩ := ih ht₁
    refine ⟨s', b', out :: outs, ⟨r₁ + r₂, fun fuel hfuel => ?_⟩, ht', .cons hout houts⟩
    simp [hashRun, hcall fuel (by omega), hrun fuel (by omega)]

end TableHolds

lemma hashInit_holds (hash : α → Nat) (less : α → α → Bool) (heap : HashHeap α) (array : Nat) :
    ∃ s b, (∀ fuel, hashInit fuel heap (some array) = some (some s)) ∧
      TableHolds hash s (empty less) b := by
  have hnone : Holds heap ∅ fun _ => [] :=
    ⟨fun q hq => absurd hq (Set.notMem_empty q), fun q hq => absurd hq (Set.notMem_empty q)⟩
  have hinit := hnone.initBuckets array 4
  refine ⟨(initBuckets heap array 4, ⟨0, 4, array⟩), _, fun fuel => ?_,
    ⟨hinit.mono fun q hq => ⟨.inr hq, rfl⟩, fun i hi e => ?_, rfl, 2, le_refl 2, rfl⟩⟩
  · rw [hashInit, hashClear, Holds.clearBuckets_null]
    rfl
  · simp [emptied, empty]

/-- From `hash_init` every sequence of calls runs to its end, whatever `malloc` answers, and does
what the operations on sets do. -/
theorem hashRun_refines (hash : α → Nat) (less : α → α → Bool)
    (hless : IsStrictWeakOrder α (less · · = true))
    (hhash : ∀ a b, SameKey less a b → hash a = hash b) (heap : HashHeap α) (array : Nat)
    (calls : List (HashCall α × Option Nat)) :
    ∃ s₀ s b outs, (∀ fuel, hashInit fuel heap (some array) = some (some s₀)) ∧
      (∃ rounds, ∀ fuel, rounds ≤ fuel → hashRun hash less fuel s₀ calls = some (s, outs)) ∧
      TableHolds hash s (setRun (KeySet.empty less) (calls.map Prod.fst)).1 b ∧
      List.Forall₂ Returned outs (setRun (KeySet.empty less) (calls.map Prod.fst)).2 := by
  obtain ⟨s₀, b₀, hinit, ht⟩ := hashInit_holds hash less heap array
  obtain ⟨s, b, outs, hrun, ht', houts⟩ := ht.run ⟨hless, hhash⟩ calls
  exact ⟨s₀, s, b, outs, hinit, hrun, ht', houts⟩

def pairLess (a b : Nat × Nat) : Bool := decide (a.1 < b.1)

lemma pairLess_order : IsStrictWeakOrder (Nat × Nat) (pairLess · · = true) where
  irrefl a := by simp [pairLess]
  trans a b c := by
    simp only [pairLess, decide_eq_true_eq]
    omega
  incomp_trans a b c := by
    simp only [pairLess, decide_eq_true_eq]
    omega

/-- Two elements with one key are inserted into a new table, which is cleared then. -/
theorem hashRun_refines_pairs :
    ∃ s₀ s b outs, (∀ fuel, hashInit fuel (fun _ => ⟨none, none⟩) (some 0) = some (some s₀)) ∧
      (∃ rounds, ∀ fuel, rounds ≤ fuel → hashRun Prod.fst pairLess fuel s₀
        [(.insert (1, 0), none), (.insert (1, 1), some 5), (.clear true, none)] =
          some (s, outs)) ∧
      TableHolds Prod.fst s (KeySet.empty pairLess) b := by
  obtain ⟨s₀, s, b, outs, hinit, hrun, ht, -⟩ := hashRun_refines Prod.fst pairLess
    pairLess_order (by simp only [SameKey, pairLess, decide_eq_false_iff_not]; omega)
    (fun _ => ⟨none, none⟩) 0
    [(.insert (1, 0), none), (.insert (1, 1), some 5), (.clear true, none)]
  exact ⟨s₀, s, b, outs, hinit, hrun, ht⟩

end Pintos.Lib
