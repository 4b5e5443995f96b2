import Pintos.Foundation.HeapOrder
import Pintos.Lib.BinarySearch
import Pintos.Lib.MemoryBlocks

/-!
# `sort` (lib/stdlib.c)

A heap sort in place. Elements are runs of bytes that are swapped byte by byte, indexes count
from 1, and the comparison function sees the bytes of two elements. The indexes that are
passed to `do_swap` and `do_compare` are kept. `heapify` is bounded by `fuel`; `none` is a
failed `ASSERT` or a bound that does not suffice.
-/

namespace Pintos.Lib

open Foundation Function List Nat

def objectAt (mem : Bytes) (p size : Nat) : List UInt8 :=
  (List.range size).map fun i => mem ((p + i) % 4294967296)

def elementPtr (array idx size : Nat) : Nat :=
  (array + (4294967295 + idx) % 4294967296 * size) % 4294967296

/-- The loop of `do_swap`, with the number of bytes left. -/
def swapBytes (a b : Nat) : Nat → Nat → Bytes → Bytes
  | 0, _, mem => mem
  | left + 1, i, mem =>
      let pa := (a + i) % 4294967296
      let pb := (b + i) % 4294967296
      let t := mem pa
      swapBytes a b left (i + 1) (Function.update (Function.update mem pa (mem pb)) pb t)

/-- Memory, and the indexes that have been used. -/
structure Sorting where
  mem : Bytes
  indexes : List Nat

namespace Sorting

def doSwap (s : Sorting) (array aIdx bIdx size : Nat) : Sorting where
  mem := swapBytes (elementPtr array aIdx size) (elementPtr array bIdx size) size 0 s.mem
  indexes := aIdx :: bIdx :: s.indexes

variable (compare : List UInt8 → List UInt8 → Int)

def doCompare (s : Sorting) (array aIdx bIdx size : Nat) : Int × Sorting :=
  (compare (objectAt s.mem (elementPtr array aIdx size) size)
      (objectAt s.mem (elementPtr array bIdx size) size),
    { s with indexes := aIdx :: bIdx :: s.indexes })

/-- `if (idx <= cnt && do_compare (array, idx, max, ...) > 0) max = idx;` -/
def largerOf (s : Sorting) (array cnt size idx max : Nat) : Nat × Sorting :=
  if idx ≤ cnt then
    let (c, s) := s.doCompare compare array idx max size
    (if c > 0 then idx else max, s)
  else (max, s)

def heapify (array cnt size : Nat) : Nat → Sorting → Nat → Option Sorting
  | 0, _, _ => none
  | fuel + 1, s, i =>
      let left := 2 * i % 4294967296
      let right := (2 * i + 1) % 4294967296
      let (max, s) := s.largerOf compare array cnt size left i
      let (max, s) := s.largerOf compare array cnt size right max
      if max = i then some s else heapify array cnt size fuel (s.doSwap array i max size) max

def buildHeap (fuel array cnt size : Nat) : Nat → Sorting → Option Sorting
  | 0, s => some s
  | i + 1, s =>
      (heapify compare array cnt size fuel s (i + 1)).bind (buildHeap fuel array cnt size i)

def sortHeap (fuel array size : Nat) : Nat → Sorting → Option Sorting
  | 0, s => some s
  | i + 1, s =>
      if i + 1 > 1 then
        (heapify compare array i size fuel (s.doSwap array 1 (i + 1) size) 1).bind
          (sortHeap fuel array size i)
      else some s

end Sorting

def sort (compare : List UInt8 → List UInt8 → Int) (fuel : Nat) (mem : Bytes)
    (array cnt size : Nat) : Option Sorting :=
  if (array ≠ 0 ∨ cnt = 0) ∧ size > 0 then
    (Sorting.buildHeap compare fuel array cnt size (cnt / 2) ⟨mem, []⟩).bind
      (Sorting.sortHeap compare fuel array size cnt)
  else none

/-- The first `k` bytes at `a` and at `b` have changed places. -/
structure Swapped (before after : Bytes) (a b k : Nat) : Prop where
  left : ∀ i < k, after (a + i) = before (b + i)
  right : ∀ i < k, after (b + i) = before (a + i)
  frame : ∀ p, p < a ∨ a + k ≤ p → p < b ∨ b + k ≤ p → after p = before p

section Swapping

variable {before after : Bytes} {a b k size : Nat}

lemma Swapped.empty (mem : Bytes) (a b : Nat) : Swapped mem mem a b 0 :=
  ⟨nofun, nofun, fun _ _ _ => rfl⟩

lemma Swapped.next (h : Swapped before after a b k) (hk : k < size)
    (hapart : a + size ≤ b ∨ b + size ≤ a) :
    Swapped before
      (update (update after (a + k) (after (b + k))) (b + k) (after (a + k)))
      a b (k + 1) where
  left i hi := by
    rw [update_of_ne (by omega)]
    by_cases hik : i = k
    · rw [hik, update_self]
      exact h.frame _ (by omega) (by omega)
    · rw [update_of_ne (by omega)]
      exact h.left i (by omega)
  right i hi := by
    by_cases hik : i = k
    · rw [hik, update_self]
      exact h.frame _ (by omega) (by omega)
    · rw [update_of_ne (by omega), update_of_ne (by omega)]
      exact h.right i (by omega)
  frame p hpa hpb := by
    rw [update_of_ne (by omega), update_of_ne (by omega)]
    exact h.frame p (by omega) (by omega)

lemma swapBytes_swapped (ha : Inside a size) (hb : Inside b size)
    (hapart : a + size ≤ b ∨ b + size ≤ a) {left : Nat} (hleft : k + left = size)
    (h : Swapped before after a b k) : Swapped before (swapBytes a b left k after) a b size := by
  induction left generalizing k after with
  | zero =>
    rw [Nat.add_zero] at hleft
    rwa [← hleft]
  | succ left ih =>
    have hfitsa := ha.fits
    have hfitsb := hb.fits
    have hpa : (a + k) % 4294967296 = a + k := mod_eq_of_lt (by omega)
    have hpb : (b + k) % 4294967296 = b + k := mod_eq_of_lt (by omega)
    rw [swapBytes, hpa, hpb]
    exact ih (by omega) (h.next (by omega) hapart)

end Swapping

namespace ArrayRef

variable {a : ArrayRef} {n m : Nat}

def element (a : ArrayRef) (mem : Bytes) (n : Nat) : List UInt8 :=
  if 1 ≤ n ∧ n ≤ a.cnt then objectAt mem (a.at (n - 1)) a.size else []

def elements (a : ArrayRef) (mem : Bytes) : List (List UInt8) :=
  (List.range' 1 a.cnt).map (a.element mem)

lemma cnt_lt (a : ArrayRef) : a.cnt < 4294967296 := by
  have hfits := a.fits
  have hmul := Nat.le_mul_of_pos_right a.cnt a.size_pos
  omega

lemma elementPtr_eq (hpos : 1 ≤ n) (hn : n ≤ a.cnt) :
    elementPtr a.base n a.size = a.at (n - 1) := by
  have hcnt := a.cnt_lt
  have hpred : (4294967295 + n) % 4294967296 = n - 1 := by omega
  rw [elementPtr, hpred]
  exact mod_eq_of_lt (a.at_lt (by omega))

lemma inside_at (hpos : 1 ≤ n) (hn : n ≤ a.cnt) : Inside (a.at (n - 1)) a.size := by
  refine ⟨a.at_lt (by omega), ?_⟩
  rw [← a.at_succ, Nat.sub_add_cancel hpos]
  exact Nat.le_of_lt (a.at_lt hn)

lemma at_apart (hpos : 1 ≤ n) (hlt : n < m) : a.at (n - 1) + a.size ≤ a.at (m - 1) := by
  rw [← a.at_succ, Nat.sub_add_cancel hpos]
  exact a.at_le_at (by omega)

lemma element_eq (mem : Bytes) (hpos : 1 ≤ n) (hn : n ≤ a.cnt) :
    a.element mem n = (range a.size).map fun i => mem (a.at (n - 1) + i) := by
  rw [element, if_pos ⟨hpos, hn⟩, objectAt]
  refine map_congr_left fun i hi => ?_
  have hfits := (inside_at hpos hn).fits
  rw [mem_range] at hi
  rw [mod_eq_of_lt (by omega)]

lemma objectAt_elementPtr (mem : Bytes) (hpos : 1 ≤ n) (hn : n ≤ a.cnt) :
    objectAt mem (elementPtr a.base n a.size) a.size = a.element mem n := by
  rw [elementPtr_eq hpos hn, element, if_pos ⟨hpos, hn⟩]

lemma element_swapped {before after : Bytes} (hn : 1 ≤ n ∧ n ≤ a.cnt) (hm : 1 ≤ m ∧ m ≤ a.cnt)
    (h : Swapped before after (a.at (n - 1)) (a.at (m - 1)) a.size) :
    a.element after = a.element before ∘ Equiv.swap n m := by
  funext q
  rw [comp_apply]
  by_cases hqn : q = n
  · rw [hqn, Equiv.swap_apply_left, element_eq _ hn.1 hn.2, element_eq _ hm.1 hm.2]
    exact map_congr_left fun i hi => h.left i (mem_range.mp hi)
  by_cases hqm : q = m
  · rw [hqm, Equiv.swap_apply_right, element_eq _ hn.1 hn.2, element_eq _ hm.1 hm.2]
    exact map_congr_left fun i hi => h.right i (mem_range.mp hi)
  rw [Equiv.swap_apply_of_ne_of_ne hqn hqm]
  by_cases hq : 1 ≤ q ∧ q ≤ a.cnt
  · rw [element_eq _ hq.1 hq.2, element_eq _ hq.1 hq.2]
    refine map_congr_left fun i hi => ?_
    rw [mem_range] at hi
    have hapart : ∀ r, 1 ≤ r → q ≠ r →
        a.at (q - 1) + i < a.at (r - 1) ∨ a.at (r - 1) + a.size ≤ a.at (q - 1) + i := by
      intro r hr hne
      rcases lt_or_gt_of_ne hne with hlt | hgt
      · have hle := at_apart (a := a) hq.1 hlt
        omega
      · have hle := at_apart (a := a) hr hgt
        omega
    exact h.frame _ (hapart n hn.1 hqn) (hapart m hm.1 hqm)
  · rw [element, element, if_neg hq, if_neg hq]

lemma doSwap_swapped (s : Sorting) (hn : 1 ≤ n ∧ n ≤ a.cnt) (hm : 1 ≤ m ∧ m ≤ a.cnt) (hne : n ≠ m) :
    Swapped s.mem (s.doSwap a.base n m a.size).mem (a.at (n - 1)) (a.at (m - 1)) a.size := by
  have hapart : a.at (n - 1) + a.size ≤ a.at (m - 1) ∨ a.at (m - 1) + a.size ≤ a.at (n - 1) := by
    rcases lt_or_gt_of_ne hne with hlt | hgt
    · exact .inl (at_apart hn.1 hlt)
    · exact .inr (at_apart hm.1 hgt)
  rw [Sorting.doSwap, elementPtr_eq hn.1 hn.2, elementPtr_eq hm.1 hm.2]
  exact swapBytes_swapped (inside_at hn.1 hn.2) (inside_at hm.1 hm.2) hapart
    (Nat.zero_add a.size) (.empty s.mem _ _)

lemma element_doSwap (s : Sorting) (hn : 1 ≤ n ∧ n ≤ a.cnt) (hm : 1 ≤ m ∧ m ≤ a.cnt)
    (hne : n ≠ m) : a.element (s.doSwap a.base n m a.size).mem = a.element s.mem ∘ Equiv.swap n m :=
  element_swapped hn hm (doSwap_swapped s hn hm hne)

lemma outside_at {p : Nat} (hp : p < a.base ∨ a.at a.cnt ≤ p) (hn : 1 ≤ n ∧ n ≤ a.cnt) :
    p < a.at (n - 1) ∨ a.at (n - 1) + a.size ≤ p := by
  have hlast : a.at (n - 1) + a.size ≤ a.at a.cnt := by
    rw [← a.at_succ, Nat.sub_add_cancel hn.1]
    exact a.at_le_at hn.2
  have hfirst : a.base ≤ a.at (n - 1) := le_add_right _ _
  omega

end ArrayRef

/-- `compare` as an order of all objects, with those of `s` before the others. -/
def NotAfter {α : Type*} (compare : α → α → Int) (s : Set α) (x y : α) : Prop :=
  y ∈ s → x ∈ s ∧ compare x y ≤ 0

namespace Comparison

variable {α : Type*} {compare : α → α → Int} {s : Set α} {x y : α}

lemma notAfter_refl (h : Comparison compare s) (x : α) : NotAfter compare s x x := by
  intro hx
  have hflip := h.flip x hx x hx
  exact ⟨hx, by omega⟩

lemma notAfter_trans (h : Comparison compare s) (x y z : α) (hxy : NotAfter compare s x y)
    (hyz : NotAfter compare s y z) : NotAfter compare s x z := by
  intro hz
  obtain ⟨hy, hle⟩ := hyz hz
  obtain ⟨hx, hle'⟩ := hxy hy
  exact ⟨hx, h.trans x hx y hy z hz hle' hle⟩

lemma notAfter_of_pos (h : Comparison compare s) (hx : x ∈ s) (hy : y ∈ s)
    (hpos : 0 < compare y x) : NotAfter compare s x y :=
  fun _ => ⟨hx, Int.le_of_lt ((h.flip y hy x hx).mp hpos)⟩

end Comparison

/-! ## Floating down -/

/-- `s'` has the elements of `s`, those from `lo` to `hi` in another order, and the same bytes
elsewhere. -/
structure Sorting.Permutes (a : ArrayRef) (s s' : Sorting) (lo hi : Nat) : Prop where
  rearranged : Rearranged (a.element s.mem) (a.element s'.mem) lo hi
  frame : ∀ p, p < a.base ∨ a.at a.cnt ≤ p → s'.mem p = s.mem p
  indexes : (∀ n ∈ s.indexes, 1 ≤ n ∧ n ≤ a.cnt) → ∀ n ∈ s'.indexes, 1 ≤ n ∧ n ≤ a.cnt

namespace Sorting

variable {a : ArrayRef} {s s' s'' : Sorting} {lo hi k cnt i : Nat}

lemma Permutes.refl (a : ArrayRef) (s : Sorting) (lo hi : Nat) : Permutes a s s lo hi :=
  ⟨.refl _ lo hi, fun _ _ => rfl, id⟩

lemma Permutes.trans (h : Permutes a s s' lo hi) (h' : Permutes a s' s'' lo hi) :
    Permutes a s s'' lo hi where
  rearranged := h.rearranged.trans h'.rearranged
  frame p hp := (h'.frame p hp).trans (h.frame p hp)
  indexes hs := h'.indexes (h.indexes hs)

lemma Permutes.mono (h : Permutes a s s' lo hi) {lo' hi' : Nat} (hlo : lo' ≤ lo)
    (hhi : hi ≤ hi') : Permutes a s s' lo' hi' :=
  ⟨h.rearranged.mono hlo hhi, h.frame, h.indexes⟩

lemma permutes_doSwap {n m : Nat} (s : Sorting) (hlo : 1 ≤ lo) (hhi : hi ≤ a.cnt)
    (hn : lo ≤ n ∧ n ≤ hi) (hm : lo ≤ m ∧ m ≤ hi) (hne : n ≠ m) :
    Permutes a s (s.doSwap a.base n m a.size) lo hi where
  rearranged := by
    rw [a.element_doSwap s ⟨by omega, by omega⟩ ⟨by omega, by omega⟩ hne]
    exact .swap _ hn.1 hn.2 hm.1 hm.2
  frame p hp := (a.doSwap_swapped s ⟨by omega, by omega⟩ ⟨by omega, by omega⟩ hne).frame p
    (a.outside_at hp ⟨by omega, by omega⟩) (a.outside_at hp ⟨by omega, by omega⟩)
  indexes hs q hq := by
    rcases mem_cons.mp hq with rfl | hq
    · omega
    · rcases mem_cons.mp hq with rfl | hq
      · omega
      · exact hs q hq

/-- All elements are objects that can be compared. -/
def ElementsIn (s : Sorting) (a : ArrayRef) (objects : Set (List UInt8)) : Prop :=
  ∀ n, 1 ≤ n → n ≤ a.cnt → a.element s.mem n ∈ objects

variable {compare : List UInt8 → List UInt8 → Int} {objects : Set (List UInt8)}

lemma Permutes.elementsIn (h : Permutes a s s' lo hi) (hlo : 1 ≤ lo) (hhi : hi ≤ a.cnt)
    (hs : s.ElementsIn a objects) : s'.ElementsIn a objects := by
  intro n hpos hn
  obtain ⟨m, hm, hle, heq⟩ := (h.rearranged.mono hlo hhi).inside hpos hn
  rw [heq]
  exact hs m hm hle

section

variable (hc : Comparison compare objects) (hs : s.ElementsIn a objects)
include hc hs

lemma largerOf_spec
    (hcnt : cnt ≤ a.cnt) {idx max : Nat} (hidx : 1 ≤ idx) (hmax : 1 ≤ max ∧ max ≤ a.cnt) :
    ∃ m s', s.largerOf compare a.base cnt a.size idx max = (m, s') ∧ s'.mem = s.mem ∧
      Permutes a s s' 1 0 ∧ (m = max ∨ m = idx ∧ idx ≤ cnt) ∧
      NotAfter compare objects (a.element s.mem max) (a.element s.mem m) ∧
      (idx ≤ cnt → NotAfter compare objects (a.element s.mem idx) (a.element s.mem m)) := by
  by_cases hle : idx ≤ cnt
  · have hidx' : idx ≤ a.cnt := le_trans hle hcnt
    have hmem := hs idx hidx hidx'
    have hmem' := hs max hmax.1 hmax.2
    have hkeeps : Permutes a s ⟨s.mem, idx :: max :: s.indexes⟩ 1 0 := by
      refine ⟨.refl _ 1 0, fun _ _ => rfl, fun hall q hq => ?_⟩
      rcases mem_cons.mp hq with rfl | hq
      · exact ⟨hidx, hidx'⟩
      · rcases mem_cons.mp hq with rfl | hq
        · exact hmax
        · exact hall q hq
    rw [largerOf, if_pos hle, doCompare, ArrayRef.objectAt_elementPtr _ hidx hidx',
      ArrayRef.objectAt_elementPtr _ hmax.1 hmax.2]
    refine ⟨_, _, rfl, rfl, hkeeps, ?_⟩
    by_cases hpos : compare (a.element s.mem idx) (a.element s.mem max) > 0
    · rw [if_pos hpos]
      exact ⟨.inr ⟨rfl, hle⟩, hc.notAfter_of_pos hmem' hmem hpos, fun _ => hc.notAfter_refl _⟩
    · rw [if_neg hpos]
      exact ⟨.inl rfl, hc.notAfter_refl _, fun _ _ => ⟨hmem, Int.not_lt.mp hpos⟩⟩
  · rw [largerOf, if_neg hle]
    exact ⟨max, s, rfl, rfl, .refl a s 1 0, .inl rfl, hc.notAfter_refl _, fun h => absurd h hle⟩

/-- A round of `heapify` finds the largest node among `i` and its children. -/
lemma heapify_round
    (hcnt : cnt ≤ a.cnt) (hsmall : a.cnt < 2147483648) (hpos : 1 ≤ i) (hi : i ≤ cnt) :
    ∃ m s', (∀ fuel, heapify compare a.base cnt a.size (fuel + 1) s i =
        if m = i then some s'
        else heapify compare a.base cnt a.size fuel (s'.doSwap a.base i m a.size) m) ∧
      s'.mem = s.mem ∧ Permutes a s s' 1 0 ∧ (m = i ∨ IsChild m i ∧ m ≤ cnt) ∧
      NotAfter compare objects (a.element s.mem i) (a.element s.mem m) ∧
      ∀ c, c ≤ cnt → IsChild c i →
        NotAfter compare objects (a.element s.mem c) (a.element s.mem m) := by
  have hleft : 2 * i % 4294967296 = 2 * i := mod_eq_of_lt (by omega)
  have hright : (2 * i + 1) % 4294967296 = 2 * i + 1 := mod_eq_of_lt (by omega)
  obtain ⟨m₁, s₁, heq₁, hmem₁, hkeeps₁, hm₁, hself, hfirst⟩ :=
    largerOf_spec hc hs hcnt (show 1 ≤ 2 * i by omega) ⟨hpos, by omega⟩
  have hs₁ : s₁.ElementsIn a objects := by
    unfold ElementsIn
    rwa [hmem₁]
  obtain ⟨m, s', heq, hmem, hkeeps, hm, hold, hsecond⟩ :=
    largerOf_spec hc hs₁ hcnt (show 1 ≤ 2 * i + 1 by omega) (show 1 ≤ m₁ ∧ m₁ ≤ a.cnt by omega)
  rw [hmem₁] at hmem hold hsecond
  refine ⟨m, s', fun fuel => ?_, hmem, hkeeps₁.trans hkeeps, ?_, ?_, ?_⟩
  · rw [heapify, hleft, hright, heq₁]
    dsimp only
    rw [heq]
  · unfold IsChild
    omega
  · exact hc.notAfter_trans _ _ _ hself hold
  · intro c hle hchild
    rcases hchild with rfl | rfl
    · exact hc.notAfter_trans _ _ _ (hfirst hle) hold
    · exact hsecond hle

/-- `heapify` ends and repairs the heap below the node. -/
lemma heapify_spec
    (hcnt : cnt ≤ a.cnt) (hsmall : a.cnt < 2147483648) (hk : 1 ≤ k) (hki : k ≤ i) (hi : i ≤ cnt)
    (hheap : HeapExcept (NotAfter compare objects) (a.element s.mem) k cnt i) :
    ∃ s', (∀ fuel, cnt - i < fuel → heapify compare a.base cnt a.size fuel s i = some s') ∧
      HeapFrom (NotAfter compare objects) (a.element s'.mem) k cnt ∧ Permutes a s s' 1 cnt := by
  -- the node moves to a larger index in each round
  induction hn : cnt - i using Nat.strong_induction_on generalizing s i with
  | _ n ih =>
    obtain ⟨m, s₁, hround, hmem, hkeeps, hm, hself, hmax⟩ :=
      heapify_round hc hs hcnt hsmall (by omega) hi
    have hkeeps' := hkeeps.mono (le_refl 1) (zero_le cnt)
    by_cases hstop : m = i
    · refine ⟨s₁, fun fuel hfuel => ?_, ?_, hkeeps'⟩
      · cases fuel with
        | zero => cases hfuel
        | succ fuel => rw [hround, if_pos hstop]
      · rw [hmem]
        rw [hstop] at hmax
        exact hheap.heapFrom hmax
    · obtain ⟨hchild, hle⟩ := hm.resolve_left hstop
      have him : i < m := by
        unfold IsChild at hchild
        omega
      have hswap : Permutes a s₁ (s₁.doSwap a.base i m a.size) 1 cnt :=
        permutes_doSwap s₁ (le_refl 1) hcnt ⟨by omega, hi⟩ ⟨by omega, hle⟩ (by omega)
      have hkeeps₂ := hkeeps'.trans hswap
      have hheap' : HeapExcept (NotAfter compare objects)
          (a.element (s₁.doSwap a.base i m a.size).mem) k cnt m := by
        rw [a.element_doSwap s₁ ⟨by omega, by omega⟩ ⟨by omega, by omega⟩ (by omega), hmem]
        exact hheap.swap hk hki hchild hself hmax hle
      obtain ⟨s', hrest, hdone, hkeeps₃⟩ :=
        ih (cnt - m) (by omega) (hkeeps₂.elementsIn (le_refl 1) hcnt hs) (by omega) hle hheap' rfl
      refine ⟨s', fun fuel hfuel => ?_, hdone, hkeeps₂.trans hkeeps₃⟩
      cases fuel with
      | zero => cases hfuel
      | succ fuel =>
        rw [hround, if_neg hstop]
        exact hrest fuel (by omega)

lemma buildHeap_spec (hsmall : a.cnt < 2147483648) (hi : i ≤ a.cnt)
    (hheap : HeapFrom (NotAfter compare objects) (a.element s.mem) (i + 1) a.cnt) :
    ∃ s', (∀ fuel, a.cnt < fuel → buildHeap compare fuel a.base a.cnt a.size i s = some s') ∧
      HeapFrom (NotAfter compare objects) (a.element s'.mem) 1 a.cnt ∧
      Permutes a s s' 1 a.cnt := by
  induction i generalizing s with
  | zero => exact ⟨s, fun _ _ => rfl, hheap, .refl a s 1 a.cnt⟩
  | succ i ih =>
    obtain ⟨s₁, hrun, hheap₁, hkeeps₁⟩ := heapify_spec hc hs (le_refl _) hsmall
      (le_add_left 1 i) (le_refl _) hi (hheap.except (le_add_left 1 i))
    obtain ⟨s', hrest, hdone, hkeeps⟩ :=
      ih (hkeeps₁.elementsIn (le_refl 1) (le_refl _) hs) (by omega) hheap₁
    refine ⟨s', fun fuel hfuel => ?_, hdone, hkeeps₁.trans hkeeps⟩
    rw [buildHeap, hrun fuel (by omega)]
    exact hrest fuel hfuel

/-- The heap shrinks while the sorted end grows. -/
lemma sortHeap_spec (hsmall : a.cnt < 2147483648) (hi : i ≤ a.cnt)
    (hheap : HeapFrom (NotAfter compare objects) (a.element s.mem) 1 i)
    (hsorted : SortedBehind (NotAfter compare objects) (a.element s.mem) i a.cnt) :
    ∃ s', (∀ fuel, a.cnt < fuel → sortHeap compare fuel a.base a.size i s = some s') ∧
      SortedBehind (NotAfter compare objects) (a.element s'.mem) 1 a.cnt ∧
      Permutes a s s' 1 a.cnt := by
  induction i generalizing s with
  | zero =>
    refine ⟨s, fun _ _ => rfl, fun n m hn hnm _ hm => ?_, .refl a s 1 a.cnt⟩
    exact hsorted n m hn hnm (by omega) hm
  | succ i ih =>
    by_cases hone : i + 1 > 1
    · have hroot := fun n => hheap.le_root (n := n) hc.notAfter_refl hc.notAfter_trans
      have hswap : Permutes a s (s.doSwap a.base 1 (i + 1) a.size) 1 a.cnt :=
        permutes_doSwap s (le_refl 1) (le_refl _) ⟨by omega, by omega⟩ ⟨by omega, hi⟩ (by omega)
      have hswapped := a.element_doSwap s (n := 1) (m := i + 1) ⟨by omega, by omega⟩
        ⟨by omega, hi⟩ (by omega)
      have hs₁ := hswap.elementsIn (le_refl 1) (le_refl _) hs
      obtain ⟨s₂, hrun, hheap₂, hkeeps₂⟩ := heapify_spec hc hs₁ (le_of_succ_le hi) hsmall
        (le_refl 1) (le_refl 1) (by omega) (by rw [hswapped]; exact hheap.swap_root)
      have hsorted₂ : SortedBehind (NotAfter compare objects) (a.element s₂.mem) i a.cnt := by
        refine SortedBehind.rearranged ?_ hkeeps₂.rearranged
        rw [hswapped]
        exact hsorted.swap_root hroot
      have hkeeps₁ := hkeeps₂.mono (le_refl 1) (le_of_succ_le hi)
      obtain ⟨s', hrest, hdone, hkeeps⟩ :=
        ih (hkeeps₁.elementsIn (le_refl 1) (le_refl _) hs₁) (by omega) hheap₂ hsorted₂
      refine ⟨s', fun fuel hfuel => ?_, hdone, (hswap.trans hkeeps₁).trans hkeeps⟩
      rw [sortHeap, if_pos hone, hrun fuel (by omega)]
      exact hrest fuel hfuel
    · refine ⟨s, fun fuel _ => by rw [sortHeap, if_neg hone], ?_, .refl a s 1 a.cnt⟩
      obtain rfl : i = 0 := by omega
      exact hsorted

end

end Sorting

/-- `sort` ends with the elements in order and nothing else changed, and uses only indexes of
elements. -/
theorem sort_correct (a : ArrayRef) (hsmall : a.cnt * a.size < 2147483648)
    (compare : List UInt8 → List UInt8 → Int) (mem : Bytes)
    (hc : Comparison compare {x | x ∈ a.elements mem}) :
    ∃ s, (∀ fuel, a.cnt < fuel → sort compare fuel mem a.base a.cnt a.size = some s) ∧
      (a.elements s.mem).Perm (a.elements mem) ∧
      (a.elements s.mem).Pairwise (fun x y => compare x y ≤ 0) ∧
      (∀ n ∈ s.indexes, 1 ≤ n ∧ n ≤ a.cnt) ∧
      ∀ p, p < a.base ∨ a.base + a.cnt * a.size ≤ p → s.mem p = mem p := by
  have hcnt : a.cnt < 2147483648 :=
    Nat.lt_of_le_of_lt (Nat.le_mul_of_pos_right a.cnt a.size_pos) hsmall
  have hassert : (a.base ≠ 0 ∨ a.cnt = 0) ∧ a.size > 0 :=
    ⟨a.nonnull.imp_left ne_of_gt, a.size_pos⟩
  have hs : (⟨mem, []⟩ : Sorting).ElementsIn a {x | x ∈ a.elements mem} := fun n hpos hn =>
    mem_map.mpr ⟨n, mem_range'_1.mpr ⟨hpos, by omega⟩, rfl⟩
  obtain ⟨s₁, hbuild, hheap, hkeeps₁⟩ := Sorting.buildHeap_spec hc hs hcnt
    (div_le_self a.cnt 2) (heapFrom_half _ _ a.cnt)
  obtain ⟨s, hsort, hsorted, hkeeps₂⟩ := Sorting.sortHeap_spec hc
    (hkeeps₁.elementsIn (le_refl 1) (le_refl _) hs) hcnt (le_refl a.cnt) hheap
    (fun n m _ _ hlt hle => absurd hle (not_le.mpr hlt))
  have hkeeps := hkeeps₁.trans hkeeps₂
  have hperm := hkeeps.rearranged.perm
  refine ⟨s, fun fuel hfuel => ?_, hperm, ?_, hkeeps.indexes nofun, hkeeps.frame⟩
  · rw [sort, if_pos hassert, hbuild fuel hfuel]
    exact hsort fuel hfuel
  · refine hsorted.pairwise.imp_of_mem fun {x y} _ hy hxy => ?_
    exact (hxy (hperm.mem_iff.mp hy)).2

/-- Three elements of one byte each, compared as numbers. -/
theorem sort_correct_bytes :
    ∃ s, sort (fun x y => ((x.headD 0).toNat : Int) - (y.headD 0).toNat) 4
        (fun p => UInt8.ofNat (4100 - p)) 4096 3 1 = some s ∧
      (ArrayRef.elements ⟨4096, 3, 1, by decide, by decide, by decide⟩ s.mem).Pairwise
        (fun x y => ((x.headD 0).toNat : Int) - (y.headD 0).toNat ≤ 0) := by
  obtain ⟨s, hsort, -, hsorted, -, -⟩ :=
    sort_correct ⟨4096, 3, 1, by decide, by decide, by decide⟩ (by decide)
      (fun x y => ((x.headD 0).toNat : Int) - (y.headD 0).toNat) (fun p => UInt8.ofNat (4100 - p))
      ⟨fun x _ y _ => by omega, fun x _ y _ z _ hxy hyz => by omega⟩
  exact ⟨s, hsort 4 (by decide), hsorted⟩

end Pintos.Lib
