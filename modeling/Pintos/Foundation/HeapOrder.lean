import Mathlib.Data.List.Nodup
import Mathlib.Data.List.Range
import Mathlib.Logic.Equiv.Basic

/-!
# Heaps in arrays

An array is a function from positions to values, of which those from 1 on count. The children
of node `i` are `2 * i` and `2 * i + 1`. A heap with one node that may be too small is
repaired by swapping that node with its largest child until it is in place; taking the root
away again and again sorts the array from its end.
-/

namespace Pintos.Foundation

open List

variable {α : Type*}

/-- `g` has the values of `f` in another order, where only positions `lo` to `hi` change. -/
def Rearranged (f g : Nat → α) (lo hi : Nat) : Prop :=
  ∃ σ : Equiv.Perm Nat, (∀ n, n < lo ∨ hi < n → σ n = n) ∧ g = f ∘ σ

namespace Rearranged

variable {f g h : Nat → α} {lo hi : Nat}

lemma refl (f : Nat → α) (lo hi : Nat) : Rearranged f f lo hi :=
  ⟨Equiv.refl Nat, fun _ _ => rfl, rfl⟩

lemma trans (hfg : Rearranged f g lo hi) (hgh : Rearranged g h lo hi) : Rearranged f h lo hi := by
  obtain ⟨σ, hσ, rfl⟩ := hfg
  obtain ⟨τ, hτ, rfl⟩ := hgh
  refine ⟨τ.trans σ, fun n hn => ?_, rfl⟩
  rw [Equiv.trans_apply, hτ n hn, hσ n hn]

lemma mono {lo' hi' : Nat} (hfg : Rearranged f g lo hi) (hlo : lo' ≤ lo) (hhi : hi ≤ hi') :
    Rearranged f g lo' hi' := by
  obtain ⟨σ, hσ, rfl⟩ := hfg
  exact ⟨σ, fun n hn => hσ n (by omega), rfl⟩

lemma swap (f : Nat → α) {i j : Nat} (hloi : lo ≤ i) (hihi : i ≤ hi) (hloj : lo ≤ j)
    (hjhi : j ≤ hi) : Rearranged f (f ∘ Equiv.swap i j) lo hi := by
  refine ⟨Equiv.swap i j, fun n hn => ?_, rfl⟩
  exact Equiv.swap_apply_of_ne_of_ne (by omega) (by omega)

lemma outside (hfg : Rearranged f g lo hi) {n : Nat} (hn : n < lo ∨ hi < n) : g n = f n := by
  obtain ⟨σ, hσ, rfl⟩ := hfg
  exact congrArg f (hσ n hn)

lemma inside (hfg : Rearranged f g lo hi) {n : Nat} (hlo : lo ≤ n) (hhi : n ≤ hi) :
    ∃ m, lo ≤ m ∧ m ≤ hi ∧ g n = f m := by
  obtain ⟨σ, hσ, rfl⟩ := hfg
  by_cases hout : σ n < lo ∨ hi < σ n
  · have hfix := σ.injective (hσ (σ n) hout)
    omega
  · exact ⟨σ n, by omega, by omega, rfl⟩

lemma perm {n : Nat} (hfg : Rearranged f g 1 n) :
    ((range' 1 n).map g).Perm ((range' 1 n).map f) := by
  obtain ⟨σ, hσ, rfl⟩ := hfg
  have hinside : ∀ m, 1 ≤ m ∧ m ≤ n → 1 ≤ σ m ∧ σ m ≤ n := by
    intro m hm
    by_contra hout
    have hfix := σ.injective (hσ (σ m) (by omega))
    omega
  have hperm : ((range' 1 n).map σ).Perm (range' 1 n) := by
    refine (perm_ext_iff_of_nodup (Nodup.map σ.injective nodup_range') nodup_range').mpr fun m => ?_
    rw [mem_map, mem_range'_1]
    constructor
    · rintro ⟨k, hk, rfl⟩
      rw [mem_range'_1] at hk
      have hk' := hinside k (by omega)
      omega
    · intro hm
      refine ⟨σ.symm m, ?_, σ.apply_symm_apply m⟩
      rw [mem_range'_1]
      by_contra hout
      have hfix := hσ (σ.symm m) (by omega)
      rw [σ.apply_symm_apply] at hfix
      omega
  rw [← map_map]
  exact hperm.map f

end Rearranged

def IsChild (c i : Nat) : Prop := c = 2 * i ∨ c = 2 * i + 1

/-- Among the first `cnt` nodes no child of a node from `k` on is larger than it. -/
def HeapFrom (le : α → α → Prop) (f : Nat → α) (k cnt : Nat) : Prop :=
  ∀ i c, k ≤ i → c ≤ cnt → IsChild c i → le (f c) (f i)

/-- The same except that node `hole` may be smaller than its children, which are not larger
than its parent. -/
structure HeapExcept (le : α → α → Prop) (f : Nat → α) (k cnt hole : Nat) : Prop where
  pairs : ∀ i c, k ≤ i → i ≠ hole → c ≤ cnt → IsChild c i → le (f c) (f i)
  across : ∀ p c, k ≤ p → IsChild hole p → c ≤ cnt → IsChild c hole → le (f c) (f p)

section Heaps

variable {le : α → α → Prop} {f g : Nat → α} {k cnt i m : Nat}

/-- The nodes of the second half have no children. -/
lemma heapFrom_half (le : α → α → Prop) (f : Nat → α) (cnt : Nat) :
    HeapFrom le f (cnt / 2 + 1) cnt := by
  intro i c hi hc hchild
  unfold IsChild at hchild
  omega

lemma HeapFrom.except (h : HeapFrom le f (k + 1) cnt) (hk : 1 ≤ k) : HeapExcept le f k cnt k where
  pairs i c hki hne hc hchild := h i c (by omega) hc hchild
  across p c hkp hchild _ _ := by
    unfold IsChild at hchild
    omega

/-- The node is in place if it is not smaller than its children. -/
lemma HeapExcept.heapFrom (h : HeapExcept le f k cnt i)
    (hstop : ∀ c, c ≤ cnt → IsChild c i → le (f c) (f i)) : HeapFrom le f k cnt := by
  intro j c hkj hc hchild
  by_cases hj : j = i
  · subst hj
    exact hstop c hc hchild
  · exact h.pairs j c hkj hj hc hchild

/-- Otherwise it changes places with its largest child. -/
lemma HeapExcept.swap (h : HeapExcept le f k cnt i) (hk : 1 ≤ k) (hki : k ≤ i)
    (hm : IsChild m i) (hlarger : le (f i) (f m))
    (hmax : ∀ c, c ≤ cnt → IsChild c i → le (f c) (f m)) (hcnt : m ≤ cnt) :
    HeapExcept le (f ∘ Equiv.swap i m) k cnt m := by
  have him : i < m := by
    unfold IsChild at hm
    omega
  have hat : ∀ n, n ≠ i → n ≠ m → (f ∘ Equiv.swap i m) n = f n := fun n hni hnm =>
    congrArg f (Equiv.swap_apply_of_ne_of_ne hni hnm)
  have hi : (f ∘ Equiv.swap i m) i = f m := congrArg f (Equiv.swap_apply_left i m)
  have hm' : (f ∘ Equiv.swap i m) m = f i := congrArg f (Equiv.swap_apply_right i m)
  constructor
  · intro j c hkj hjm hc hchild
    by_cases hji : j = i
    · subst hji
      rw [hi]
      by_cases hcm : c = m
      · rwa [hcm, hm']
      · rw [hat c (by unfold IsChild at hchild; omega) hcm]
        exact hmax c hc hchild
    · rw [hat j hji hjm]
      by_cases hci : c = i
      · rw [hci] at hchild ⊢
        rw [hi]
        exact h.across j m hkj hchild hcnt hm
      · rw [hat c hci (by unfold IsChild at hchild hm; omega)]
        exact h.pairs j c hkj hji hc hchild
  · intro p c hkp hchild hc hcm
    obtain rfl : p = i := by
      unfold IsChild at hchild hm
      omega
    rw [hi, hat c (by unfold IsChild at hcm; omega) (by unfold IsChild at hcm; omega)]
    exact h.pairs m c (by omega) (by omega) hc hcm

lemma HeapFrom.le_root (h : HeapFrom le f 1 cnt) (hrefl : ∀ x, le x x)
    (htrans : ∀ x y z, le x y → le y z → le x z) {n : Nat} (hpos : 1 ≤ n) (hn : n ≤ cnt) :
    le (f n) (f 1) := by
  induction n using Nat.strong_induction_on with
  | _ n ih =>
    by_cases hone : n = 1
    · rw [hone]
      exact hrefl _
    · have hparent := h (n / 2) n (by omega) hn (by unfold IsChild; omega)
      exact htrans _ _ _ hparent (ih (n / 2) (by omega) (by omega) (by omega))

lemma HeapFrom.swap_root (h : HeapFrom le f 1 (cnt + 1)) :
    HeapExcept le (f ∘ Equiv.swap 1 (cnt + 1)) 1 cnt 1 where
  pairs i c hi hne hc hchild := by
    have hc1 : c ≠ 1 := by
      unfold IsChild at hchild
      omega
    have hic : i ≤ cnt := by
      unfold IsChild at hchild
      omega
    rw [Function.comp_apply, Function.comp_apply,
      Equiv.swap_apply_of_ne_of_ne hc1 (by omega), Equiv.swap_apply_of_ne_of_ne hne (by omega)]
    exact h i c hi (by omega) hchild
  across p c hp hchild _ _ := by
    unfold IsChild at hchild
    omega

/-- The values behind position `i` are in order and not smaller than those before. -/
def SortedBehind (le : α → α → Prop) (f : Nat → α) (i cnt : Nat) : Prop :=
  ∀ a b, 1 ≤ a → a < b → i < b → b ≤ cnt → le (f a) (f b)

lemma SortedBehind.rearranged (h : SortedBehind le f i cnt) (hfg : Rearranged f g 1 i) :
    SortedBehind le g i cnt := by
  intro a b ha hab hib hb
  rw [hfg.outside (.inr hib)]
  by_cases hai : a ≤ i
  · obtain ⟨a', ha', hle, heq⟩ := hfg.inside ha hai
    rw [heq]
    exact h a' b ha' (by omega) hib hb
  · rw [hfg.outside (.inr (by omega))]
    exact h a b ha hab hib hb

lemma SortedBehind.swap_root (h : SortedBehind le f (i + 1) cnt)
    (hroot : ∀ n, 1 ≤ n → n ≤ i + 1 → le (f n) (f 1)) :
    SortedBehind le (f ∘ Equiv.swap 1 (i + 1)) i cnt := by
  have hswap : Rearranged f (f ∘ Equiv.swap 1 (i + 1)) 1 (i + 1) :=
    .swap f (Nat.le_refl 1) (by omega) (by omega) (Nat.le_refl (i + 1))
  intro a b ha hab hib hb
  by_cases hbi : b = i + 1
  · obtain ⟨a', ha', hle, heq⟩ := hswap.inside ha (by omega)
    rw [heq, hbi, Function.comp_apply, Equiv.swap_apply_right]
    exact hroot a' ha' hle
  · exact (h.rearranged hswap) a b ha hab (by omega) hb

lemma SortedBehind.pairwise (h : SortedBehind le f 1 cnt) : ((range' 1 cnt).map f).Pairwise le := by
  rw [pairwise_map]
  refine (pairwise_lt_range').imp_of_mem fun {a b} ha hb hab => ?_
  rw [mem_range'_1] at ha hb
  exact h a b ha.1 hab (by omega) (by omega)

end Heaps

end Pintos.Foundation
