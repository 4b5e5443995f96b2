import Mathlib.Data.List.Chain
import Mathlib.Data.List.Nodup

/-!
# Doubly linked nodes

Nodes of any type with a link to the previous and to the next node, and chains of nodes
in which neighbours point to each other. A run of nodes can be cut out of a chain and put
in elsewhere by changing the links at its two ends; what every other link does is part of
the rules.
-/

namespace Pintos.Foundation

open List Option

universe u

/-- The two links of a node; `none` is the null pointer. -/
structure Link (N : Type u) where
  prev : Option N
  next : Option N
  deriving DecidableEq

abbrev Links (N : Type u) := N → Link N

namespace Links

variable {N : Type u}

def Linked (h : Links N) (a b : N) : Prop := (h a).next = some b ∧ (h b).prev = some a

variable {h h' : Links N} {l : List N}

lemma ext_at {n : N} (hp : (h' n).prev = (h n).prev) (hn : (h' n).next = (h n).next) :
    h' n = h n := by
  cases hh : h n
  cases hh' : h' n
  simp_all

lemma chain_congr (hl : l.IsChain h.Linked) (hn : ∀ a ∈ l.dropLast, (h' a).next = (h a).next)
    (hp : ∀ b ∈ l.tail, (h' b).prev = (h b).prev) : l.IsChain h'.Linked := by
  induction l with
  | nil => exact .nil
  | cons a l ih =>
    cases l with
    | nil => exact .singleton a
    | cons b l =>
      rw [isChain_cons_cons] at hl ⊢
      have hnext := hn a (by simp)
      have hprev := hp b (by simp)
      refine ⟨⟨hnext.trans hl.1.1, hprev.trans hl.1.2⟩, ih hl.2 ?_ ?_⟩
      · intro n hmem
        exact hn n (by rw [dropLast_cons_cons]; exact mem_cons_of_mem a hmem)
      · intro n hmem
        exact hp n (mem_of_mem_tail hmem)

/-- A chain whose links are exchanged at every node runs backwards. -/
lemma chain_reverse (hl : l.IsChain h.Linked) (hn : ∀ a ∈ l.dropLast, (h' a).prev = (h a).next)
    (hp : ∀ b ∈ l.tail, (h' b).next = (h b).prev) : l.reverse.IsChain h'.Linked := by
  have hmirror : l.IsChain (Linked fun n => ⟨(h' n).next, (h' n).prev⟩) := chain_congr hl hn hp
  rw [isChain_reverse]
  exact hmirror.imp fun a b hab => ⟨hab.2, hab.1⟩

lemma ne_of_mem_dropLast (hl : l.Nodup) {p : N} (hp : p ∈ l.getLast?) :
    ∀ n ∈ l.dropLast, n ≠ p := by
  obtain ⟨init, rfl⟩ := getLast?_eq_some_iff.mp hp
  rw [dropLast_concat]
  rintro n hn rfl
  exact (nodup_append.mp hl).2.2 n hn n (by simp) rfl

lemma ne_of_mem_tail (hl : l.Nodup) {q : N} (hq : q ∈ l.head?) : ∀ n ∈ l.tail, n ≠ q := by
  cases l with
  | nil => cases hq
  | cons a l =>
    cases hq
    rintro n hn rfl
    exact (nodup_cons.mp hl).1 hn

lemma apart_of_nodup {A rs B : List N} {p q : N} (hnodup : (A ++ (rs ++ B)).Nodup)
    (hp : p ∈ A) (hq : q ∈ B) : p ∉ rs ∧ p ∉ B ∧ q ∉ A ∧ q ∉ rs := by
  rw [nodup_append, nodup_append] at hnodup
  obtain ⟨-, ⟨-, -, hrsB⟩, hArest⟩ := hnodup
  refine ⟨fun hmem => ?_, fun hmem => ?_, fun hmem => ?_, fun hmem => hrsB q hmem q hq rfl⟩
  · exact hArest p hp p (mem_append_left B hmem) rfl
  · exact hArest p hp p (mem_append_right rs hmem) rfl
  · exact hArest q hmem q (mem_append_right rs hq) rfl

variable [DecidableEq N]

def setPrev (h : Links N) (n : N) (v : Option N) : Links N :=
  Function.update h n { h n with prev := v }

def setNext (h : Links N) (n : N) (v : Option N) : Links N :=
  Function.update h n { h n with next := v }

@[simp] lemma setPrev_prev (h : Links N) (n m : N) (v : Option N) :
    (h.setPrev n v m).prev = if m = n then v else (h m).prev := by
  by_cases hm : m = n <;> simp [setPrev, hm]

@[simp] lemma setPrev_next (h : Links N) (n m : N) (v : Option N) :
    (h.setPrev n v m).next = (h m).next := by
  by_cases hm : m = n <;> simp [setPrev, hm]

@[simp] lemma setNext_next (h : Links N) (n m : N) (v : Option N) :
    (h.setNext n v m).next = if m = n then v else (h m).next := by
  by_cases hm : m = n <;> simp [setNext, hm]

@[simp] lemma setNext_prev (h : Links N) (n m : N) (v : Option N) :
    (h.setNext n v m).prev = (h m).prev := by
  by_cases hm : m = n <;> simp [setNext, hm]

/-- `first->prev->next = last->next; last->next->prev = first->prev`. -/
def unlink (h : Links N) (first last : N) : Option (Links N) :=
  match (h first).prev with
  | none => none
  | some p =>
      let h := h.setNext p (h last).next
      match (h last).next with
      | none => none
      | some q => some (h.setPrev q (h first).prev)

/-- `first->prev = before->prev; last->next = before; before->prev->next = first;
before->prev = last` -/
def linkBefore (h : Links N) (before first last : N) : Option (Links N) :=
  let h := h.setPrev first (h before).prev
  let h := h.setNext last (some before)
  match (h before).prev with
  | none => none
  | some p => some ((h.setNext p (some first)).setPrev before (some last))

section Runs

variable {h : Links N} {A rs B : List N} {p first last q : N}

/-- A run is cut out of a chain: both are chains, and only its neighbours are written to. -/
lemma unlink_spec (hchain : (A ++ (rs ++ B)).IsChain h.Linked)
    (hnodup : (A ++ (rs ++ B)).Nodup) (hp : p ∈ A.getLast?) (hf : first ∈ rs.head?)
    (hl : last ∈ rs.getLast?) (hq : q ∈ B.head?) :
    ∃ h', h.unlink first last = some h' ∧ (A ++ B).IsChain h'.Linked ∧
      rs.IsChain h'.Linked ∧ (∀ n, n ≠ q → (h' n).prev = (h n).prev) ∧
      ∀ n, n ≠ p → (h' n).next = (h n).next := by
  have hpA := mem_of_getLast? hp
  have hqB := mem_of_head? hq
  have hlrs := mem_of_getLast? hl
  rw [isChain_append, isChain_append] at hchain
  obtain ⟨hA, ⟨hrs, hB, hlq⟩, hpf⟩ := hchain
  have hpf := hpf p hp first (by rw [head?_append]; simp_all)
  have hlq := hlq last hl q hq
  obtain ⟨hprs, hpB, hqA, hqrs⟩ := apart_of_nodup hnodup hpA hqB
  rw [nodup_append, nodup_append] at hnodup
  obtain ⟨hAn, ⟨-, hBn, -⟩, -⟩ := hnodup
  have hlp : last ≠ p := fun heq => hprs (heq ▸ hlrs)
  have hprev : ∀ n, n ≠ q → (((h.setNext p (some q)).setPrev q (some p)) n).prev = (h n).prev := by
    intro n hn
    simp [hn]
  have hnext : ∀ n, n ≠ p → (((h.setNext p (some q)).setPrev q (some p)) n).next = (h n).next := by
    intro n hn
    simp [hn]
  refine ⟨(h.setNext p (some q)).setPrev q (some p), ?_, ?_, ?_, hprev, hnext⟩
  · unfold unlink
    simp [hpf.2, hlq.1, hlp]
  · rw [isChain_append]
    refine ⟨?_, ?_, ?_⟩
    · refine chain_congr hA (fun n hn => hnext n (ne_of_mem_dropLast hAn hp n hn)) ?_
      intro n hn
      exact hprev n fun heq => hqA (heq ▸ mem_of_mem_tail hn)
    · refine chain_congr hB (fun n hn => hnext n fun heq => ?_) fun n hn =>
        hprev n (ne_of_mem_tail hBn hq n hn)
      exact hpB (heq ▸ dropLast_subset _ hn)
    · intro a ha b hb
      rw [mem_unique ha hp, mem_unique hb hq]
      simp [Linked]
  · refine chain_congr hrs (fun n hn => hnext n fun heq => ?_) fun n hn => hprev n fun heq => ?_
    · exact hprs (heq ▸ dropLast_subset _ hn)
    · exact hqrs (heq ▸ mem_of_mem_tail hn)

/-- A run that is a chain of its own is put into a chain. -/
lemma linkBefore_spec (hchain : (A ++ B).IsChain h.Linked) (hrs : rs.IsChain h.Linked)
    (hnodup : (A ++ (rs ++ B)).Nodup) (hp : p ∈ A.getLast?) (hf : first ∈ rs.head?)
    (hl : last ∈ rs.getLast?) (hq : q ∈ B.head?) :
    ∃ h', h.linkBefore q first last = some h' ∧ (A ++ (rs ++ B)).IsChain h'.Linked ∧
      (∀ n, n ≠ q → n ∉ rs → (h' n).prev = (h n).prev) ∧
      ∀ n, n ≠ p → n ∉ rs → (h' n).next = (h n).next := by
  have hpA := mem_of_getLast? hp
  have hqB := mem_of_head? hq
  have hfrs := mem_of_head? hf
  have hlrs := mem_of_getLast? hl
  rw [isChain_append] at hchain
  obtain ⟨hA, hB, hpq⟩ := hchain
  have hpq := hpq p hp q hq
  obtain ⟨hprs, hpB, hqA, hqrs⟩ := apart_of_nodup hnodup hpA hqB
  rw [nodup_append, nodup_append] at hnodup
  obtain ⟨hAn, ⟨hrsn, hBn, hrsB⟩, hArest⟩ := hnodup
  have hqf : q ≠ first := fun heq => hqrs (heq ▸ hfrs)
  have hlp : last ≠ p := fun heq => hprs (heq ▸ hlrs)
  obtain ⟨h', hh'⟩ : ∃ h', h' = (((h.setPrev first (some p)).setNext last (some q)).setNext p
      (some first)).setPrev q (some last) := ⟨_, rfl⟩
  have hprev : ∀ n, (h' n).prev =
      if n = q then some last else if n = first then some p else (h n).prev := by
    intro n
    simp [hh']
  have hnext : ∀ n, (h' n).next =
      if n = p then some first else if n = last then some q else (h n).next := by
    intro n
    simp [hh']
  have hprev' : ∀ n, n ≠ q → n ≠ first → (h' n).prev = (h n).prev := by
    intro n hn hn'
    rw [hprev, if_neg hn, if_neg hn']
  have hnext' : ∀ n, n ≠ p → n ≠ last → (h' n).next = (h n).next := by
    intro n hn hn'
    rw [hnext, if_neg hn, if_neg hn']
  refine ⟨h', ?_, ?_, ?_, ?_⟩
  · unfold linkBefore
    simp [hpq.2, hqf, hh']
  · have hA' : A.IsChain h'.Linked := by
      refine chain_congr hA (fun n hn => ?_) fun n hn => ?_
      · refine hnext' n (ne_of_mem_dropLast hAn hp n hn) fun heq => ?_
        exact hArest n (dropLast_subset _ hn) last (by simp [hlrs]) heq
      · have hmem := mem_of_mem_tail hn
        refine hprev' n (fun heq => hqA (heq ▸ hmem)) fun heq => ?_
        exact hArest n hmem first (by simp [hfrs]) heq
    have hB' : B.IsChain h'.Linked := by
      refine chain_congr hB (fun n hn => ?_) fun n hn => ?_
      · have hmem := dropLast_subset _ hn
        refine hnext' n (fun heq => hpB (heq ▸ hmem)) fun heq => ?_
        exact hrsB last hlrs n hmem heq.symm
      · refine hprev' n (ne_of_mem_tail hBn hq n hn) fun heq => ?_
        exact hrsB first hfrs n (mem_of_mem_tail hn) heq.symm
    have hrs' : rs.IsChain h'.Linked := by
      refine chain_congr hrs (fun n hn => ?_) fun n hn => ?_
      · refine hnext' n (fun heq => ?_) (ne_of_mem_dropLast hrsn hl n hn)
        exact hprs (heq ▸ dropLast_subset _ hn)
      · refine hprev' n (fun heq => ?_) (ne_of_mem_tail hrsn hf n hn)
        exact hqrs (heq ▸ mem_of_mem_tail hn)
    rw [isChain_append, isChain_append]
    refine ⟨hA', ⟨hrs', hB', ?_⟩, ?_⟩
    · intro a ha b hb
      rw [mem_unique ha hl, mem_unique hb hq]
      exact ⟨by rw [hnext, if_neg hlp, if_pos rfl], by rw [hprev, if_pos rfl]⟩
    · intro a ha b hb
      have hb' : b ∈ rs.head? := by
        rw [head?_append] at hb
        simp_all
      rw [mem_unique ha hp, mem_unique hb' hf]
      exact ⟨by rw [hnext, if_pos rfl], by rw [hprev, if_neg hqf.symm, if_pos rfl]⟩
  · intro n hn hrs
    exact hprev' n hn fun heq => hrs (heq ▸ hfrs)
  · intro n hn hrs
    exact hnext' n hn fun heq => hrs (heq ▸ hlrs)

end Runs

end Links

end Pintos.Foundation
