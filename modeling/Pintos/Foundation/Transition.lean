import Mathlib.Logic.Basic

/-! # Labelled machines and their runs

A machine takes one step per label; a label that is not enabled in a state has no
successor there. Which thread moves and what it does is part of the label, so a list of
labels is an interleaving, and a statement about every list is one about every
interleaving. The rules at the end are the only inductions over runs: each result about
a machine is proved from what a single step does.
-/

namespace Pintos.Foundation

universe u v

structure Machine (σ : Type u) (α : Type v) where
  start : σ → Prop
  step : σ → α → Option σ

namespace Machine

variable {σ : Type u} {α : Type v} (m : Machine σ α)

/-- The state after a list of labels, if each was enabled in its turn. -/
def run : σ → List α → Option σ
  | s, [] => some s
  | s, a :: as =>
      match m.step s a with
      | some s' => run s' as
      | none => none

/-- The states that runs from a start state reach. -/
inductive Reachable : σ → Prop
  | start {s : σ} (h : m.start s) : Reachable s
  | step {s s' : σ} {a : α} (h : Reachable s) (hs : m.step s a = some s') : Reachable s'

/-- `R` relates the states before and after every step of a run. -/
def EachStep (R : σ → α → σ → Prop) : σ → List α → Prop
  | _, [] => True
  | s, a :: as => ∀ s', m.step s a = some s' → R s a s' ∧ EachStep R s' as

def Throughout (P : σ → Prop) (s : σ) (as : List α) : Prop :=
  P s ∧ m.EachStep (fun _ _ s' => P s') s as

/-- Every step of a run is taken in a state that meets the condition `G` for its label. -/
def Meets (G : σ → α → Prop) (s : σ) (as : List α) : Prop :=
  m.EachStep (fun s a _ => G s a) s as

/-- Every label of a list meets `G` in the state in which its turn comes, whether it is enabled
there or not. -/
def OnTurn (G : σ → α → Prop) : σ → List α → Prop
  | _, [] => True
  | s, a :: as => G s a ∧ ∀ s', m.step s a = some s' → OnTurn G s' as

/-- A run of an executable machine can be checked step by step. -/
instance decidableEachStep (R : σ → α → σ → Prop) [∀ s a s', Decidable (R s a s')] :
    ∀ (s : σ) (as : List α), Decidable (m.EachStep R s as)
  | _, [] => isTrue trivial
  | s, a :: as =>
    match h : m.step s a with
    | none => isTrue fun s' hs' => by rw [h] at hs'; cases hs'
    | some s' =>
      have := decidableEachStep R s' as
      decidable_of_iff (R s a s' ∧ m.EachStep R s' as) <| by
        constructor
        · intro hR s'' hs''
          rw [h] at hs''
          cases hs''
          exact hR
        · intro hR
          exact hR s' h

instance decidableMeets (G : σ → α → Prop) [∀ s a, Decidable (G s a)] (s : σ) (as : List α) :
    Decidable (m.Meets G s as) :=
  m.decidableEachStep (fun s a _ => G s a) s as

variable {m}

lemma run_cons_of_step {s s' : σ} {a : α} {as : List α} (h : m.step s a = some s') :
    m.run s (a :: as) = m.run s' as := by
  simp only [run, h]

lemma step_of_run_cons {s s' : σ} {a : α} {as : List α} (h : m.run s (a :: as) = some s') :
    ∃ s₁, m.step s a = some s₁ ∧ m.run s₁ as = some s' := by
  cases ha : m.step s a with
  | none => simp [run, ha] at h
  | some s₁ => exact ⟨s₁, rfl, run_cons_of_step ha ▸ h⟩

lemma reachable_run {s s' : σ} {as : List α} (hs : m.Reachable s)
    (h : m.run s as = some s') : m.Reachable s' := by
  induction as generalizing s with
  | nil =>
    cases h
    exact hs
  | cons a as ih =>
    obtain ⟨s₁, ha, h⟩ := step_of_run_cons h
    exact ih (hs.step ha) h

lemma Throughout.last {P : σ → Prop} {s s' : σ} {as : List α} (h : m.Throughout P s as)
    (hrun : m.run s as = some s') : P s' := by
  induction as generalizing s with
  | nil =>
    cases hrun
    exact h.1
  | cons a as ih =>
    obtain ⟨s₁, ha, hrun⟩ := step_of_run_cons hrun
    exact ih (h.2 s₁ ha) hrun

lemma EachStep.and {Q R : σ → α → σ → Prop} {s : σ} {as : List α} (hQ : m.EachStep Q s as)
    (hR : m.EachStep R s as) : m.EachStep (fun s a s' => Q s a s' ∧ R s a s') s as := by
  induction as generalizing s with
  | nil => trivial
  | cons a as ih =>
    intro s' hs'
    exact ⟨⟨(hQ s' hs').1, (hR s' hs').1⟩, ih (hQ s' hs').2 (hR s' hs').2⟩

/-- What holds at the start and is kept by every step holds in every reachable state. -/
lemma Reachable.invariant {I : σ → Prop} (hstart : ∀ s, m.start s → I s)
    (hstep : ∀ s a s', I s → m.step s a = some s' → I s') {s : σ} (h : m.Reachable s) : I s := by
  induction h with
  | start h => exact hstart _ h
  | step _ hs ih => exact hstep _ _ _ ih hs

/-- Steps that satisfy `G` satisfy `R`, if they do so from an invariant that they keep. -/
lemma EachStep.imp {I : σ → Prop} {G R : σ → α → σ → Prop}
    (hstep : ∀ s a s', I s → m.step s a = some s' → G s a s' → R s a s' ∧ I s')
    {s : σ} {as : List α} (hs : I s) (h : m.EachStep G s as) : m.EachStep R s as := by
  induction as generalizing s with
  | nil => trivial
  | cons a as ih =>
    intro s' hs'
    have hG := h s' hs'
    have hR := hstep s a s' hs hs' hG.1
    exact ⟨hR.1, ih hR.2 hG.2⟩

/-- A property preserved exactly under a condition holds throughout exactly when all steps meet it.
-/
lemma throughout_iff_meets {I P : σ → Prop} {G : σ → α → Prop}
    (hinv : ∀ s a s', I s → m.step s a = some s' → I s')
    (hstep : ∀ s a s', I s → P s → m.step s a = some s' → (P s' ↔ G s a))
    {s : σ} {as : List α} (hI : I s) (hP : P s) : m.Throughout P s as ↔ m.Meets G s as := by
  constructor
  · rintro ⟨-, h⟩
    refine EachStep.imp (I := fun s => I s ∧ P s) ?_ ⟨hI, hP⟩ h
    rintro s a s' ⟨hI, hP⟩ hs hP'
    exact ⟨(hstep s a s' hI hP hs).mp hP', hinv s a s' hI hs, hP'⟩
  · intro h
    refine ⟨hP, EachStep.imp (I := fun s => I s ∧ P s) ?_ ⟨hI, hP⟩ h⟩
    rintro s a s' ⟨hI, hP⟩ hs hG
    have hP' := (hstep s a s' hI hP hs).mpr hG
    exact ⟨hP', hinv s a s' hI hs, hP'⟩

lemma onTurn_congr {I : σ → Prop} {G H : σ → α → Prop}
    (hinv : ∀ s a s', I s → m.step s a = some s' → I s') (h : ∀ s a, I s → (G s a ↔ H s a))
    {s : σ} {as : List α} (hI : I s) : m.OnTurn G s as ↔ m.OnTurn H s as := by
  induction as generalizing s with
  | nil => exact Iff.rfl
  | cons a as ih =>
    refine and_congr (h s a hI) (forall₂_congr fun s' hs' => ?_)
    exact ih (hinv s a s' hI hs')

/-- A preorder that every permitted step from an invariant respects relates the ends of
every permitted run. -/
lemma run_rel {I : σ → Prop} {G : σ → α → Prop} {R : σ → σ → Prop} (hrefl : ∀ s, R s s)
    (htrans : ∀ s₁ s₂ s₃, R s₁ s₂ → R s₂ s₃ → R s₁ s₃)
    (hstep : ∀ s a s', I s → m.step s a = some s' → G s a → I s' ∧ R s s')
    {s s' : σ} {as : List α} (hs : I s) (hG : m.Meets G s as) (hrun : m.run s as = some s') :
    I s' ∧ R s s' := by
  induction as generalizing s with
  | nil =>
    cases hrun
    exact ⟨hs, hrefl _⟩
  | cons a as ih =>
    obtain ⟨s₁, ha, hrun⟩ := step_of_run_cons hrun
    obtain ⟨hmeets, hrest⟩ := hG s₁ ha
    obtain ⟨hs₁, hR⟩ := hstep s a s₁ hs ha hmeets
    obtain ⟨hs', hR'⟩ := ih hs₁ hrest hrun
    exact ⟨hs', htrans _ _ _ hR hR'⟩

end Machine

end Pintos.Foundation
