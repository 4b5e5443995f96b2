import Pintos.Threads.LockExclusion

/-! # The sort of `cond_signal`

`convar_compare` reads the front of the private semaphores of two waiters. A waiter is on
the list from the start of `cond_wait` and on its semaphore only after it has given the lock
up; in between, another thread can take the lock and sort the list.
-/

namespace Pintos.Threads

open Foundation Lib Function Option

/-- `convar_compare`, where the waiters lists of both private semaphores have a front. -/
def convarCompare (thread : ThreadRef → Thread) (asleep : ThreadRef → List ThreadRef)
    (a b : ThreadRef) : Bool :=
  decide ((thread ((asleep a).headD 0)).priority > (thread ((asleep b).headD 0)).priority)

/-- Every `list_front` that a sort of `ws` by `convar_compare` calls is on a list that is
not empty. -/
def FrontsExist (thread : ThreadRef → Thread) (asleep : ThreadRef → List ThreadRef)
    (ws : List ThreadRef) : Prop :=
  ∀ c ∈ listSortCalls (convarCompare thread asleep) ws, asleep c.1 ≠ [] ∧ asleep c.2 ≠ []

section Comparisons

variable {thread : ThreadRef → Thread} {asleep : ThreadRef → List ThreadRef}
  {ws : List ThreadRef}

lemma frontsExist_iff :
    FrontsExist thread asleep ws ↔ (2 ≤ ws.length → ∀ w ∈ ws, asleep w ≠ []) := by
  constructor
  · intro h hlen w hw
    obtain ⟨c, hc, hwc⟩ := mem_listSortCalls (convarCompare thread asleep) ws hlen w hw
    rcases hwc with rfl | rfl
    · exact (h c hc).1
    · exact (h c hc).2
  · intro h c hc
    by_cases hlen : 2 ≤ ws.length
    · have hmem := listSortCalls_within (convarCompare thread asleep) ws c hc
      exact ⟨h hlen c.1 hmem.1, h hlen c.2 hmem.2⟩
    · simp [listSortCalls_eq_nil _ ws (by omega)] at hc

/-- `cond_signal` panics in the sort exactly when a `list_front` is on an empty list. -/
lemma condSort_ne_none_iff : condSort thread asleep ws ≠ none ↔ FrontsExist thread asleep ws := by
  rw [frontsExist_iff]
  unfold condSort
  by_cases h : 2 ≤ ws.length ∧ ∃ w ∈ ws, asleep w = []
  · rw [if_pos h]
    obtain ⟨hlen, w, hw, hempty⟩ := h
    exact ⟨fun hne => absurd rfl hne, fun hall => absurd hempty (hall hlen w hw)⟩
  · rw [if_neg h]
    refine ⟨fun _ hlen w hw hempty => h ⟨hlen, w, hw, hempty⟩, fun _ => nofun⟩

end Comparisons

namespace LockExclusion

/-! ## Who sleeps on its private semaphore -/

/-- A thread that is blocked in `cond_wait` is on the waiters list of its semaphore. -/
def Asleep (s : State) : Prop := ∀ t, s.point t = .condWaiting → t ∈ (s.own t).waiters

namespace Asleep

variable {s : State} {t : ThreadRef} {p : Point}

lemma goto (h : Asleep s) (hp : p ≠ .condWaiting) : Asleep (s.goto t p) := by
  intro u hu
  simp only [State.goto, update_apply] at hu ⊢
  split at hu
  · exact absurd hu hp
  · exact h u hu

lemma up (h : Asleep s) (b : Bool) : Asleep (s.up t b) := by
  have hgoto : Asleep ({ s with sema := (s.sema.up s.less).1 }.goto t
      (if b then .condTesting else .outside)) := by
    refine goto h ?_
    split <;> exact nofun
  unfold State.up
  dsimp only
  split
  · exact hgoto
  · exact hgoto.goto nofun

lemma wait (h : Asleep s) (c : CondRef) : Asleep (s.wait t c) := by
  intro u hu
  simp only [State.wait, State.goto, update_apply] at hu ⊢
  split at hu
  · cases hu
  · next hne =>
      rw [if_neg hne]
      exact h u hu

lemma testOwn (h : Asleep s) : Asleep (s.testOwn t) := by
  intro u hu
  simp only [State.testOwn, State.goto, update_apply] at hu ⊢
  by_cases hut : u = t
  · subst hut
    rw [if_pos rfl] at hu ⊢
    by_cases hv : (s.own u).value = 0
    · rw [Semaphore.down_of_zero hv]
      exact mem_listInsertOrdered.mpr (.inl rfl)
    · simp [Semaphore.down_of_pos hv] at hu
  · rw [if_neg hut] at hu ⊢
    exact h u hu

lemma signalUp {w : ThreadRef} (h : Asleep s) : Asleep (s.signalUp t w) := by
  have hperm := (s.own w).up_waiters_perm s.less
  -- Only the semaphore of the signalled thread changes, and that thread moves on.
  have hout : ∀ u, s.point u = .condWaiting → ((s.own w).up s.less).2 ≠ some u →
      u ∈ (update s.own w ((s.own w).up s.less).1 u).waiters := by
    intro u hu hne
    have hmem := h u hu
    by_cases huw : u = w
    · subst huw
      rw [update_self]
      rcases List.mem_append.mp (hperm.mem_iff.mpr hmem) with hmem | hmem
      · exact absurd (mem_toList.mp hmem) hne
      · exact hmem
    · rwa [update_of_ne huw]
  unfold State.signalUp
  dsimp only
  cases hwoken : ((s.own w).up s.less).2 with
  | none =>
    intro u hu
    simp only [State.goto, update_apply] at hu
    split at hu
    · cases hu
    · exact hout u hu (by rw [hwoken]; exact nofun)
  | some v =>
    intro u hu
    simp only [State.goto, update_apply] at hu
    split at hu
    · cases hu
    · next huv =>
        split at hu
        · cases hu
        · exact hout u hu (by rw [hwoken]; exact fun h => huv (some.inj h).symm)

lemma step {s' : State} {a : Step} (h : Asleep s) (hs : s.step a = some s') : Asleep s' := by
  cases a <;> simp [State.step] at hs
  case acquire t | donate t | release t =>
    rcases hs with ⟨-, rfl⟩
    exact h.goto (by simp)
  case readHolder t =>
    rcases hs with ⟨-, rfl⟩
    refine h.goto ?_
    split <;> simp
  case test t =>
    rcases hs with ⟨-, rfl⟩
    refine goto (s := { s with sema := (s.sema.down s.less t).1 }) h ?_
    split <;> simp
  case setHolder t =>
    rcases hs with ⟨-, rfl⟩
    exact goto (s := { s with holder := some t }) h (by simp)
  case tryAcquire t =>
    rcases hs with ⟨-, rfl⟩
    refine goto (s := { s with sema := s.sema.tryDown.1 }) h ?_
    split <;> simp
  case clearHolder t =>
    split at hs <;> cases hs
    exact goto (s := { s with holder := none }) h (by simp)
  case up t =>
    split at hs <;> cases hs
    exact h.up _
  case wait t c =>
    rcases hs with ⟨-, rfl⟩
    exact h.wait c
  case testOwn t =>
    rcases hs with ⟨-, rfl⟩
    exact h.testOwn
  case signal t c =>
    simp only [State.signal] at hs
    rcases hs with ⟨-, hs⟩
    split at hs
    · cases hs
    · cases hs
      exact h
    · next w ws _ =>
        cases hs
        exact goto (s := { s with condWaiters := update s.condWaiters c ws }) h (by simp)
  case signalUp t =>
    split at hs <;> cases hs
    exact h.signalUp
  case setPriority t p =>
    subst hs
    exact h

end Asleep

lemma Start.asleep {s : State} (h : Start s) : Asleep s := by
  intro t ht
  simp [h.outside t] at ht

/-- Every `list_front` that a `cond_signal` on `c` would call is on a list that is not
empty. -/
def State.SortsSafely (s : State) (c : CondRef) : Prop :=
  FrontsExist s.thread (fun w => (s.own w).waiters) (s.condWaiters c)

/-- The sort is safe exactly when it has at most one waiter or all waiters sleep. -/
theorem reachable_sortsSafely_iff {s : State} (h : machine.Reachable s) (c : CondRef) :
    s.SortsSafely c ↔
      (2 ≤ (s.condWaiters c).length → ∀ w ∈ s.condWaiters c, s.point w = .condWaiting) := by
  have hinv : Ok s ∧ Asleep s := h.invariant (I := fun s => Ok s ∧ Asleep s)
    (fun _ hs => ⟨Start.ok hs, Start.asleep hs⟩) fun _ _ _ hI hs => ⟨hI.1.step hs, hI.2.step hs⟩
  have hiff : ∀ w, (s.own w).waiters ≠ [] ↔ s.point w = .condWaiting := by
    intro w
    constructor
    · intro hne
      obtain ⟨u, hu⟩ := List.exists_mem_of_ne_nil _ hne
      obtain ⟨rfl, hpoint⟩ := hinv.1.ownWaiting w u hu
      exact hpoint
    · intro hpoint
      exact List.ne_nil_of_mem (hinv.2 w hpoint)
  unfold State.SortsSafely
  rw [frontsExist_iff]
  simp only [hiff]

/-- A thread takes the lock and calls `cond_wait`, up to its test of the semaphore. -/
def enters (t : ThreadRef) (c : CondRef) : List Step :=
  [.acquire t, .readHolder t, .test t, .setHolder t, .wait t c, .clearHolder t, .up t]

/-- Two threads that have both gone to sleep. -/
theorem reachable_sortsSafely_unused :
    ∃ s, machine.run unused (enters 1 0 ++ [.testOwn 1] ++ enters 2 0 ++ [.testOwn 2]) = some s ∧
      machine.Reachable s ∧ s.condWaiters 0 = [1, 2] ∧ s.SortsSafely 0 := by
  obtain ⟨s, hs, hlist, h1, h2⟩ : ∃ s,
      machine.run unused (enters 1 0 ++ [.testOwn 1] ++ enters 2 0 ++ [.testOwn 2]) = some s ∧
      s.condWaiters 0 = [1, 2] ∧ s.point 1 = .condWaiting ∧ s.point 2 = .condWaiting :=
    ⟨_, rfl, rfl, rfl, rfl⟩
  have hreach := Machine.reachable_run (.start unused_start) hs
  refine ⟨s, hs, hreach, hlist, (reachable_sortsSafely_iff hreach 0).mpr fun _ w hw => ?_⟩
  rw [hlist] at hw
  rcases List.mem_cons.mp hw with rfl | hw
  · exact h1
  · rw [List.mem_singleton.mp hw]
    exact h2

/-- Thread 2 has given the lock up in `cond_wait` and does not sleep yet: thread 3 panics. -/
theorem signal_panics_before_sleep :
    ∃ s, machine.run unused (enters 1 0 ++ [.testOwn 1] ++ enters 2 0 ++
        [.acquire 3, .readHolder 3, .test 3, .setHolder 3]) = some s ∧ machine.Reachable s ∧
      s.condWaiters 0 = [1, 2] ∧ s.point 2 = .condTesting ∧ s.point 3 = .holding ∧
      s.holder = some 3 ∧ s.step (.signal 3 0) = none ∧ ¬ s.SortsSafely 0 := by
  obtain ⟨s, hs, hlist, h2, h3, hholder, hstep, hown⟩ : ∃ s,
      machine.run unused (enters 1 0 ++ [.testOwn 1] ++ enters 2 0 ++
        [.acquire 3, .readHolder 3, .test 3, .setHolder 3]) = some s ∧
      s.condWaiters 0 = [1, 2] ∧ s.point 2 = .condTesting ∧ s.point 3 = .holding ∧
      s.holder = some 3 ∧ s.step (.signal 3 0) = none ∧ (s.own 2).waiters = [] :=
    ⟨_, rfl, rfl, rfl, rfl, rfl, rfl, rfl⟩
  refine ⟨s, hs, Machine.reachable_run (.start unused_start) hs, hlist, h2, h3, hholder, hstep,
    fun h => ?_⟩
  have hsafe := frontsExist_iff.mp h
  rw [hlist] at hsafe
  exact hsafe (Nat.le_refl 2) 2 (by simp) hown

end LockExclusion

end Pintos.Threads
