import Pintos.Lib.InPlaceSort
import Pintos.Threads.Dispatch

/-! # Who is woken first

`sema_up` sorts the waiters by their present priorities before it takes the first one, and
`cond_signal` sorts the waiters of a condition variable by the priorities of the threads that
sleep on their private semaphores. Both lists may be in any order before.
-/

namespace Pintos.Threads

open Foundation Lib Function

/-- `w` is taken off `before` and no element of it has a higher priority. -/
structure Picks (prio : ThreadRef → Int) (before : List ThreadRef) (w : ThreadRef)
    (after : List ThreadRef) : Prop where
  perm : (w :: after).Perm before
  highest : ∀ u ∈ before, prio u ≤ prio w

lemma Sync.weakOrder_elemLess (s : Sync) : WeakOrder s.elemLess :=
  weakOrder_key fun t => (s.thread t).priority

lemma exists_picks (prio : ThreadRef → Int) {ws : List ThreadRef} (hne : ws ≠ []) :
    ∃ w rest, listSort (fun a b => decide (prio a > prio b)) ws = w :: rest ∧
      Picks prio ws w rest := by
  have hperm := listSort_perm (fun a b => decide (prio a > prio b)) ws
  cases hsort : listSort (fun a b => decide (prio a > prio b)) ws with
  | nil =>
    rw [hsort] at hperm
    exact absurd hperm.symm.eq_nil hne
  | cons w rest =>
    rw [hsort] at hperm
    refine ⟨w, rest, rfl, hperm, ?_⟩
    intro u hu
    have hfront := listSort_front (weakOrder_key prio) hsort u hu
    simp only [decide_eq_false_iff_not] at hfront
    omega

variable {s : Sync} {sema : Semaphore} {h : Links ThreadRef} {list : ListHdr ThreadRef} {fuel : Nat}

/-- A thread that finds the value zero links itself into the waiters where `down` puts it in
their sequence. -/
lemma Semaphore.down_linked {cur : ThreadRef} (hr : list.Represents h sema.waiters)
    (hzero : sema.value = 0) (hfresh : cur ∉ list.cells sema.waiters)
    (hfuel : sema.waiters.length < fuel) :
    ∃ h', InPlace.listInsertOrdered s.elemLess fuel h list cur = some h' ∧
      list.Represents h' (sema.down s.elemLess cur).1.waiters := by
  obtain ⟨h', hinsert, hrep, -⟩ := InPlace.listInsertOrdered_spec hr hfresh hfuel
  refine ⟨h', hinsert, ?_⟩
  rwa [down_of_zero hzero]

/-- The list operations of `sema_up` on the linked list of the waiters do what `up` does to
their sequence. -/
lemma Semaphore.up_linked (hr : list.Represents h sema.waiters) (hne : sema.waiters ≠ [])
    (hfuel : sema.waiters.length < fuel) :
    ∃ h' h'' w, InPlace.listSort s.elemLess fuel h list = some h' ∧
      listPopFront h' list = some (h'', w) ∧ (sema.up s.elemLess).2 = some w ∧
      list.Represents h'' (sema.up s.elemLess).1.waiters := by
  obtain ⟨h', hsort, hrep, -⟩ := InPlace.listSort_spec s.weakOrder_elemLess hr hfuel
  unfold up
  cases hout : listSort s.elemLess sema.waiters with
  | nil =>
    have hperm := listSort_perm s.elemLess sema.waiters
    rw [hout] at hperm
    exact absurd hperm.symm.eq_nil hne
  | cons w ws =>
    rw [hout] at hrep
    obtain ⟨h'', hpop, hrep', -⟩ := hrep.listPopFront
    exact ⟨h', h'', w, hsort, hpop, rfl, hrep'⟩

namespace Kernel

/-- `sema_up` on `r` has unblocked `w`, which waited there, and nobody else. -/
structure Wakes (k k' : Kernel) (r : SemaRef) (w : ThreadRef) (ws : List ThreadRef) : Prop where
  sema : k'.sema = Function.update k.sema r ⟨((k.sema r).value + 1) % 2 ^ 32, ws⟩
  status : k'.status = Function.update k.status w .ready
  ready : k'.readyList = listInsertOrdered k.elemLess w k.readyList

variable {r : SemaRef}

lemma semaUp_wakes (k : Kernel) (hne : (k.sema r).waiters ≠ []) :
    ∃ w ws, Picks k.prio (k.sema r).waiters w ws ∧ Wakes k (k.semaUp r) r w ws := by
  obtain ⟨w, ws, hsort, hpicks⟩ := exists_picks k.prio hne
  refine ⟨w, ws, hpicks, ?_⟩
  have hup : (k.sema r).up k.elemLess = (⟨((k.sema r).value + 1) % 2 ^ 32, ws⟩, some w) := by
    have hsort' : listSort k.elemLess (k.sema r).waiters = w :: ws := hsort
    unfold Semaphore.up
    rw [hsort']
  unfold semaUp Sync.semaUp
  dsimp only
  rw [hup]
  exact ⟨rfl, rfl, rfl⟩

lemma semaUp_wakes_only (k : Kernel) {w : ThreadRef} (hw : (k.sema r).waiters = [w]) :
    Wakes k (k.semaUp r) r w [] := by
  obtain ⟨v, vs, hpicks, hwakes⟩ := k.semaUp_wakes (r := r) (by rw [hw]; exact nofun)
  have hperm := hpicks.perm
  rw [hw, List.perm_singleton, List.cons.injEq] at hperm
  obtain ⟨rfl, rfl⟩ := hperm
  exact hwakes

lemma condSignal_picks (k : Kernel) {c : CondRef} (hne : k.condWaiters c ≠ [])
    (hasleep : ∀ w ∈ k.condWaiters c, (k.sema (.waiter w)).waiters = [w]) :
    ∃ w ws, Picks k.prio (k.condWaiters c) w ws ∧
      k.condSignal c =
        some ({ k with condWaiters := update k.condWaiters c ws }.setPending k.current
          (.up (.waiter w) :: .check :: k.pending k.current)) := by
  have hprio : ∀ u ∈ k.condWaiters c,
      (k.thread ((k.sema (.waiter u)).waiters.headD 0)).priority = k.prio u := by
    intro u hu
    rw [hasleep u hu]
    rfl
  have hnot : ¬ (2 ≤ (k.condWaiters c).length ∧
      ∃ w ∈ k.condWaiters c, (k.sema (.waiter w)).waiters = []) := by
    rintro ⟨-, w, hw, hempty⟩
    simp [hasleep w hw] at hempty
  obtain ⟨w, ws, hsort, hperm, hhighest⟩ := exists_picks
    (fun u => (k.thread ((k.sema (.waiter u)).waiters.headD 0)).priority) hne
  refine ⟨w, ws, ⟨hperm, ?_⟩, ?_⟩
  · intro u hu
    have hle := hhighest u hu
    rwa [hprio u hu, hprio w (hperm.subset List.mem_cons_self)] at hle
  · unfold condSignal condSort
    dsimp only
    rw [if_neg hnot, hsort]

/-- `sema_up` wakes a waiter of the highest priority, and so does `cond_signal` when all its waiters
sleep. The others stay. -/
theorem wakes_highest (k : Kernel) :
    (∀ r, (k.sema r).waiters ≠ [] →
      ∃ w ws, Picks k.prio (k.sema r).waiters w ws ∧ Wakes k (k.semaUp r) r w ws) ∧
    ∀ c, k.condWaiters c ≠ [] →
      (∀ w ∈ k.condWaiters c, (k.sema (.waiter w)).waiters = [w]) →
      ∃ w ws k', Picks k.prio (k.condWaiters c) w ws ∧ k.condSignal c = some k' ∧
        k'.condWaiters = Function.update k.condWaiters c ws ∧ k'.status = k.status ∧
        k'.sema = k.sema ∧
        k'.pending k.current = .up (.waiter w) :: .check :: k.pending k.current ∧
        Wakes k' (k'.semaUp (.waiter w)) (.waiter w) w [] := by
  refine ⟨fun r hne => k.semaUp_wakes hne, ?_⟩
  intro c hne hasleep
  obtain ⟨w, ws, hpicks, hsignal⟩ := k.condSignal_picks hne hasleep
  have hw := hasleep w (hpicks.perm.subset List.mem_cons_self)
  exact ⟨w, ws, _, hpicks, hsignal, rfl, rfl, rfl, update_self _ _ _, semaUp_wakes_only _ hw⟩

/-- Three threads wait on a semaphore and two on a condition variable, out of order. -/
def sleepers : Kernel :=
  { booted with
    thread := fun t => ⟨[], if t = 4 then 40 else 31, 31, [], none⟩
    sema := fun r =>
      match r with
      | .other _ => ⟨0, [3, 4, 5]⟩
      | .waiter t => ⟨0, [t]⟩
      | _ => ⟨1, []⟩
    condWaiters := fun _ => [3, 4] }

theorem wakes_highest_sleepers :
    (∃ w ws, Picks sleepers.prio [3, 4, 5] w ws ∧
      Wakes sleepers (sleepers.semaUp (.other 0)) (.other 0) w ws) ∧
    ∃ w ws k', Picks sleepers.prio [3, 4] w ws ∧ sleepers.condSignal 0 = some k' ∧
      Wakes k' (k'.semaUp (.waiter w)) (.waiter w) w [] := by
  refine ⟨(wakes_highest sleepers).1 (.other 0) nofun, ?_⟩
  obtain ⟨w, ws, k', hpicks, hsignal, -, -, -, -, hwakes⟩ :=
    (wakes_highest sleepers).2 0 nofun fun _ _ => rfl
  exact ⟨w, ws, k', hpicks, hsignal, hwakes⟩

end Kernel

end Pintos.Threads
