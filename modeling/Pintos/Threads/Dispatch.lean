import Pintos.Threads.KernelQueues

/-! # The order of the ready list

`thread_unblock` and `thread_yield` insert in order, and `next_thread_to_run` takes the
front. The list stays ordered by priority, so that the front is the highest, under every
routine but one: `priority_donation` may raise a thread that sits in the list and leaves
it where it is.
-/

namespace Pintos.Threads

open Foundation Lib List Option

namespace Kernel

def Ordered (k : Kernel) : Prop := k.readyList.Pairwise fun a b => k.prio b ≤ k.prio a

/-- The ready list is ordered and `next_thread_to_run` returns a thread that no ready
thread is above. -/
def DispatchesHighest (k : Kernel) : Prop :=
  k.Ordered ∧ ∀ t ∈ k.readyList, k.prio t ≤ k.prio k.nextThreadToRun.1

variable {k : Kernel}

lemma Ordered.le_next (h : k.Ordered) :
    ∀ t ∈ k.readyList, k.prio t ≤ k.prio k.nextThreadToRun.1 := by
  unfold Ordered at h
  unfold nextThreadToRun
  cases hr : k.readyList with
  | nil => nofun
  | cons u us =>
    rw [hr] at h
    exact forall_mem_cons.mpr ⟨Int.le_refl _, (pairwise_cons.mp h).1⟩

lemma dispatchesHighest_iff : k.DispatchesHighest ↔ k.Ordered :=
  ⟨fun h => h.1, fun h => ⟨h, h.le_next⟩⟩

lemma elemLess_iff {a b : ThreadRef} : k.elemLess a b = true ↔ k.prio b < k.prio a := by
  unfold Sync.elemLess
  rw [comparePriority_elem, decide_eq_true_iff]
  exact Iff.rfl

namespace Ordered

variable {k k' : Kernel} {t : ThreadRef}

section

variable (h : k.Ordered)
include h

lemma of_same (hready : k'.readyList = k.readyList)
    (hprio : ∀ t ∈ k.readyList, k'.prio t = k.prio t) : k'.Ordered := by
  unfold Ordered at h ⊢
  rw [hready]
  refine h.imp_of_mem ?_
  intro a b ha hb hab
  rwa [hprio a ha, hprio b hb]

lemma insertReady (t : ThreadRef) : (k.insertReady t).Ordered :=
  listInsertOrdered_sorted k.prio (fun _ _ => elemLess_iff) t h

lemma schedule : k.schedule.Ordered := by
  unfold Ordered at h ⊢
  unfold Kernel.schedule nextThreadToRun
  cases hr : k.readyList with
  | nil => exact Pairwise.nil
  | cons u us =>
    rw [hr] at h
    exact (pairwise_cons.mp h).2

lemma threadBlock : k.threadBlock.Ordered :=
  schedule (k := k.setStatus k.current .blocked) h

lemma threadUnblock (t : ThreadRef) : (k.threadUnblock t).Ordered :=
  h.insertReady t

lemma threadYield : k.threadYield.Ordered := by
  unfold Kernel.threadYield
  apply schedule
  by_cases hidle : k.current = k.idleThread
  · rwa [if_neg (not_not.mpr hidle)]
  · rw [if_pos hidle]
    exact h.insertReady k.current

lemma checkPriority : k.checkPriority.Ordered := by
  unfold Kernel.checkPriority
  split
  · exact h
  · split
    · exact h.threadYield
    · exact h

lemma semaDown (r : SemaRef) : (k.semaDown r).Ordered := by
  unfold Kernel.semaDown
  dsimp only
  split
  · exact h
  · apply threadBlock
    exact h

lemma semaUp (r : SemaRef) : (k.semaUp r).Ordered := by
  unfold Kernel.semaUp
  dsimp only
  split
  · exact h
  · apply threadUnblock
    exact h

lemma timerWakeup (ts : List ThreadRef) : (k.timerWakeup ts).Ordered := by
  induction ts generalizing k with
  | nil => exact h
  | cons t ts ih =>
    unfold Kernel.timerWakeup
    split
    · exact ih (h.semaUp _)
    · exact h

lemma timerInterrupt : k.timerInterrupt.Ordered := by
  have htick : ({ k.tick with threadTicks := k.tick.threadTicks + 1 } : Kernel).Ordered :=
    timerWakeup (k := { k with ticks := k.ticks + 1 }) h k.sleepList
  unfold Kernel.timerInterrupt
  dsimp only
  split
  · exact htick.threadYield
  · exact htick

lemma wake {ws : List Wake} (hs : k.wake ws = some k') : k'.Ordered := by
  induction ws generalizing k with
  | nil =>
    cases hs
    exact h
  | cons w ws ih =>
    cases w with
    | sema r => exact ih (h.semaUp r) hs
    | thread t =>
      simp only [Kernel.wake, ite_none_right_eq_some] at hs
      exact ih (h.threadUnblock t) hs.2

lemma condSignal {c : CondRef} (hs : k.condSignal c = some k') : k'.Ordered := by
  obtain rfl | ⟨w, ws, rfl⟩ := condSignal_cases hs
  · exact h
  · exact h

lemma startThread (ok : k.Ok) (ht : t ∉ k.allList) (name : List UInt8)
    (p : Int) : (k.startThread t name p).Ordered := by
  apply threadUnblock
  refine h.of_same rfl ?_
  intro u hu
  have hne : u ≠ t := by
    rintro rfl
    exact ht (ok.ready u hu).2.1
  simp [prio, Kernel.initThread, hne]

lemma setThread_current (ok : k.Ok) (th : Thread) :
    ({ k with toSync := k.toSync.setThread k.current th } : Kernel).Ordered := by
  refine h.of_same rfl ?_
  intro u hu
  simp [prio, ok.ne_of_ready hu]

/-- Every piece but `request` keeps the ready list ordered. -/
lemma exec {p : Piece} (ok : k.Ok) (hp : ∀ l, p ≠ .request l)
    (hs : k.exec p = some k') : k'.Ordered := by
  cases p <;>
    simp only [Kernel.exec, ite_none_left_eq_some, ite_none_right_eq_some, some.injEq] at hs
  case request l => exact absurd rfl (hp l)
  case down r => exact hs ▸ h.semaDown r
  case take l => exact hs ▸ h.of_same rfl fun u _ => Sync.takeLock_priority _ _ u l
  case tryDown | clear | push => exact hs ▸ h
  case tryTake l =>
    obtain ⟨-, rfl⟩ := hs
    split <;> exact h
  case giveBack l =>
    obtain ⟨-, rfl⟩ := hs
    rw [Sync.priorityRecheck_donationBack]
    exact h.setThread_current ok _
  case up r => exact hs ▸ h.semaUp r
  case check => exact hs ▸ h.checkPriority
  case setPriority p => exact hs ▸ (h.setThread_current ok _).checkPriority
  case start t name p =>
    obtain ⟨hnew, rfl⟩ := hs
    exact h.startThread ok (fun h => hnew (.inl h)) name p
  case compare p =>
    subst hs
    split
    · exact h.threadYield
    · exact h
  case block => exact hs ▸ h.threadBlock
  case yield => exact hs ▸ h.threadYield
  case unblock t => exact hs.2 ▸ h.threadUnblock t
  case signal c l => exact h.condSignal hs.2
  case sleep ticks =>
    subst hs
    apply semaDown
    exact h

end

end Ordered

/-! ## Donation and the ready list -/

/-- Raising the donees of `cur` for `l` leaves no lower thread ahead of a raised one. -/
def RaisesInOrder (k : Kernel) (l : LockRef) : Prop :=
  k.readyList.Pairwise fun x y => k.toSync.Donee (k.prio k.current) l y →
    k.toSync.Donee (k.prio k.current) l x ∨ k.prio k.current ≤ k.prio x

open Classical in
lemma prio_donate (ok : k.Ok) (l : LockRef) (t : ThreadRef) :
    prio { k with toSync := k.toSync.donate k.current l } t =
      if k.toSync.Donee (k.prio k.current) l t then k.prio k.current else k.prio t :=
  Sync.donate_priority ok.holder t

lemma ordered_donate_iff (h : k.Ordered) (ok : k.Ok) (l : LockRef) :
    Ordered { k with toSync := k.toSync.donate k.current l } ↔ k.RaisesInOrder l := by
  constructor
  · intro h'
    refine h'.imp ?_
    intro x y hxy hy
    rw [prio_donate ok, prio_donate ok, if_pos hy] at hxy
    split at hxy
    next hx => exact .inl hx
    next => exact .inr hxy
  · intro hr
    refine (h.and hr).imp ?_
    rintro x y ⟨hxy, hraise⟩
    rw [prio_donate ok, prio_donate ok]
    by_cases hy : k.toSync.Donee (k.prio k.current) l y
    · rw [if_pos hy]
      split
      next => exact Int.le_refl _
      next hx => exact (hraise hy).resolve_left hx
    · rw [if_neg hy]
      split
      next hx => exact Int.le_of_lt (Int.lt_of_le_of_lt hxy hx.priority_lt)
      next => exact hxy

/-- The condition on a step: a request for a lock raises in order. -/
def KeepsOrder (k : Kernel) : Event → Prop
  | .next => ∀ l ps, k.pending k.current = .request l :: ps → k.RaisesInOrder l
  | _ => True

lemma ordered_step_iff {k' : Kernel} {ev : Event} (ok : k.Ok) (h : k.Ordered)
    (hs : k.step ev = some k') : k'.Ordered ↔ k.KeepsOrder ev := by
  cases ev with
  | call c =>
    simp only [step, ite_none_right_eq_some, some.injEq] at hs
    rcases hs with ⟨-, rfl⟩
    exact ⟨fun _ => trivial, fun _ => h⟩
  | timer =>
    cases hs
    exact ⟨fun _ => trivial, fun _ => h.timerInterrupt⟩
  | device ws => exact ⟨fun _ => trivial, fun _ => h.wake hs⟩
  | next =>
    cases hp : k.pending k.current with
    | nil => simp [step, hp] at hs
    | cons p ps =>
      simp only [step, hp] at hs
      obtain ⟨hok, -⟩ := ok.advance hp
      by_cases hreq : ∃ l, p = .request l
      · obtain ⟨l, rfl⟩ := hreq
        simp only [exec, ite_none_left_eq_some, some.injEq] at hs
        rcases hs with ⟨-, rfl⟩
        refine (ordered_donate_iff (k := k.setPending k.current ps) h hok l).trans ?_
        constructor
        · intro hr l' ps' hp'
          rw [hp] at hp'
          cases hp'
          exact hr
        · intro hk
          exact hk l ps hp
      · have hne : ∀ l, p ≠ .request l := fun l hl => hreq ⟨l, hl⟩
        refine ⟨fun _ l ps' hp' => ?_, fun _ =>
          Ordered.exec (k := k.setPending k.current ps) h hok hne hs⟩
        rw [hp] at hp'
        cases hp'
        exact absurd rfl (hne l)

/-- The ready list stays ordered and a highest thread is dispatched exactly when every donation
raises in order. -/
theorem dispatchesHighest_throughout_iff {k : Kernel} (h : machine.start k)
    (evs : List Event) :
    machine.Throughout DispatchesHighest k evs ↔ machine.Meets KeepsOrder k evs := by
  have hstart : k.Ordered := by
    unfold Ordered
    rw [Start.ready h]
    exact Pairwise.nil
  refine Machine.throughout_iff_meets (I := Ok) (fun _ _ _ ok hs => ok.step hs) ?_ (Start.ok h)
    (dispatchesHighest_iff.mpr hstart)
  intro k ev k' ok hk hs
  rw [dispatchesHighest_iff]
  exact ordered_step_iff ok hk.1 hs

lemma raisesInOrder_of_length (h : k.readyList.length ≤ 1) (l : LockRef) : k.RaisesInOrder l := by
  unfold RaisesInOrder
  cases hr : k.readyList with
  | nil => exact Pairwise.nil
  | cons t ts =>
    rw [hr] at h
    obtain rfl := eq_nil_of_length_eq_zero (Nat.le_zero.mp (Nat.le_of_succ_le_succ h))
    exact pairwise_singleton _ _

/-- The kernel after `thread_start`: thread 1 runs, thread 2 is the idle thread. -/
def booted : Kernel where
  thread := fun t => ⟨[], if t = 1 then 31 else 0, if t = 1 then 31 else 0, [], none⟩
  holder := fun _ => none
  sema := fun _ => ⟨1, []⟩
  allList := [1, 2]
  status := fun t => if t = 1 then .running else .blocked
  pending := fun _ => []
  readyList := []
  current := 1
  idleThread := 2
  condWaiters := fun _ => []
  sleepList := []
  timeChecker := fun _ => 0
  ticks := 0
  threadTicks := 0

lemma booted_start : machine.start booted where
  threads := rfl
  distinct := by decide
  running := rfl
  idle := rfl
  ready := rfl
  pending _ := rfl
  free _ := ⟨rfl, rfl⟩
  unused _ := rfl
  fresh _ _ := ⟨rfl, rfl, rfl⟩
  awake := ⟨rfl, fun _ => rfl⟩

def calls (c : Call) (pieces : Nat) : List Event := .call c :: List.replicate pieces .next

/-- A second thread is created and blocks on the lock that the first one holds. -/
theorem dispatchesHighest_throughout_booted :
    machine.start booted ∧ machine.Throughout DispatchesHighest booted
      (calls (.lockAcquire 10) 3 ++ calls (.threadCreate [0, 1, 2] 3 [] 40) 23 ++
        calls (.lockAcquire 10) 2 ++ [.timer]) := by
  refine ⟨booted_start, (dispatchesHighest_throughout_iff booted_start _).mpr ?_⟩
  have hshort : machine.EachStep (fun k _ _ => k.readyList.length ≤ 1) booted
      (calls (.lockAcquire 10) 3 ++ calls (.threadCreate [0, 1, 2] 3 [] 40) 23 ++
        calls (.lockAcquire 10) 2 ++ [.timer]) := by decide +kernel
  refine Machine.EachStep.imp (I := fun _ => True) ?_ trivial hshort
  intro k ev k' _ _ hlen
  refine ⟨?_, trivial⟩
  cases ev with
  | next => exact fun l ps _ => raisesInOrder_of_length hlen l
  | _ => trivial

/-- Thread 4 raises the ready thread 1 to 40, but thread 3 of priority 32 is dispatched. -/
theorem donation_leaves_ready_unordered :
    machine.start booted ∧ ∃ k, machine.run booted
        (calls (.lockAcquire 10) 3 ++ calls (.threadCreate [0, 1, 2] 3 [] 32) 23 ++
          calls (.threadCreate [0, 1, 2] 4 [] 40) 23 ++ calls (.lockAcquire 10) 1) = some k ∧
      k.readyList = [3, 1] ∧ k.prio 3 = 32 ∧ k.prio 1 = 40 ∧ k.nextThreadToRun.1 = 3 ∧
      ¬ k.DispatchesHighest := by
  have hrun : (machine.run booted
      (calls (.lockAcquire 10) 3 ++ calls (.threadCreate [0, 1, 2] 3 [] 32) 23 ++
        calls (.threadCreate [0, 1, 2] 4 [] 40) 23 ++ calls (.lockAcquire 10) 1)).map
      (fun k => (k.readyList, k.prio 3, k.prio 1, k.nextThreadToRun.1)) =
      some ([3, 1], 32, 40, 3) := by decide +kernel
  obtain ⟨k, hk, heq⟩ := map_eq_some_iff.mp hrun
  simp only [Prod.mk.injEq] at heq
  obtain ⟨hready, h3, h1, hnext⟩ := heq
  refine ⟨booted_start, k, hk, hready, h3, h1, hnext, ?_⟩
  intro h
  have hle := h.2 1 (by rw [hready]; decide)
  rw [hnext, h3, h1] at hle
  omega

end Kernel

end Pintos.Threads
