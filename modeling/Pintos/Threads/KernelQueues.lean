import Pintos.Threads.Kernel

/-! # The queues of the scheduler

In every reachable state the threads on the ready list have status READY and occur once,
the threads on a semaphore's waiters list are blocked in `sema_down` on that semaphore,
and the running thread is on neither. This is what lets a change of the running thread's
priority leave the order of the ready list alone.
-/

namespace Pintos.Threads

open Foundation Lib Function List Option Sync

namespace Kernel

/-- What holds also in the middle of a thread switch. -/
structure Queues (k : Kernel) : Prop where
  ready : ∀ t ∈ k.readyList, k.status t = .ready ∧ t ∈ k.allList ∧ t ≠ k.idleThread
  readyNodup : k.readyList.Nodup
  waiting : ∀ r, ∀ t ∈ (k.sema r).waiters,
    k.status t = .blocked ∧ t ∈ k.allList ∧ ∃ ps, k.pending t = .down r :: ps
  waitersNodup : ∀ r, (k.sema r).waiters.Nodup
  idle : k.idleThread ∈ k.allList ∧
    (k.pending k.idleThread = [] ∨ k.pending k.idleThread = [.block])
  holder : ∀ l h, k.holder l = some h → h ∈ k.allList

structure Ok (k : Kernel) : Prop extends Queues k where
  running : k.status k.current = .running
  member : k.current ∈ k.allList

/-- Thread `t` is blocked in `sema_down` on `r`. -/
def BlockedOn (k : Kernel) (r : SemaRef) (t : ThreadRef) : Prop :=
  k.status t = .blocked ∧ t ∈ k.allList ∧ ∃ ps, k.pending t = .down r :: ps

lemma Start.ok {k : Kernel} (h : k.Start) : k.Ok where
  ready := by simp [h.ready]
  readyNodup := by simp [h.ready]
  waiting := by simp [h.unused]
  waitersNodup := by simp [h.unused]
  idle := ⟨by simp [h.threads], .inl (h.pending _)⟩
  holder := by simp [h.free]
  running := h.running
  member := by simp [h.threads]

/-! ## The parts of a switch -/

lemma Queues.idle_not_waiting {k : Kernel} (q : k.Queues) (r : SemaRef) :
    k.idleThread ∉ (k.sema r).waiters := by
  intro hr
  obtain ⟨-, -, ps, hps⟩ := q.waiting r _ hr
  rcases q.idle.2 with h | h <;> rw [h] at hps <;> cases hps

lemma Queues.schedule {k : Kernel} (q : k.Queues) : k.schedule.Ok := by
  unfold Kernel.schedule nextThreadToRun
  cases hr : k.readyList with
  | nil =>
    refine ⟨⟨?_, nodup_nil, ?_, q.waitersNodup, q.idle, q.holder⟩, update_self _ _ _, q.idle.1⟩
    · intro t ht
      cases ht
    intro r t ht
    have hne : t ≠ k.idleThread := by
      rintro rfl
      exact q.idle_not_waiting r ht
    dsimp only
    rw [update_of_ne hne]
    exact q.waiting r t ht
  | cons u us =>
    have hnodup := q.readyNodup
    rw [hr] at hnodup
    have hu := q.ready u (by rw [hr]; exact mem_cons_self)
    refine ⟨⟨?_, (nodup_cons.mp hnodup).2, ?_, q.waitersNodup, q.idle, q.holder⟩,
      update_self _ _ _, hu.2.1⟩
    · intro t ht
      have hne : t ≠ u := by
        rintro rfl
        exact (nodup_cons.mp hnodup).1 ht
      dsimp only
      rw [update_of_ne hne]
      exact q.ready t (by rw [hr]; exact mem_cons_of_mem _ ht)
    · intro r t ht
      have hw := q.waiting r t ht
      have hne : t ≠ u := by
        rintro rfl
        rw [hu.1] at hw
        cases hw.1
      dsimp only
      rwa [update_of_ne hne]

namespace Ok

variable {k k' : Kernel} {t : ThreadRef}

section

variable (ok : k.Ok)
include ok

lemma ne_of_ready (ht : t ∈ k.readyList) : t ≠ k.current := by
  rintro rfl
  have hst := (ok.ready _ ht).1
  simp [ok.running] at hst

lemma ne_of_waiting {r : SemaRef} (ht : t ∈ (k.sema r).waiters) : t ≠ k.current := by
  rintro rfl
  have hst := (ok.waiting r _ ht).1
  simp [ok.running] at hst

/-- The queues only depend on who waits where, not on priorities. -/
lemma of_same (hholder : ∀ l h, k'.holder l = some h → h ∈ k.allList)
    (hsema : k'.sema = k.sema) (hall : k'.allList = k.allList) (hstatus : k'.status = k.status)
    (hready : k'.readyList = k.readyList) (hcur : k'.current = k.current)
    (hidle : k'.idleThread = k.idleThread) (hpending : k'.pending = k.pending) : k'.Ok := by
  refine ⟨?_, by rw [hstatus, hcur, ok.running], by rw [hcur, hall]; exact ok.member⟩
  constructor <;> simp only [hsema, hall, hstatus, hready, hidle, hpending]
  exacts [ok.ready, ok.readyNodup, ok.waiting, ok.waitersNodup, ok.idle, hholder]

/-- A semaphore may lose waiters. -/
lemma setSema {r : SemaRef} {sema : Semaphore} (hsub : sema.waiters ⊆ (k.sema r).waiters)
    (hnodup : sema.waiters.Nodup) :
    ({ k with toSync := k.toSync.setSema r sema } : Kernel).Ok := by
  refine ⟨⟨ok.ready, ok.readyNodup, ?_, ?_, ok.idle, ok.holder⟩, ok.running, ok.member⟩
  · exact (forall_update_iff k.sema fun r s => ∀ t ∈ s.waiters, k.BlockedOn r t).mpr
      ⟨fun t ht => ok.waiting r t (hsub ht), fun r' _ => ok.waiting r'⟩
  · exact (forall_update_iff k.sema fun _ s => s.waiters.Nodup).mpr
      ⟨hnodup, fun r' _ => ok.waitersNodup r'⟩

lemma setPending {ps : List Piece} (hidle : k.current = k.idleThread → ps = [] ∨ ps = [.block]) :
    (k.setPending k.current ps).Ok := by
  refine ⟨⟨ok.ready, ok.readyNodup, ?_, ok.waitersNodup, ⟨ok.idle.1, ?_⟩, ok.holder⟩,
    ok.running, ok.member⟩
  · intro r t ht
    dsimp only [Kernel.setPending]
    rw [update_of_ne (ok.ne_of_waiting ht)]
    exact ok.waiting r t ht
  · dsimp only [Kernel.setPending]
    by_cases hcur : k.idleThread = k.current
    · rw [hcur, update_self]
      exact hidle hcur.symm
    · rw [update_of_ne hcur]
      exact ok.idle.2

lemma threadBlock : k.threadBlock.Ok := by
  refine Queues.schedule ⟨?_, ok.readyNodup, ?_, ok.waitersNodup, ok.idle, ok.holder⟩
  · intro t ht
    dsimp only [setStatus]
    rw [update_of_ne (ok.ne_of_ready ht)]
    exact ok.ready t ht
  · intro r t ht
    dsimp only [setStatus]
    rw [update_of_ne (ok.ne_of_waiting ht)]
    exact ok.waiting r t ht

lemma threadYield : k.threadYield.Ok := by
  have hwait : ∀ r, ∀ t ∈ (k.sema r).waiters, (k.setStatus k.current .ready).BlockedOn r t := by
    intro r t ht
    dsimp only [BlockedOn, setStatus]
    rw [update_of_ne (ok.ne_of_waiting ht)]
    exact ok.waiting r t ht
  have hready : ∀ t ∈ k.readyList, update k.status k.current .ready t = .ready ∧ t ∈ k.allList ∧
        t ≠ k.idleThread := by
    intro t ht
    rw [update_of_ne (ok.ne_of_ready ht)]
    exact ok.ready t ht
  unfold Kernel.threadYield
  by_cases hidle : k.current = k.idleThread
  · rw [if_neg (not_not.mpr hidle)]
    exact Queues.schedule ⟨hready, ok.readyNodup, hwait, ok.waitersNodup, ok.idle, ok.holder⟩
  · rw [if_pos hidle]
    refine Queues.schedule ⟨?_, ?_, hwait, ok.waitersNodup, ok.idle, ok.holder⟩
    · intro t ht
      rcases mem_listInsertOrdered.mp ht with rfl | ht
      · exact ⟨update_self _ _ _, ok.member, hidle⟩
      · exact hready t ht
    · rw [setStatus, insertReady, (listInsertOrdered_perm _ _ _).nodup_iff]
      exact nodup_cons.mpr ⟨fun h => ok.ne_of_ready h rfl, ok.readyNodup⟩

lemma threadUnblock (hall : t ∈ k.allList) (hst : k.status t = .blocked)
    (hidle : t ≠ k.idleThread) (hout : ∀ r, t ∉ (k.sema r).waiters) : (k.threadUnblock t).Ok := by
  have hnot : t ∉ k.readyList := by
    intro h
    simp [(ok.ready t h).1] at hst
  refine ⟨⟨?_, ?_, ?_, ok.waitersNodup, ok.idle, ok.holder⟩, ?_, ok.member⟩
  · intro u hu
    dsimp only [Kernel.threadUnblock, setStatus, insertReady] at hu ⊢
    rcases mem_listInsertOrdered.mp hu with rfl | hmem
    · exact ⟨update_self _ _ _, hall, hidle⟩
    · have hne : u ≠ t := by
        rintro rfl
        exact hnot hmem
      rw [update_of_ne hne]
      exact ok.ready u hmem
  · dsimp only [Kernel.threadUnblock, setStatus, insertReady]
    rw [(listInsertOrdered_perm _ _ _).nodup_iff]
    exact nodup_cons.mpr ⟨hnot, ok.readyNodup⟩
  · intro r u hu
    dsimp only [Kernel.threadUnblock, setStatus, insertReady] at hu ⊢
    have hne : u ≠ t := by
      rintro rfl
      exact hout r hu
    rw [update_of_ne hne]
    exact ok.waiting r u hu
  · dsimp only [Kernel.threadUnblock, setStatus, insertReady]
    rw [update_of_ne]
    · exact ok.running
    · rintro rfl
      simp [ok.running] at hst

lemma checkPriority : k.checkPriority.Ok := by
  unfold Kernel.checkPriority
  cases k.readyList with
  | nil => exact ok
  | cons t ts =>
    dsimp only
    split
    · exact ok.threadYield
    · exact ok

lemma semaDown (hidle : k.current ≠ k.idleThread) (r : SemaRef) : (k.semaDown r).Ok := by
  unfold Kernel.semaDown Sync.semaDown
  by_cases hv : (k.sema r).value = 0
  · rw [Semaphore.down_of_zero hv]
    have hwaits : ∀ r', ∀ t ∈ (k.sema r').waiters, ((k.setPending k.current
        (.down r :: k.pending k.current)).setStatus k.current .blocked).BlockedOn r' t := by
      intro r' t ht
      dsimp only [BlockedOn, setStatus, Kernel.setPending]
      rw [update_of_ne (ok.ne_of_waiting ht), update_of_ne (ok.ne_of_waiting ht)]
      exact ok.waiting r' t ht
    refine Queues.schedule ⟨?_, ok.readyNodup, ?_, ?_, ?_, ok.holder⟩
    · intro t ht
      dsimp only [setStatus, Kernel.setPending]
      rw [update_of_ne (ok.ne_of_ready ht)]
      exact ok.ready t ht
    · refine (forall_update_iff k.sema fun r' s => ∀ t ∈ s.waiters, BlockedOn _ r' t).mpr
        ⟨fun t ht => ?_, fun r' _ => hwaits r'⟩
      rcases mem_listInsertOrdered.mp ht with rfl | ht
      · exact ⟨update_self _ _ _, ok.member, _, update_self _ _ _⟩
      · exact hwaits r t ht
    · refine (forall_update_iff k.sema fun _ s => s.waiters.Nodup).mpr
        ⟨?_, fun r' _ => ok.waitersNodup r'⟩
      rw [(listInsertOrdered_perm _ _ _).nodup_iff]
      exact nodup_cons.mpr ⟨fun h => ok.ne_of_waiting h rfl, ok.waitersNodup r⟩
    · dsimp only [setStatus, Kernel.setPending]
      rw [update_of_ne hidle.symm]
      exact ok.idle
  · rw [Semaphore.down_of_pos hv]
    exact ok.setSema (Subset.refl _) (ok.waitersNodup r)

lemma semaUp (r : SemaRef) : (k.semaUp r).Ok := by
  have hperm := Semaphore.up_waiters_perm k.elemLess (k.sema r)
  unfold Kernel.semaUp Sync.semaUp
  generalize (k.sema r).up k.elemLess = out at hperm ⊢
  obtain ⟨sema, woken⟩ := out
  dsimp only at hperm ⊢
  have hnodup := hperm.nodup_iff.mpr (ok.waitersNodup r)
  have hok := ok.setSema (fun _ ht => hperm.subset (mem_append_right _ ht))
    (nodup_append.mp hnodup).2.1
  cases woken with
  | none => exact hok
  | some w =>
    have hw : w ∈ (k.sema r).waiters := hperm.subset (by simp)
    obtain ⟨hst, hall, ps, hps⟩ := ok.waiting r w hw
    refine hok.threadUnblock hall hst ?_ ?_
    · rintro rfl
      exact ok.idle_not_waiting r hw
    · intro r' hr'
      by_cases hr : r' = r
      · subst hr
        rw [setSema_sema, update_self] at hr'
        exact (nodup_append.mp hnodup).2.2 w (by simp) w hr' rfl
      · rw [setSema_sema, update_of_ne hr] at hr'
        obtain ⟨-, -, ps', hps'⟩ := ok.waiting r' w hr'
        rw [hps] at hps'
        cases hps'
        exact hr rfl

lemma parked_not_waiting (h : k.Parked t) (r : SemaRef) : t ∉ (k.sema r).waiters := by
  intro hr
  obtain ⟨-, -, ps, hps⟩ := ok.waiting r t hr
  simp [h.2.2.1] at hps

lemma threadUnblock_parked (h : k.Parked t) : (k.threadUnblock t).Ok :=
  ok.threadUnblock h.1 h.2.1 h.2.2.2 (ok.parked_not_waiting h)

lemma initThread (ht : t ∉ k.allList) (name : List UInt8) (p : Int) :
    (k.initThread t name p).Ok := by
  have hne : ∀ {u}, u ∈ k.allList → u ≠ t := by
    rintro u hu rfl
    exact ht hu
  have hmem : ∀ {u}, u ∈ k.allList → u ∈ k.allList ++ [t] := mem_append_left _
  refine ⟨⟨?_, ok.readyNodup, ?_, ok.waitersNodup, ⟨hmem ok.idle.1, ?_⟩, ?_⟩, ?_, hmem ok.member⟩
  · intro u hu
    obtain ⟨hst, hall, hidle⟩ := ok.ready u hu
    exact ⟨(update_of_ne (hne hall) _ _).trans hst, hmem hall, hidle⟩
  · intro r u hu
    obtain ⟨hst, hall, hps⟩ := ok.waiting r u hu
    refine ⟨(update_of_ne (hne hall) _ _).trans hst, hmem hall, ?_⟩
    dsimp only [Kernel.initThread]
    rwa [update_of_ne (hne hall)]
  · dsimp only [Kernel.initThread]
    rw [update_of_ne (hne ok.idle.1)]
    exact ok.idle.2
  · intro l h hl
    exact hmem (ok.holder l h hl)
  · exact (update_of_ne (hne ok.member) _ _).trans ok.running

lemma startThread (ht : t ∉ k.allList) (name : List UInt8) (p : Int) :
    (k.startThread t name p).Ok := by
  refine (ok.initThread ht name p).threadUnblock (mem_append_right _ mem_cons_self)
    (update_self _ _ _) ?_ ?_
  · intro h
    exact ht (h ▸ ok.idle.1)
  · intro r hr
    exact ht (ok.waiting r t hr).2.1

/-! ## Pieces, interrupts and steps -/

lemma setSema_nil (r : SemaRef) (value : Nat) :
    ({ k with toSync := k.toSync.setSema r ⟨value, []⟩ } : Kernel).Ok :=
  ok.setSema (nil_subset _) nodup_nil

lemma condSignal (hidle : k.current ≠ k.idleThread) {c : CondRef}
    (hs : k.condSignal c = some k') : k'.Ok := by
  obtain rfl | ⟨w, ws, rfl⟩ := condSignal_cases hs
  · exact ok
  · have hok : ({ k with condWaiters := update k.condWaiters c ws } : Kernel).Ok :=
      ok.of_same ok.holder rfl rfl rfl rfl rfl rfl rfl
    exact hok.setPending fun h => absurd h hidle

lemma semaTryDown (r : SemaRef) :
    ({ k with toSync := (k.toSync.semaTryDown r).1 } : Kernel).Ok := by
  have hsame : (k.sema r).tryDown.1.waiters = (k.sema r).waiters := by
    unfold Semaphore.tryDown
    split <;> rfl
  refine ok.setSema (hsame ▸ Subset.refl _) ?_
  rw [hsame]
  exact ok.waitersNodup r

lemma holder_update (l : LockRef) :
    ∀ m h, update k.holder l (some k.current) m = some h → h ∈ k.allList :=
  (forall_update_iff k.holder fun _ o => ∀ h, o = some h → h ∈ k.allList).mpr
    ⟨fun _ h => some.inj h ▸ ok.member, fun m _ => ok.holder m⟩

/-- Every piece keeps the queues right. The idle thread runs none but `block`. -/
lemma exec {p : Piece} (hidle : k.current = k.idleThread → p = .block)
    (hs : k.exec p = some k') : k'.Ok := by
  have hnot : p ≠ .block → k.current ≠ k.idleThread := fun hp h => hp (hidle h)
  cases p <;>
    simp only [Kernel.exec, ite_none_left_eq_some, ite_none_right_eq_some, some.injEq] at hs
  case request l =>
    obtain ⟨-, rfl⟩ := hs
    exact ok.of_same (by simpa using ok.holder) (by simp) (by simp) rfl rfl rfl rfl rfl
  case down r => exact hs ▸ ok.semaDown (hnot (by simp)) r
  case take l => exact hs ▸ ok.of_same (ok.holder_update l) rfl rfl rfl rfl rfl rfl rfl
  case tryDown r => exact hs ▸ ok.semaTryDown r
  case tryTake l =>
    obtain ⟨-, rfl⟩ := hs
    have hok := ok.semaTryDown (.lock l)
    split
    · exact hok.of_same (ok.holder_update l) rfl rfl rfl rfl rfl rfl rfl
    · exact hok
  case giveBack l =>
    obtain ⟨-, rfl⟩ := hs
    rw [priorityRecheck_donationBack]
    exact ok.of_same ok.holder rfl rfl rfl rfl rfl rfl rfl
  case clear l =>
    refine hs ▸ ok.of_same ?_ rfl rfl rfl rfl rfl rfl rfl
    exact (forall_update_iff k.holder fun _ o => ∀ h, o = some h → h ∈ k.allList).mpr
      ⟨nofun, fun m _ => ok.holder m⟩
  case up r => exact hs ▸ ok.semaUp r
  case check => exact hs ▸ ok.checkPriority
  case setPriority p =>
    subst hs
    apply checkPriority
    exact ok.of_same ok.holder rfl rfl rfl rfl rfl rfl rfl
  case start t name p =>
    obtain ⟨hnew, rfl⟩ := hs
    exact ok.startThread (fun h => hnew (.inl h)) name p
  case compare p =>
    subst hs
    split
    · exact ok.threadYield
    · exact ok
  case block => exact hs ▸ ok.threadBlock
  case yield => exact hs ▸ ok.threadYield
  case unblock t =>
    obtain ⟨hparked, rfl⟩ := hs
    exact ok.threadUnblock_parked hparked
  case push c =>
    subst hs
    exact (ok.setSema_nil (.waiter k.current) 0).of_same ok.holder rfl rfl rfl rfl rfl rfl rfl
  case signal c l => exact ok.condSignal (hnot (by simp)) hs.2
  case sleep ticks =>
    subst hs
    apply semaDown
    · exact (ok.setSema_nil (.sleep k.current) 0).of_same ok.holder rfl rfl rfl rfl rfl rfl rfl
    · exact hnot (by simp)

lemma timerWakeup (ts : List ThreadRef) : (k.timerWakeup ts).Ok := by
  induction ts generalizing k with
  | nil => exact ok.of_same ok.holder rfl rfl rfl rfl rfl rfl rfl
  | cons t ts ih =>
    unfold Kernel.timerWakeup
    split
    · exact ih (ok.semaUp _)
    · exact ok.of_same ok.holder rfl rfl rfl rfl rfl rfl rfl

lemma tick : k.tick.Ok := by
  unfold Kernel.tick
  apply timerWakeup
  exact ok.of_same ok.holder rfl rfl rfl rfl rfl rfl rfl

lemma wake {ws : List Wake} (hs : k.wake ws = some k') : k'.Ok := by
  induction ws generalizing k with
  | nil =>
    cases hs
    exact ok
  | cons w ws ih =>
    cases w with
    | sema r => exact ih (ok.semaUp r) hs
    | thread t =>
      simp only [Kernel.wake, ite_none_right_eq_some] at hs
      exact ih (ok.threadUnblock_parked hs.1) hs.2

lemma advance {p : Piece} {ps : List Piece} (hp : k.pending k.current = p :: ps) :
    (k.setPending k.current ps).Ok ∧ (k.current = k.idleThread → p = .block) := by
  have hidle : k.current = k.idleThread → p = .block ∧ ps = [] := by
    intro h
    have hcases := ok.idle.2
    rw [← h, hp] at hcases
    rcases hcases with h | h <;> cases h
    exact ⟨rfl, rfl⟩
  exact ⟨ok.setPending fun h => .inl (hidle h).2, fun h => (hidle h).1⟩

lemma step {ev : Event} (hs : k.step ev = some k') : k'.Ok := by
  cases ev with
  | call c =>
    simp only [Kernel.step, ite_none_right_eq_some, some.injEq] at hs
    rcases hs with ⟨⟨-, hblock⟩, rfl⟩
    refine ok.setPending fun h => .inr ?_
    rw [hblock h]
    rfl
  | next =>
    cases hp : k.pending k.current with
    | nil => simp [Kernel.step, hp] at hs
    | cons p ps =>
      simp only [Kernel.step, hp] at hs
      obtain ⟨hok, hidle⟩ := ok.advance hp
      exact hok.exec hidle hs
  | timer =>
    cases hs
    have hok : ({ k.tick with threadTicks := k.tick.threadTicks + 1 } : Kernel).Ok :=
      ok.tick.of_same ok.tick.holder rfl rfl rfl rfl rfl rfl rfl
    unfold timerInterrupt
    dsimp only
    split
    · exact hok.threadYield
    · exact hok
  | device ws => exact ok.wake hs

end

end Ok

end Kernel

end Pintos.Threads
