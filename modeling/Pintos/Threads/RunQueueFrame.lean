import Pintos.Threads.RunQueueStates

/-! # What an operation leaves alone

A thread that does not run, is not the idle thread and is in no place of the run queue is
not concerned by what the others do: its status stays and it is not switched to. Of the
other threads, only the one that runs can become blocked.
-/

namespace Pintos.Threads

open Foundation Lib Function RunQueue

namespace RunQueue

variable {k k₁ k' : RunQueue} {t u : ThreadRef} {blocks : Bool}

/-- Nothing in the run queue refers to `t`. -/
structure Aside (k : RunQueue) (t : ThreadRef) : Prop where
  current : k.current ≠ t
  idle : k.idleThread ≠ some t
  nowhere : ∀ p, ¬ k.At t p

/-- A change in which no thread appears or dies, and only the running thread may block. -/
structure Mild (blocks : Bool) (k k' : RunQueue) : Prop where
  threads : k'.allList = k.allList
  idle : k'.idleThread = k.idleThread
  dying : ∀ t, k'.status t = .dying → k.status t = .dying
  blocked : ∀ t, k'.status t = .blocked → k.status t = .blocked ∨ blocks = true ∧ t = k.current
  aside : ∀ t, k.Aside t → k'.Aside t ∧ k'.status t = k.status t

section

variable (h : k.schedule = .ok k')
include h

lemma schedule_ok :
    ∃ t ready, k' = k.switchTo t ready ∧ (k.readyList = t :: ready ∨
      k.readyList = [] ∧ ready = [] ∧ k.idleThread = some t) := by
  unfold schedule nextThreadToRun at h
  by_cases hst : k.status k.current = .running
  · simp [if_pos hst] at h
  · rw [if_neg hst] at h
    cases hr : k.readyList with
    | nil =>
      rw [hr] at h
      cases hi : k.idleThread with
      | none =>
        simp [hi] at h
      | some t =>
        rw [hi] at h
        by_cases hmem : t ∈ k.allList
        · cases (if_pos hmem).symm.trans h
          exact ⟨t, [], rfl, .inr ⟨rfl, rfl, rfl⟩⟩
        · cases (if_neg hmem).symm.trans h
    | cons t ts =>
      rw [hr] at h
      by_cases hmem : t ∈ k.allList
      · cases (if_pos hmem).symm.trans h
        exact ⟨t, ts, rfl, .inl rfl⟩
      · cases (if_neg hmem).symm.trans h

lemma schedule_at {p : Place} (hp : k'.At t p) : k.At t p := by
  obtain ⟨u, ready, rfl, hnext⟩ := schedule_ok h
  cases p with
  | ready =>
    change t ∈ ready at hp
    change t ∈ k.readyList
    rcases hnext with hr | ⟨-, hr, -⟩
    · rw [hr]
      exact List.mem_cons_of_mem u hp
    · simp [hr] at hp
  | sema r => exact hp
  | intq q => exact hp
  | created => exact hp

/-- The running thread may itself be in no place: it has just given up the CPU. -/
lemma schedule_away (hidle : k.idleThread ≠ some t)
    (hat : ∀ p, ¬ k.At t p) : k'.Aside t ∧ k'.status t = k.status t := by
  have hplaces : ∀ p, ¬ k'.At t p := fun p hp => hat p (schedule_at h hp)
  obtain ⟨u, ready, rfl, hnext⟩ := schedule_ok h
  have hne : u ≠ t := by
    rintro rfl
    rcases hnext with hr | ⟨-, -, hi⟩
    · refine hat .ready ?_
      change u ∈ k.readyList
      rw [hr]
      exact List.mem_cons_self
    · exact hidle hi
  exact ⟨⟨hne, hidle, hplaces⟩, update_of_ne hne.symm _ _⟩

lemma schedule_status (t : ThreadRef) : k'.status t = .running ∨ k'.status t = k.status t := by
  obtain ⟨u, ready, rfl, -⟩ := schedule_ok h
  by_cases htu : t = u
  · exact .inl (by rw [htu]; exact update_self _ _ _)
  · exact .inr (update_of_ne htu _ _)

lemma schedule_threads : k'.allList = k.allList ∧ k'.idleThread = k.idleThread := by
  obtain ⟨u, ready, rfl, -⟩ := schedule_ok h
  exact ⟨rfl, rfl⟩

end

lemma bind_threadCurrent {f : ThreadRef → Except Panic RunQueue}
    (h : (k.threadCurrent >>= f) = .ok k') : f k.current = .ok k' := by
  unfold threadCurrent at h
  split at h
  · cases h
  · split at h
    · cases h
    · exact h

/-! ## Changes that compose

Every operation is a sequence of changes from the state `k` at its beginning, each of which
concerns a thread that was not aside in `k`. -/

lemma Mild.refl (blocks : Bool) (k : RunQueue) : Mild blocks k k :=
  ⟨rfl, rfl, fun _ h => h, fun _ h => .inl h, fun _ h => ⟨h, rfl⟩⟩

lemma not_aside_current (k : RunQueue) : ¬ k.Aside k.current := fun h => h.current rfl

lemma not_aside_of_at {p : Place} (h : k.At t p) : ¬ k.Aside t := fun ha => ha.nowhere p h

lemma Mild.setStatus (st : ThreadStatus) (h : Mild blocks k k₁) (hu : ¬ k.Aside u)
    (hdying : st ≠ .dying) (hblocked : st = .blocked → blocks = true ∧ u = k.current) :
    Mild blocks k (k₁.setStatus u st) := by
  have hself : (k₁.setStatus u st).status u = st := update_self _ _ _
  have hother : ∀ t, t ≠ u → (k₁.setStatus u st).status t = k₁.status t :=
    fun t ht => update_of_ne ht _ _
  refine ⟨h.threads, h.idle, fun t ht => ?_, fun t ht => ?_, fun t ht => ?_⟩
  · by_cases htu : t = u
    · rw [htu, hself] at ht
      exact absurd ht hdying
    · rw [hother t htu] at ht
      exact h.dying t ht
  · by_cases htu : t = u
    · rw [htu, hself] at ht
      rw [htu]
      exact .inr (hblocked ht)
    · rw [hother t htu] at ht
      exact h.blocked t ht
  · have htu : t ≠ u := fun he => hu (he ▸ ht)
    obtain ⟨haside, hst⟩ := h.aside t ht
    refine ⟨⟨haside.current, haside.idle, fun p hp => haside.nowhere p ?_⟩,
      (hother t htu).trans hst⟩
    cases p <;> exact hp

section

variable (h : Mild blocks k k₁)
include h

lemma Mild.places (hstatus : k'.status = k₁.status)
    (hall : k'.allList = k₁.allList) (hcur : k'.current = k₁.current)
    (hidle : k'.idleThread = k₁.idleThread)
    (hat : ∀ t p, k'.At t p → k₁.At t p ∨ ¬ k.Aside t) : Mild blocks k k' := by
  refine ⟨hall.trans h.threads, hidle.trans h.idle, fun t ht => h.dying t (hstatus ▸ ht),
    fun t ht => h.blocked t (hstatus ▸ ht), fun t ht => ?_⟩
  obtain ⟨haside, hst⟩ := h.aside t ht
  refine ⟨⟨hcur ▸ haside.current, hidle ▸ haside.idle, fun p hp => ?_⟩, by rw [hstatus, hst]⟩
  exact (hat t p hp).elim (haside.nowhere p) (absurd ht)

lemma Mild.insertReady (hu : ¬ k.Aside u) : Mild blocks k (k₁.insertReady u) := by
  refine h.places rfl rfl rfl rfl fun t p hp => ?_
  cases p with
  | ready =>
    rcases mem_listInsertOrdered.mp hp with heq | hold
    · exact .inr (heq ▸ hu)
    · exact .inl hold
  | sema r => exact .inl hp
  | intq q => exact .inl hp
  | created => exact .inl hp

lemma Mild.setSema {r : SemaRef} {sema : Semaphore}
    (hsema : ∀ t ∈ sema.waiters, t ∈ (k₁.sema r).waiters ∨ ¬ k.Aside t) :
    Mild blocks k (k₁.setSema r sema) := by
  refine h.places rfl rfl rfl rfl fun t p hp => ?_
  rcases at_setSema.mp hp with ⟨rfl, ht⟩ | ⟨-, hold⟩
  · exact hsema t ht
  · exact .inl hold

lemma Mild.setWaiter {q : Nat} {w : Option ThreadRef}
    (hw : ∀ t, w = some t → ¬ k.Aside t) : Mild blocks k (k₁.setWaiter q w) := by
  refine h.places rfl rfl rfl rfl fun t p hp => ?_
  rcases at_setWaiter.mp hp with ⟨-, ht⟩ | ⟨-, hold⟩
  · exact .inr (hw t ht)
  · exact .inl hold

lemma Mild.schedule (hs : k₁.schedule = .ok k') : Mild blocks k k' := by
  obtain ⟨hall, hidle⟩ := schedule_threads hs
  refine ⟨hall.trans h.threads, hidle.trans h.idle, fun t ht => ?_, fun t ht => ?_, fun t ht => ?_⟩
  · rcases schedule_status hs t with hrun | hsame
    · simp [hrun] at ht
    · exact h.dying t (hsame ▸ ht)
  · rcases schedule_status hs t with hrun | hsame
    · simp [hrun] at ht
    · exact h.blocked t (hsame ▸ ht)
  · obtain ⟨haside, hst⟩ := h.aside t ht
    obtain ⟨haside', hst'⟩ := schedule_away hs haside.idle haside.nowhere
    exact ⟨haside', hst'.trans hst⟩

end

/-! ## Operations -/

lemma threadBlock_ok (h : k.threadBlock = .ok k') :
    (k.setStatus k.current .blocked).schedule = .ok k' := by
  unfold threadBlock at h
  exact bind_threadCurrent h

lemma Mild.threadBlock (h : Mild true k k₁) (hcur : k₁.current = k.current)
    (hb : k₁.threadBlock = .ok k') : Mild true k k' := by
  have hs := threadBlock_ok hb
  rw [hcur] at hs
  exact (h.setStatus .blocked (not_aside_current k) nofun fun _ => ⟨rfl, rfl⟩).schedule hs

lemma Mild.threadYield (h : Mild blocks k k₁) (hcur : k₁.current = k.current)
    (hy : k₁.threadYield = .ok k') : Mild blocks k k' := by
  have hins : Mild blocks k
      (if k₁.idleThread ≠ some k.current then k₁.insertReady k.current else k₁) := by
    split
    · exact h.insertReady (not_aside_current k)
    · exact h
  unfold RunQueue.threadYield at hy
  have hs := bind_threadCurrent hy
  rw [hcur] at hs
  exact (hins.setStatus .ready (not_aside_current k) nofun nofun).schedule hs

lemma Mild.threadUnblock (h : Mild blocks k k₁) (hu : ¬ k.Aside u)
    (hb : k₁.threadUnblock u = .ok k') : Mild blocks k k' := by
  unfold RunQueue.threadUnblock at hb
  split at hb
  · cases hb
  · split at hb
    · cases hb
    · cases hb
      exact (h.insertReady hu).setStatus .ready hu nofun nofun

lemma mild_semaUp {r : SemaRef} (h : k.semaUp r = .ok k') : Mild blocks k k' := by
  have hperm := Semaphore.up_waiters_perm k.elemLess (k.sema r)
  have hset : Mild blocks k (k.setSema r ((k.sema r).up k.elemLess).1) :=
    (Mild.refl blocks k).setSema fun t ht => .inl (hperm.subset (List.mem_append_right _ ht))
  unfold semaUp at h
  dsimp only at h
  cases hw : ((k.sema r).up k.elemLess).2 with
  | none =>
    rw [hw] at h
    cases h
    exact hset
  | some w =>
    rw [hw] at h hperm
    have hat : k.At w (.sema r) := hperm.subset List.mem_cons_self
    exact hset.threadUnblock (not_aside_of_at hat) h

lemma mild_semaDown {r : SemaRef} (h : k.semaDown r = .ok k') : Mild true k k' := by
  unfold semaDown at h
  by_cases hv : (k.sema r).value = 0
  · rw [Semaphore.down_of_zero hv] at h
    refine ((Mild.refl true k).setSema fun t ht => ?_).threadBlock rfl h
    rcases mem_listInsertOrdered.mp ht with heq | hold
    · exact .inr (heq ▸ not_aside_current k)
    · exact .inl hold
  · rw [Semaphore.down_of_pos hv] at h
    cases h
    exact (Mild.refl true k).setSema fun t ht => .inl ht

def Op.mayBlock : Op → Bool
  | .threadBlock | .semaDown _ | .intqWait _ => true
  | _ => false

/-- No thread is made, ended or woken by a bare `thread_unblock`, and the idle thread has started.
-/
def Op.mild : Op → Bool
  | .initThread _ _ | .threadUnblock _ | .threadExit | .idle => false
  | _ => true

lemma mild_startThread (ht : t ∈ k.created) (h : k.startThread t = .ok k') : Mild blocks k k' := by
  have hat : k.At t .created := ht
  unfold startThread at h
  cases hu : k.threadUnblock t with
  | error e =>
    rw [hu] at h
    cases h
  | ok k₁ =>
    rw [hu] at h
    cases h
    refine ((Mild.refl blocks k).threadUnblock (not_aside_of_at hat) hu).places rfl rfl rfl
      rfl fun u p hp => .inl ?_
    cases p with
    | created => exact (List.mem_filter.mp hp).1
    | ready => exact hp
    | sema r => exact hp
    | intq q => exact hp

lemma mild_intqWait {q : Nat} (h : k.intqWait q = .ok k') : Mild true k k' := by
  unfold intqWait at h
  refine ((Mild.refl true k).setWaiter fun t ht => ?_).threadBlock rfl (bind_threadCurrent h)
  rw [← Option.some.inj ht]
  exact not_aside_current k

lemma mild_intqSignal {q : Nat} (h : k.intqSignal q = .ok k') : Mild blocks k k' := by
  unfold intqSignal at h
  cases hq : k.waiter q with
  | none =>
    rw [hq] at h
    cases h
    exact Mild.refl blocks k
  | some t =>
    have hat : k.At t (.intq q) := hq
    rw [hq] at h
    dsimp only at h
    cases hu : k.threadUnblock t with
    | error e =>
      rw [hu] at h
      cases h
    | ok k₁ =>
      rw [hu] at h
      cases h
      exact ((Mild.refl blocks k).threadUnblock (not_aside_of_at hat) hu).setWaiter nofun

lemma mild_threadTick (h : k.threadTick = .ok k') : Mild blocks k k' := by
  have hticks : Mild blocks k { k with threadTicks := k.threadTicks + 1 } :=
    (Mild.refl blocks k).places rfl rfl rfl rfl fun t p hp => .inl (by cases p <;> exact hp)
  unfold threadTick at h
  have hout := bind_threadCurrent h
  by_cases hslice : Kernel.timeSlice ≤ k.threadTicks + 1
  · exact hticks.threadYield rfl ((if_pos hslice).symm.trans hout)
  · cases (if_neg hslice).symm.trans hout
    exact hticks

lemma Op.run_mild {op : Op} (henabled : k.Enabled op) (hmild : op.mild = true)
    (h : op.run k = .ok k') : Mild op.mayBlock k k' := by
  cases op with
  | initThread t priority => cases hmild
  | startThread t => exact mild_startThread henabled h
  | threadYield => exact (Mild.refl _ k).threadYield rfl h
  | threadBlock => exact (Mild.refl _ k).threadBlock rfl h
  | threadUnblock t => cases hmild
  | threadExit => cases hmild
  | setPriority t priority =>
    cases h
    exact (Mild.refl _ k).places rfl rfl rfl rfl fun t p hp => .inl (by cases p <;> exact hp)
  | semaInit r value =>
    cases h
    exact (Mild.refl _ k).setSema nofun
  | semaDown r => exact mild_semaDown h
  | semaUp r => exact mild_semaUp h
  | intqWait q => exact mild_intqWait h
  | intqSignal q => exact mild_intqSignal h
  | idle => cases hmild
  | threadTick => exact mild_threadTick h

lemma threadBlock_spec (hidle : k.idleThread ≠ some k.current)
    (hat : ∀ p, ¬ k.At k.current p) (h : k.threadBlock = .ok k') :
    k'.Aside k.current ∧ k'.status k.current = .blocked := by
  have hat' : ∀ p, ¬ (k.setStatus k.current .blocked).At k.current p :=
    fun p hp => hat p (by cases p <;> exact hp)
  obtain ⟨haside, hst⟩ := schedule_away (threadBlock_ok h) hidle hat'
  exact ⟨haside, hst.trans (update_self _ _ _)⟩

lemma threadExit_ok (h : k.threadExit = .ok k') :
    ({ k with allList := k.allList.erase k.current }.setStatus k.current .dying).schedule =
      .ok k' := by
  unfold threadExit at h
  exact bind_threadCurrent h

/-- The end of `thread_exit`, for the thread itself and for the others. -/
structure Exited (k k' : RunQueue) : Prop where
  threads : k'.allList = k.allList.erase k.current
  idle : k'.idleThread = k.idleThread
  dying : k'.status k.current = .dying
  status : ∀ t ≠ k.current, k'.status t = .running ∨ k'.status t = k.status t
  aside : ∀ t, k.Aside t → k'.Aside t ∧ k'.status t = k.status t

lemma threadExit_spec (hidle : k.idleThread ≠ some k.current)
    (hat : ∀ p, ¬ k.At k.current p) (h : k.threadExit = .ok k') : Exited k k' := by
  have hs := threadExit_ok h
  have hplaces : ∀ t p,
      ({ k with allList := k.allList.erase k.current }.setStatus k.current .dying).At t p →
        k.At t p := fun t p hp => by cases p <;> exact hp
  have hother : ∀ t ≠ k.current,
      ({ k with allList := k.allList.erase k.current }.setStatus k.current .dying).status t =
        k.status t := fun t ht => update_of_ne ht _ _
  obtain ⟨hall, hi⟩ := schedule_threads hs
  refine ⟨hall, hi, ?_, fun t ht => ?_, fun t ht => ?_⟩
  · obtain ⟨-, hst⟩ := schedule_away hs hidle fun p hp => hat p (hplaces _ p hp)
    exact hst.trans (update_self _ _ _)
  · rw [← hother t ht]
    exact schedule_status hs t
  · obtain ⟨haside, hst⟩ := schedule_away hs ht.idle fun p hp => ht.nowhere p (hplaces t p hp)
    exact ⟨haside, hst.trans (hother t ht.current.symm)⟩

end RunQueue

end Pintos.Threads
