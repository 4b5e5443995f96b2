import Mathlib.Order.Bounds.Defs
import Pintos.Threads.Kernel

/-! # The alarm clock (devices/timer.c)

`timer_sleep` reads the time with interrupts on and queues the thread with interrupts off,
so a timer interrupt and other threads may come in between. Any thread that is not blocked
may take the next step. Times are `int64_t` in the source and `Int` here: the two agree as
long as no sum overflows.
-/

namespace Pintos.Devices

open Foundation Lib Threads Function List

/-- Where a thread is in `timer_sleep`; `unblocked` is about to test the value again. -/
inductive SleepPhase where
  | outside
  | called (start ticks : Int)
  | blocked
  | unblocked

/-- A call of `timer_sleep` that has queued its thread, and the last tick before that. -/
structure SleepCall where
  thread : ThreadRef
  timeChecker : Int
  inserted : Int

/-- `semaP t` is the member `sema_p` of `t`. The last three fields are history: all calls, the
latest of each thread, and the ticks of the ups during each. -/
structure Timer where
  ticks : Int
  sleepList : List ThreadRef
  timeChecker : ThreadRef → Int
  priority : ThreadRef → Int
  semaP : ThreadRef → Semaphore
  phase : ThreadRef → SleepPhase
  calls : List SleepCall
  call : ThreadRef → Nat
  ups : Nat → List Int

namespace Timer

def compareTimer (s : Timer) (a b : ThreadRef) : Bool :=
  decide (s.timeChecker a < s.timeChecker b)

/-- `comparePriority` on the waiters of a semaphore. -/
def elemLess (s : Timer) (a b : ThreadRef) : Bool := decide (s.priority a > s.priority b)

/-- One test of the loop of `sema_down (&t->sema_p)` by `t`. -/
def semaDown (s : Timer) (t : ThreadRef) : Timer :=
  let out := (s.semaP t).down s.elemLess t
  { s with
    semaP := Function.update s.semaP t out.1
    phase := Function.update s.phase t (if out.2 then .outside else .blocked) }

/-- What `timer_sleep` does to the sleep list. -/
def enqueue (s : Timer) (t : ThreadRef) (timeChecker : Int) : Timer :=
  let s := { s with timeChecker := Function.update s.timeChecker t timeChecker }
  { s with
    sleepList := listInsertOrdered s.compareTimer t s.sleepList
    semaP := Function.update s.semaP t ⟨0, []⟩
    calls := s.calls ++ [⟨t, timeChecker, s.ticks⟩]
    call := Function.update s.call t s.calls.length }

/-- `timer_sleep` from `intr_disable` to the test of the semaphore. -/
def timerSleep (s : Timer) (t : ThreadRef) (start ticks : Int) : Timer :=
  (s.enqueue t (start + ticks)).semaDown t

def semaUp (s : Timer) (t : ThreadRef) : Timer :=
  let out := (s.semaP t).up s.elemLess
  { s with
    semaP := Function.update s.semaP t out.1
    phase := match out.2 with
      | none => s.phase
      | some w => Function.update s.phase w .unblocked
    ups := Function.update s.ups (s.call t) (s.ups (s.call t) ++ [s.ticks]) }

/-- The loop of `timer_wakeup` at the front of a list of sleepers. -/
def timerWakeup (s : Timer) : List ThreadRef → Timer
  | [] => s
  | t :: ts =>
      if s.ticks ≥ s.timeChecker t then timerWakeup { s.semaUp t with sleepList := ts } ts else s

/-- `timer_interrupt` without its call of `thread_tick`. -/
def timerInterrupt (s : Timer) : Timer :=
  timerWakeup { s with ticks := s.ticks + 1 } s.sleepList

inductive Event where
  | call (t : ThreadRef) (ticks : Int)
  | sleep (t : ThreadRef)
  | resume (t : ThreadRef)
  | setPriority (t : ThreadRef) (priority : Int)
  | interrupt

def step (s : Timer) : Event → Option Timer
  | .call t ticks =>
      match s.phase t with
      | .outside => some { s with phase := Function.update s.phase t (.called s.ticks ticks) }
      | _ => none
  | .sleep t =>
      match s.phase t with
      | .called start ticks => some (s.timerSleep t start ticks)
      | _ => none
  | .resume t =>
      match s.phase t with
      | .unblocked => some (s.semaDown t)
      | _ => none
  | .setPriority t priority =>
      some { s with priority := Function.update s.priority t priority }
  | .interrupt => some s.timerInterrupt

structure Start (s : Timer) : Prop where
  awake : s.sleepList = []
  outside : ∀ t, s.phase t = .outside
  calls : s.calls = []
  ups : ∀ i, s.ups i = []

def machine : Machine Timer Event := ⟨Start, step⟩

/-- The first tick handled after the call has queued its thread that is not too early. -/
def due (c : SleepCall) : Int := max c.timeChecker (c.inserted + 1)

lemma due_isLeast (c : SleepCall) : IsLeast {v | c.inserted < v ∧ c.timeChecker ≤ v} (due c) := by
  refine ⟨⟨?_, ?_⟩, fun v hv => ?_⟩
  · unfold due
    omega
  · unfold due
    omega
  · obtain ⟨hins, htime⟩ := hv
    unfold due
    omega

/-- The sleepers, if every thread that is due before `bound` has been woken. -/
structure Sleeping (s : Timer) (bound : Int) : Prop where
  sorted : s.sleepList.Pairwise fun a b => s.timeChecker a ≤ s.timeChecker b
  nodup : s.sleepList.Nodup
  asleep : ∀ t ∈ s.sleepList, s.phase t = .blocked ∧ s.semaP t = ⟨0, [t]⟩ ∧
    s.ups (s.call t) = [] ∧
    ∃ c, s.calls[s.call t]? = some c ∧ c.thread = t ∧ c.timeChecker = s.timeChecker t
  call : ∀ i c, s.calls[i]? = some c →
    (c.thread ∈ s.sleepList ∧ s.call c.thread = i ∧ s.ups i = [] ∧ c.inserted < bound ∧
        bound ≤ due c) ∨
      (s.ups i = [due c] ∧ due c ≤ s.ticks)
  fresh : ∀ i, s.calls.length ≤ i → s.ups i = []

variable {s s' : Timer} {t : ThreadRef} {bound : Int}

lemma Start.sleeping (h : s.Start) : s.Sleeping (s.ticks + 1) := by
  refine ⟨?_, ?_, fun t ht => ?_, fun i c hc => ?_, fun i _ => h.ups i⟩
  · rw [h.awake]
    exact Pairwise.nil
  · rw [h.awake]
    exact nodup_nil
  · simp [h.awake] at ht
  · simp [h.calls] at hc

lemma Sleeping.of_awake (h : s.Sleeping bound) (hticks : s'.ticks = s.ticks)
    (hlist : s'.sleepList = s.sleepList) (htime : s'.timeChecker = s.timeChecker)
    (hcalls : s'.calls = s.calls) (hcall : s'.call = s.call) (hups : s'.ups = s.ups)
    (hasleep : ∀ t ∈ s.sleepList, s'.phase t = s.phase t ∧ s'.semaP t = s.semaP t) :
    s'.Sleeping bound := by
  refine ⟨?_, ?_, fun t ht => ?_, ?_, ?_⟩
  · rw [hlist, htime]
    exact h.sorted
  · rw [hlist]
    exact h.nodup
  · rw [hlist] at ht
    rw [(hasleep t ht).1, (hasleep t ht).2, hcalls, hcall, htime, hups]
    exact h.asleep t ht
  · rw [hticks, hlist, hcalls, hcall, hups]
    exact h.call
  · rw [hcalls, hups]
    exact h.fresh

lemma Sleeping.awake (h : s.Sleeping bound) (ht : s.phase t ≠ .blocked) :
    t ∉ s.sleepList := fun hmem => ht (h.asleep t hmem).1

lemma Sleeping.awake_update (h : s.Sleeping bound) (ht : s.phase t ≠ .blocked) {α : Type}
    (f : ThreadRef → α) (x : α) : ∀ u ∈ s.sleepList, update f t x u = f u := by
  intro u hu
  refine update_of_ne ?_ _ _
  rintro rfl
  exact h.awake ht hu

lemma timerSleep_eq (s : Timer) (t : ThreadRef) (start ticks : Int) :
    s.timerSleep t start ticks =
      { s.enqueue t (start + ticks) with
        semaP := update s.semaP t ⟨0, [t]⟩
        phase := update s.phase t .blocked } := by
  have hdown : ((s.enqueue t (start + ticks)).semaP t).down
      (s.enqueue t (start + ticks)).elemLess t = (⟨0, [t]⟩, false) := by
    simp [enqueue, Semaphore.down, listInsertOrdered]
  rw [timerSleep, semaDown, hdown]
  simp [enqueue]

lemma Sleeping.timerSleep (h : s.Sleeping (s.ticks + 1)) (ht : s.phase t ≠ .blocked)
    (start ticks : Int) : (s.timerSleep t start ticks).Sleeping (s.ticks + 1) := by
  have hnew := h.awake ht
  have hne : ∀ u ∈ s.sleepList, u ≠ t := by
    rintro u hu rfl
    exact hnew hu
  obtain ⟨T, hT⟩ : ∃ T, T = update s.timeChecker t (start + ticks) := ⟨_, rfl⟩
  have hperm := listInsertOrdered_perm (fun a b => decide (T a < T b)) t s.sleepList
  have hlength : ∀ c, (s.calls ++ [c])[s.calls.length]? = some c := fun c => by simp
  rw [timerSleep_eq, enqueue]
  unfold compareTimer
  dsimp only
  rw [← hT]
  refine ⟨?_, ?_, fun u hu => ?_, fun i c hc => ?_, fun i hi => ?_⟩
  · -- the old sleepers keep their times, so their list is sorted by the new ones as well
    have hsorted : s.sleepList.Pairwise fun a b => - T b ≤ - T a := by
      refine h.sorted.imp_of_mem fun {a b} ha hb hab => ?_
      rw [hT, update_of_ne (hne a ha), update_of_ne (hne b hb)]
      omega
    refine (listInsertOrdered_sorted (fun u => - T u) (fun a b => ?_) t hsorted).imp
      fun {a b} hab => ?_
    · rw [decide_eq_true_iff]
      omega
    · dsimp only
      omega
  · exact hperm.nodup_iff.mpr (nodup_cons.mpr ⟨hnew, h.nodup⟩)
  · dsimp only
    rcases mem_listInsertOrdered.mp hu with rfl | hu
    · rw [update_self, update_self, update_self, hlength, hT, update_self]
      exact ⟨rfl, rfl, h.fresh _ (Nat.le_refl _), _, rfl, rfl, rfl⟩
    · obtain ⟨hblocked, hzero, hnone, c, hc, hthread, hchecker⟩ := h.asleep u hu
      rw [update_of_ne (hne u hu), update_of_ne (hne u hu),
        update_of_ne (hne u hu), hT, update_of_ne (hne u hu),
        getElem?_append_left (List.getElem?_eq_some_iff.mp hc).1]
      exact ⟨hblocked, hzero, hnone, c, hc, hthread, hchecker⟩
  · dsimp only at hc ⊢
    by_cases hi : i < s.calls.length
    · rw [getElem?_append_left hi] at hc
      rcases h.call i c hc with ⟨hin, hnum, hrest⟩ | hdone
      · rw [update_of_ne (hne _ hin)]
        exact .inl ⟨mem_listInsertOrdered.mpr (.inr hin), hnum, hrest⟩
      · exact .inr hdone
    · have hlast : i = s.calls.length := by
        have hlt := (List.getElem?_eq_some_iff.mp hc).1
        rw [length_append, length_singleton] at hlt
        omega
      rw [hlast, hlength] at hc
      cases hc
      rw [update_self]
      refine .inl ⟨mem_listInsertOrdered.mpr (.inl rfl), hlast.symm, h.fresh i (by omega), ?_, ?_⟩
      · dsimp only
        omega
      · unfold due
        dsimp only
        omega
  · refine h.fresh i ?_
    rw [length_append] at hi
    omega

lemma semaUp_eq (hsema : s.semaP t = ⟨0, [t]⟩) (hnone : s.ups (s.call t) = []) :
    s.semaUp t =
      { s with
        semaP := update s.semaP t ⟨1, []⟩
        phase := update s.phase t .unblocked
        ups := update s.ups (s.call t) [s.ticks] } := by
  have hup : (s.semaP t).up s.elemLess = (⟨1, []⟩, some t) := by
    rw [hsema]
    rfl
  rw [semaUp, hup, hnone]
  rfl

/-- The loop wakes the first sleeper, at the tick its call is due. -/
lemma Sleeping.wake {ts : List ThreadRef} (h : s.Sleeping s.ticks)
    (hlist : s.sleepList = t :: ts) (htime : s.timeChecker t ≤ s.ticks) :
    Sleeping { s.semaUp t with sleepList := ts } s.ticks := by
  have hsorted := h.sorted
  have hnodup := h.nodup
  rw [hlist] at hsorted hnodup
  obtain ⟨htts, htsnodup⟩ := nodup_cons.mp hnodup
  obtain ⟨-, hsema, hnone, c, hc, hthread, hchecker⟩ :=
    h.asleep t (by rw [hlist]; exact mem_cons_self)
  rw [semaUp_eq hsema hnone]
  refine ⟨(pairwise_cons.mp hsorted).2, htsnodup, fun u hu => ?_, fun i c' hc' => ?_,
    fun i hi => ?_⟩
  · have hne : u ≠ t := by
      rintro rfl
      exact htts hu
    obtain ⟨hblocked, hzero, hnone', c', hc', hthread', hchecker'⟩ :=
      h.asleep u (by rw [hlist]; exact mem_cons_of_mem _ hu)
    have hcall : s.call u ≠ s.call t := by
      intro heq
      rw [heq, hc] at hc'
      cases hc'
      exact hne (hthread'.symm.trans hthread)
    dsimp only
    rw [update_of_ne hne, update_of_ne hne, update_of_ne hcall]
    exact ⟨hblocked, hzero, hnone', c', hc', hthread', hchecker'⟩
  · dsimp only at hc' ⊢
    by_cases hi : i = s.call t
    · rw [hi, hc] at hc'
      cases hc'
      rw [hi, update_self]
      rcases h.call _ c hc with ⟨-, -, -, hins, hbound⟩ | ⟨hdone, -⟩
      · have hdue : due c = s.ticks := by
          unfold due at hbound ⊢
          omega
        rw [hdue]
        exact .inr ⟨rfl, Int.le_refl _⟩
      · simp [hnone] at hdone
    · rw [update_of_ne hi]
      rcases h.call i c' hc' with ⟨hin, hnum, hrest⟩ | hdone
      · refine .inl ⟨?_, hnum, hrest⟩
        rw [hlist] at hin
        refine (mem_cons.mp hin).resolve_left fun heq => ?_
        rw [heq] at hnum
        exact hi hnum.symm
      · exact .inr hdone
  · dsimp only at hi ⊢
    have hlt : s.call t < s.calls.length := (List.getElem?_eq_some_iff.mp hc).1
    rw [update_of_ne (by omega)]
    exact h.fresh i hi

lemma Sleeping.stop (h : s.Sleeping s.ticks)
    (hlate : ∀ t ∈ s.sleepList, s.ticks < s.timeChecker t) : s.Sleeping (s.ticks + 1) := by
  refine ⟨h.sorted, h.nodup, h.asleep, fun i c hc => ?_, h.fresh⟩
  rcases h.call i c hc with ⟨hin, hnum, hnone, hins, -⟩ | hdone
  · obtain ⟨-, -, -, c', hc', -, hchecker⟩ := h.asleep c.thread hin
    rw [hnum, hc] at hc'
    cases hc'
    have hlate := hlate c.thread hin
    refine .inl ⟨hin, hnum, hnone, by omega, ?_⟩
    unfold due
    omega
  · exact .inr hdone

lemma Sleeping.timerWakeup {l : List ThreadRef} (h : s.Sleeping s.ticks) (hl : s.sleepList = l) :
    (s.timerWakeup l).ticks = s.ticks ∧ (s.timerWakeup l).Sleeping (s.ticks + 1) ∧
      ∀ t ∈ (s.timerWakeup l).sleepList, s.ticks < (s.timerWakeup l).timeChecker t := by
  induction l generalizing s with
  | nil =>
    have hlate : ∀ t ∈ s.sleepList, s.ticks < s.timeChecker t := by
      rw [hl]
      nofun
    exact ⟨rfl, h.stop hlate, hlate⟩
  | cons t ts ih =>
    unfold Timer.timerWakeup
    split
    next htime => exact ih (s := { s.semaUp t with sleepList := ts }) (h.wake hl htime) rfl
    next htime =>
      have hlate : ∀ u ∈ s.sleepList, s.ticks < s.timeChecker u := by
        have hsorted := h.sorted
        rw [hl] at hsorted ⊢
        intro u hu
        have hle : s.timeChecker t ≤ s.timeChecker u := by
          rcases mem_cons.mp hu with rfl | hu
          · exact Int.le_refl _
          · exact (pairwise_cons.mp hsorted).1 u hu
        omega
      exact ⟨rfl, h.stop hlate, hlate⟩

lemma Sleeping.timerInterrupt (h : s.Sleeping (s.ticks + 1)) :
    s.timerInterrupt.ticks = s.ticks + 1 ∧
      s.timerInterrupt.Sleeping (s.timerInterrupt.ticks + 1) ∧
      ∀ t ∈ s.timerInterrupt.sleepList,
        s.timerInterrupt.ticks < s.timerInterrupt.timeChecker t := by
  have hnext : Sleeping { s with ticks := s.ticks + 1 } (s.ticks + 1) := by
    refine ⟨h.sorted, h.nodup, h.asleep, fun i c hc => ?_, h.fresh⟩
    rcases h.call i c hc with hpending | ⟨hdone, hdue⟩
    · exact .inl hpending
    · refine .inr ⟨hdone, ?_⟩
      change due c ≤ s.ticks + 1
      omega
  obtain ⟨hticks, hsleeping, hlate⟩ := hnext.timerWakeup rfl
  change s.timerInterrupt.ticks = s.ticks + 1 at hticks
  rw [hticks]
  exact ⟨rfl, hsleeping, hlate⟩

lemma Sleeping.step {ev : Event} (h : s.Sleeping (s.ticks + 1)) (hs : s.step ev = some s') :
    s'.Sleeping (s'.ticks + 1) := by
  cases ev with
  | call t ticks =>
    rw [Timer.step] at hs
    split at hs
    next hphase =>
      cases hs
      refine h.of_awake rfl rfl rfl rfl rfl rfl fun u hu => ⟨?_, rfl⟩
      exact h.awake_update (by rw [hphase]; nofun) _ _ u hu
    next => cases hs
  | sleep t =>
    rw [Timer.step] at hs
    split at hs
    next start ticks hphase =>
      cases hs
      exact h.timerSleep (by rw [hphase]; nofun) start ticks
    next => cases hs
  | resume t =>
    rw [Timer.step] at hs
    split at hs
    next hphase =>
      cases hs
      have ht : s.phase t ≠ .blocked := by
        rw [hphase]
        nofun
      exact h.of_awake rfl rfl rfl rfl rfl rfl fun u hu =>
        ⟨h.awake_update ht _ _ u hu, h.awake_update ht _ _ u hu⟩
    next => cases hs
  | setPriority t priority =>
    cases hs
    exact h.of_awake rfl rfl rfl rfl rfl rfl fun _ _ => ⟨rfl, rfl⟩
  | interrupt =>
    cases hs
    exact h.timerInterrupt.2.1

/-- In any interleaving the sleep list is sorted without repetition, a handler leaves no thread that
is due, and each call is upped once, by the first tick after it was queued that is not before its
time. -/
theorem alarms_of_reachable (h : machine.Reachable s) :
    s.sleepList.Pairwise (fun a b => s.timeChecker a ≤ s.timeChecker b) ∧ s.sleepList.Nodup ∧
      (∀ s', machine.step s .interrupt = some s' →
        s'.ticks = s.ticks + 1 ∧ ∀ t ∈ s'.sleepList, s'.ticks < s'.timeChecker t) ∧
      ∀ i c, s.calls[i]? = some c →
        ∃ v, IsLeast {v | c.inserted < v ∧ c.timeChecker ≤ v} v ∧
          s.ups i = if v ≤ s.ticks then [v] else [] := by
  have hsleeping : s.Sleeping (s.ticks + 1) :=
    h.invariant (I := fun s => s.Sleeping (s.ticks + 1)) (fun _ hs => Start.sleeping hs)
      fun _ _ _ hs hstep => hs.step hstep
  refine ⟨hsleeping.sorted, hsleeping.nodup, fun s' hs' => ?_, fun i c hc => ?_⟩
  · cases hs'
    exact ⟨hsleeping.timerInterrupt.1, hsleeping.timerInterrupt.2.2⟩
  · refine ⟨due c, due_isLeast c, ?_⟩
    rcases hsleeping.call i c hc with ⟨-, -, hnone, -, hbound⟩ | ⟨hdone, hdue⟩
    · rw [if_neg (by omega), hnone]
    · rw [if_pos hdue, hdone]

def atBoot : Timer where
  ticks := 0
  sleepList := []
  timeChecker := fun _ => 0
  priority := fun _ => 31
  semaP := fun _ => ⟨0, []⟩
  phase := fun _ => .outside
  calls := []
  call := fun _ => 0
  ups := fun _ => []

lemma atBoot_start : atBoot.Start := ⟨rfl, fun _ => rfl, rfl, fun _ => rfl⟩

/-- A tick comes before the first thread is queued, and the second thread is queued with a
time that is over. -/
def napping : List Event :=
  [.call 1 2, .interrupt, .sleep 1, .call 2 (-5), .sleep 2, .interrupt]

theorem alarms_of_reachable_napping :
    ∃ s, machine.run atBoot napping = some s ∧ s.sleepList = [] ∧ s.ups 0 = [2] ∧
      s.ups 1 = [2] := by
  have hrun : machine.run atBoot napping = some _ := rfl
  obtain ⟨-, -, -, hups⟩ := alarms_of_reachable (Machine.reachable_run (.start atBoot_start) hrun)
  obtain ⟨v, hv, hfirst⟩ := hups 0 ⟨1, 2, 1⟩ rfl
  obtain ⟨w, hw, hsecond⟩ := hups 1 ⟨2, -4, 1⟩ rfl
  have hv' : v = 2 := Int.le_antisymm (hv.2 ⟨by decide, by decide⟩) hv.1.2
  have hw' : w = 2 := Int.le_antisymm (hw.2 ⟨by decide, by decide⟩) hw.1.1
  rw [hv'] at hfirst
  rw [hw'] at hsecond
  exact ⟨_, hrun, rfl, hfirst, hsecond⟩

/-! ## The alarm clock of the whole kernel

The machine of `Kernel` queues a thread at the tick it reads. On its own the alarm clock is
the same. -/

/-- The alarm clock is that of the kernel, but for the list of sleepers. -/
structure SameClock (s : Timer) (k : Kernel) : Prop where
  ticks : s.ticks = k.ticks
  timeChecker : s.timeChecker = k.timeChecker
  priority : s.priority = k.prio
  semaP : ∀ t, s.semaP t = k.sema (.sleep t)

variable {k : Kernel}

lemma SameClock.elemLess (h : SameClock s k) : s.elemLess = k.elemLess := by
  funext a b
  rw [Timer.elemLess, h.priority]
  rfl

lemma SameClock.semaUp (h : SameClock s k) (t : ThreadRef) :
    SameClock (s.semaUp t) (k.semaUp (.sleep t)) := by
  have hup : (s.semaP t).up s.elemLess = (k.sema (.sleep t)).up k.elemLess := by
    rw [h.semaP, h.elemLess]
  have hsema : (k.semaUp (.sleep t)).sema =
      update k.sema (.sleep t) ((k.sema (.sleep t)).up k.elemLess).1 := by
    unfold Kernel.semaUp
    dsimp only
    split <;> rfl
  refine ⟨?_, ?_, ?_, fun u => ?_⟩
  · unfold Kernel.semaUp
    dsimp only
    split <;> exact h.ticks
  · unfold Kernel.semaUp
    dsimp only
    split <;> exact h.timeChecker
  · unfold Kernel.semaUp
    dsimp only
    split <;> exact h.priority
  · change update s.semaP t ((s.semaP t).up s.elemLess).1 u = _
    rw [hsema, hup]
    by_cases hu : u = t
    · rw [hu, update_self, update_self]
    · rw [update_of_ne hu, update_of_ne (fun heq => hu (by cases heq; rfl))]
      exact h.semaP u

lemma SameClock.timerWakeup {l : List ThreadRef} (h : SameClock s k) (hl : s.sleepList = l) :
    SameClock (s.timerWakeup l) (k.timerWakeup l) ∧
      (s.timerWakeup l).sleepList = (k.timerWakeup l).sleepList := by
  induction l generalizing s k with
  | nil => exact ⟨⟨h.ticks, h.timeChecker, h.priority, h.semaP⟩, hl⟩
  | cons t ts ih =>
    unfold Timer.timerWakeup Kernel.timerWakeup
    rw [h.ticks, h.timeChecker]
    split
    next =>
      have hup := h.semaUp t
      exact ih (s := { s.semaUp t with sleepList := ts })
        ⟨hup.ticks, hup.timeChecker, hup.priority, hup.semaP⟩ rfl
    next => exact ⟨⟨h.ticks, h.timeChecker, h.priority, h.semaP⟩, hl⟩

lemma SameClock.timerInterrupt (h : SameClock s k) (hlist : s.sleepList = k.sleepList) :
    SameClock s.timerInterrupt k.tick ∧ s.timerInterrupt.sleepList = k.tick.sleepList := by
  have hnext : SameClock { s with ticks := s.ticks + 1 } { k with ticks := k.ticks + 1 } :=
    ⟨congrArg (· + 1) h.ticks, h.timeChecker, h.priority, h.semaP⟩
  have htick : k.tick = Kernel.timerWakeup { k with ticks := k.ticks + 1 } s.sleepList := by
    rw [hlist]
    rfl
  rw [htick]
  exact hnext.timerWakeup rfl

lemma SameClock.timerSleep (h : SameClock s k) (hlist : s.sleepList = k.sleepList) (ticks : Int) :
    SameClock (s.timerSleep k.current k.ticks ticks) (k.timerSleep ticks) ∧
      (s.timerSleep k.current k.ticks ticks).sleepList = (k.timerSleep ticks).sleepList := by
  have hdown : ∀ k' : Kernel, k'.sema (.sleep k'.current) = ⟨0, []⟩ →
      k'.semaDown (.sleep k'.current) =
        ({ k' with
          toSync := k'.toSync.setSema (.sleep k'.current) ⟨0, [k'.current]⟩ }.setPending k'.current
            (.down (.sleep k'.current) :: k'.pending k'.current)).threadBlock := by
    intro k' hzero
    have hout : k'.toSync.semaDown k'.current (.sleep k'.current) =
        (k'.toSync.setSema (.sleep k'.current) ⟨0, [k'.current]⟩, false) := by
      rw [Sync.semaDown, hzero]
      rfl
    rw [Kernel.semaDown, hout]
    rfl
  rw [timerSleep_eq, Kernel.timerSleep, hdown _ (update_self _ _ _)]
  refine ⟨⟨h.ticks, ?_, h.priority, fun u => ?_⟩, ?_⟩
  · change update s.timeChecker _ _ = update k.timeChecker _ _
    rw [h.timeChecker]
  · change update s.semaP k.current _ u = update (update k.sema _ _) (.sleep k.current) _ (.sleep u)
    by_cases hu : u = k.current
    · rw [hu, update_self, update_self]
    · have hne : SemaRef.sleep u ≠ .sleep k.current := fun heq => hu (by cases heq; rfl)
      rw [update_of_ne hu, update_of_ne hne, update_of_ne hne]
      exact h.semaP u
  · change listInsertOrdered _ k.current s.sleepList = listInsertOrdered _ k.current k.sleepList
    rw [hlist, h.timeChecker]
    rfl

end Timer

end Pintos.Devices
