import Pintos.Foundation.RingBuffer
import Pintos.Foundation.Transition
import Pintos.Threads.Synch

/-!
# Interrupt queues (devices/intq.c)

One queue, used by any number of threads and by interrupt handlers. Its functions run with
interrupts off, so that a thread goes on until it blocks or until `lock_release`, where
`sema_up` may yield. A call is cut into steps there; between the steps other threads and
handlers run. Priorities order the threads that wait for the lock and may change at any time.
-/

namespace Pintos.Devices

open Foundation Threads Function

namespace Intq

/-! ## The queue and its callers -/

inductive Waiter where
  | notEmpty
  | notFull
  deriving DecidableEq

inductive Call where
  | getc
  | putc (byte : UInt8)
  deriving DecidableEq

def Call.waiter : Call → Waiter
  | getc => .notEmpty
  | putc _ => .notFull

inductive Point where
  | outside
  /-- Blocked in `lock_acquire`. -/
  | lockAsleep (c : Call)
  /-- Unblocked there, about to test the lock's semaphore again. -/
  | lockTesting (c : Call)
  /-- Blocked in `wait`. -/
  | waiting (c : Call)
  /-- Unblocked there, about to release the lock. -/
  | woken (c : Call)
  /-- About to test the queue again. -/
  | released (c : Call)
  deriving DecidableEq

namespace Point

@[simp] def Blocked : Point → Prop
  | lockAsleep _ | waiting _ => True
  | _ => False

@[simp] def HoldsLock : Point → Prop
  | waiting _ | woken _ => True
  | _ => False

/-- Neither blocked nor holding the lock. -/
@[simp] def Free (p : Point) : Prop := ¬ p.Blocked ∧ ¬ p.HoldsLock

/-- Where a thread goes on after it was blocked. -/
def unblocked : Point → Point
  | lockAsleep c => lockTesting c
  | waiting c => woken c
  | p => p

instance : ∀ p : Point, Decidable p.Blocked
  | lockAsleep _ | waiting _ => isTrue trivial
  | outside | lockTesting _ | woken _ | released _ => isFalse id

end Point

/-- `struct intq` and its callers. The last two fields are history: what was put and what was got.
-/
structure State where
  ring : RingBuffer UInt8 64
  waiter : Waiter → Option ThreadRef
  holder : Option ThreadRef
  sema : Semaphore
  priority : ThreadRef → Int
  point : ThreadRef → Point
  put : List UInt8
  got : List UInt8

/-- Why a step does not take place: the thread is elsewhere, or an assertion fails. -/
inductive Fault where
  | disabled
  | intrContext
  | lockHeld
  | lockNotHeld
  | waitCondition
  | signalCondition
  | notBlocked
  deriving DecidableEq

/-- The condition that a thread waits for the end of: `intq_empty` or `intq_full`. -/
def Waiter.Holds (w : Waiter) (r : RingBuffer UInt8 64) : Prop :=
  match w with
  | notEmpty => r.Empty
  | notFull => r.Full

instance (r : RingBuffer UInt8 64) : ∀ w : Waiter, Decidable (w.Holds r)
  | .notEmpty => inferInstanceAs (Decidable r.Empty)
  | .notFull => inferInstanceAs (Decidable r.Full)

namespace State

def elemLess (s : State) (a b : ThreadRef) : Bool := decide (s.priority a > s.priority b)

def goto (s : State) (t : ThreadRef) (p : Point) : State :=
  { s with point := Function.update s.point t p }

def threadUnblock (s : State) (t : ThreadRef) : Except Fault State :=
  if (s.point t).Blocked then .ok (s.goto t (s.point t).unblocked) else .error .notBlocked

def signal (s : State) (w : Waiter) : Except Fault State :=
  if w.Holds s.ring then .error .signalCondition
  else
    match s.waiter w with
    | none => .ok s
    | some t => do
        let s ← s.threadUnblock t
        return { s with waiter := Function.update s.waiter w none }

/-- The part of `intq_getc` and `intq_putc` behind the loop. -/
def transfer (s : State) : Call → Except Fault State
  | .getc => { s with ring := s.ring.pop, got := s.got ++ [s.ring.front] }.signal .notFull
  | .putc byte => { s with ring := s.ring.push byte, put := s.put ++ [byte] }.signal .notEmpty

def wait (s : State) (t : ThreadRef) (c : Call) : Except Fault State :=
  if c.waiter.Holds s.ring then
    .ok ({ s with waiter := Function.update s.waiter c.waiter (some t) }.goto t (.waiting c))
  else .error .waitCondition

/-- One test of the loop of `sema_down` in `lock_acquire`. With the lock, the thread goes on to
`wait`. -/
def testLock (s : State) (t : ThreadRef) (c : Call) : Except Fault State :=
  let out := s.sema.down s.elemLess t
  if out.2 then { s with sema := out.1, holder := some t }.wait t c
  else .ok ({ s with sema := out.1 }.goto t (.lockAsleep c))

/-- One test of the loop of `intq_getc` or `intq_putc` and what follows it. -/
def loop (s : State) (t : ThreadRef) (c : Call) : Except Fault State :=
  if c.waiter.Holds s.ring then
    if s.holder = some t then .error .lockHeld else s.testLock t c
  else do
    let s ← s.transfer c
    return s.goto t .outside

def release (s : State) (t : ThreadRef) (c : Call) : Except Fault State :=
  if s.holder = some t then
    let out := s.sema.up s.elemLess
    let s := { s with sema := out.1, holder := none }.goto t (.released c)
    match out.2 with
    | none => .ok s
    | some w => s.threadUnblock w
  else .error .lockNotHeld

end State

inductive Label where
  | call (t : ThreadRef) (c : Call)
  | testLock (t : ThreadRef)
  | release (t : ThreadRef)
  | retest (t : ThreadRef)
  /-- A call by an interrupt handler. -/
  | handler (c : Call)
  | setPriority (t : ThreadRef) (p : Int)

namespace State

def attempt (s : State) : Label → Except Fault State
  | .call t c => if s.point t = .outside then s.loop t c else .error .disabled
  | .testLock t =>
      match s.point t with
      | .lockTesting c => s.testLock t c
      | _ => .error .disabled
  | .release t =>
      match s.point t with
      | .woken c => s.release t c
      | _ => .error .disabled
  | .retest t =>
      match s.point t with
      | .released c => s.loop t c
      | _ => .error .disabled
  | .handler c => if c.waiter.Holds s.ring then .error .intrContext else s.transfer c
  | .setPriority t p => .ok { s with priority := Function.update s.priority t p }

def step (s : State) (label : Label) : Option State := (s.attempt label).toOption

end State

/-- After `intq_init`, before any call. -/
structure Start (s : State) : Prop where
  empty : s.ring.Empty
  waiter : ∀ w, s.waiter w = none
  holder : s.holder = none
  sema : s.sema = ⟨1, []⟩
  outside : ∀ t, s.point t = .outside
  put : s.put = []
  got : s.got = []

def machine : Machine State Label := ⟨Start, State.step⟩

/-! ## The invariant -/

/-- The queue knows of a thread what it does: where it is blocked, and whether it holds the lock. -/
structure Placed (s : State) (t : ThreadRef) : Prop where
  waiter : ∀ w, s.waiter w = some t ↔ ∃ c, s.point t = .waiting c ∧ c.waiter = w
  holder : s.holder = some t ↔ (s.point t).HoldsLock
  asleep : t ∈ s.sema.waiters ↔ ∃ c, s.point t = .lockAsleep c

structure Locks (s : State) : Prop where
  placed : ∀ t, Placed s t
  value : s.sema.value = if s.holder = none then 1 else 0
  nodup : s.sema.waiters.Nodup

structure Ok (s : State) : Prop extends Locks s where
  fifo : s.put = s.got ++ s.ring.contents

/-- No waiter pointer is overwritten as long as its thread is blocked. -/
def Keeps (s s' : State) : Prop :=
  ∀ w t, s.waiter w = some t →
    s'.waiter w = some t ∨ s'.waiter w = none ∧ ¬ (s'.point t).Blocked

variable {s s' : State} {t u : ThreadRef} {c : Call}

@[simp] lemma goto_point_self (s : State) (t : ThreadRef) (p : Point) :
    (s.goto t p).point t = p := update_self ..

lemma goto_point_of_ne (s : State) (p : Point) (h : u ≠ t) :
    (s.goto t p).point u = s.point u := update_of_ne h ..

namespace Placed

lemma of_same (h : Placed s u) (hpoint : s'.point u = s.point u)
    (hwaiter : ∀ w, s'.waiter w = some u ↔ s.waiter w = some u)
    (hholder : s'.holder = some u ↔ s.holder = some u)
    (hasleep : u ∈ s'.sema.waiters ↔ u ∈ s.sema.waiters) : Placed s' u where
  waiter w := by rw [hwaiter, hpoint, h.waiter]
  holder := by rw [hholder, hpoint, h.holder]
  asleep := by rw [hasleep, hpoint, h.asleep]

lemma iff_of_free (hfree : (s.point t).Free) :
    Placed s t ↔ (∀ w, s.waiter w ≠ some t) ∧ s.holder ≠ some t ∧ t ∉ s.sema.waiters := by
  have hwaiting : ∀ w, ¬ ∃ c, s.point t = .waiting c ∧ c.waiter = w := by
    rintro w ⟨c, hc, -⟩
    simp [hc] at hfree
  have hasleep : ¬ ∃ c, s.point t = .lockAsleep c := by
    rintro ⟨c, hc⟩
    simp [hc] at hfree
  constructor
  · intro h
    exact ⟨fun w => mt (h.waiter w).mp (hwaiting w), mt h.holder.mp hfree.2, mt h.asleep.mp hasleep⟩
  · rintro ⟨hw, hh, ha⟩
    exact ⟨fun w => iff_of_false (hw w) (hwaiting w), iff_of_false hh hfree.2,
      iff_of_false ha hasleep⟩

end Placed

lemma Start.ok (h : Start s) : Ok s where
  placed t := by
    have hfree : (s.point t).Free := by simp [h.outside]
    rw [Placed.iff_of_free hfree]
    simp [h.waiter, h.holder, h.sema]
  value := by simp [h.sema, h.holder]
  nodup := by simp [h.sema]
  fifo := by
    have hnil : s.ring.contents = [] := by
      rw [← List.length_eq_zero_iff, RingBuffer.length_contents, RingBuffer.count_eq_zero]
      exact h.empty
    rw [h.put, h.got, hnil]
    rfl

namespace Locks

lemma goto_free (hs : Locks s) (ht : (s.point t).Free) {p : Point} (hp : p.Free) :
    Locks (s.goto t p) := by
  refine ⟨fun u => ?_, hs.value, hs.nodup⟩
  by_cases hut : u = t
  · rw [hut, Placed.iff_of_free (by rwa [goto_point_self])]
    exact (Placed.iff_of_free ht).mp (hs.placed t)
  · exact (hs.placed u).of_same (goto_point_of_ne s p hut) (fun _ => .rfl) .rfl .rfl

lemma threadUnblock_asleep (ht : s.point t = .lockAsleep c) :
    s.threadUnblock t = .ok (s.goto t (.lockTesting c)) := by
  rw [State.threadUnblock, if_pos (by simp [ht]), ht]
  rfl

lemma threadUnblock_waiting (ht : s.point t = .waiting c) :
    s.threadUnblock t = .ok (s.goto t (.woken c)) := by
  rw [State.threadUnblock, if_pos (by simp [ht]), ht]
  rfl

lemma signal (hs : Locks s) {w : Waiter} (hw : ¬ w.Holds s.ring) :
    ∃ s', s.signal w = .ok s' ∧ Locks s' ∧ Keeps s s' ∧
      (s'.ring = s.ring ∧ s'.put = s.put ∧ s'.got = s.got) ∧
      ∀ u, (s.point u).Free → s'.point u = s.point u := by
  rw [State.signal, if_neg hw]
  cases hpointed : s.waiter w with
  | none => exact ⟨s, rfl, hs, fun _ _ => .inl, ⟨rfl, rfl, rfl⟩, fun _ _ => rfl⟩
  | some t =>
    obtain ⟨c, hc, hcw⟩ := ((hs.placed t).waiter w).mp hpointed
    have hother : ∀ w', w' ≠ w → s.waiter w' ≠ some t := by
      intro w' hne hw'
      obtain ⟨c', hc', hcw'⟩ := ((hs.placed t).waiter w').mp hw'
      cases hc.symm.trans hc'
      exact hne (hcw'.symm.trans hcw)
    refine ⟨{ s.goto t (.woken c) with waiter := update s.waiter w none }, ?_,
      ⟨fun u => ?_, hs.value, hs.nodup⟩, ?_, ⟨rfl, rfl, rfl⟩, ?_⟩
    · simp only [threadUnblock_waiting hc]
      rfl
    · by_cases hut : u = t
      · have ht := hs.placed t
        rw [hut]
        refine ⟨fun w' => iff_of_false ?_ (by simp), ?_, ?_⟩
        · by_cases hww : w' = w
          · simp [hww]
          · simpa [hww] using hother w' hww
        · exact ht.holder.trans (by simp [hc])
        · exact ht.asleep.trans (by simp [hc])
      · refine (hs.placed u).of_same (goto_point_of_ne s _ hut) (fun w' => ?_) .rfl .rfl
        by_cases hww : w' = w
        · simpa [hww, hpointed] using Ne.symm hut
        · simp [hww]
    · intro w' u hu
      by_cases hww : w' = w
      · rw [hww] at hu ⊢
        cases hpointed.symm.trans hu
        exact .inr ⟨update_self .., by simp⟩
      · exact .inl ((update_of_ne hww _ _).trans hu)
    · intro u hu
      refine goto_point_of_ne s _ ?_
      rintro rfl
      simp [hc] at hu

lemma sleep (hs : Locks s) (ht : (s.point t).Free) (c : Call) :
    Locks ({ s with
      sema := { s.sema with waiters := Lib.listInsertOrdered s.elemLess t s.sema.waiters } }.goto t
        (.lockAsleep c)) := by
  obtain ⟨hwaiter, hholder, hout⟩ := (Placed.iff_of_free ht).mp (hs.placed t)
  have hperm := Lib.listInsertOrdered_perm s.elemLess t s.sema.waiters
  refine ⟨fun u => ?_, hs.value, hperm.nodup_iff.mpr (List.nodup_cons.mpr ⟨hout, hs.nodup⟩)⟩
  by_cases hut : u = t
  · rw [hut]
    refine ⟨fun w => iff_of_false (hwaiter w) (by simp), iff_of_false hholder (by simp), ?_⟩
    exact iff_of_true (Lib.mem_listInsertOrdered.mpr (.inl rfl)) ⟨c, goto_point_self ..⟩
  · refine (hs.placed u).of_same (goto_point_of_ne _ _ hut) (fun _ => .rfl) .rfl ?_
    exact Lib.mem_listInsertOrdered.trans (or_iff_right hut)

lemma holder_of_value (hs : Locks s) (hvalue : s.sema.value ≠ 0) : s.holder = none := by
  by_contra hne
  exact hvalue (by rw [hs.value, if_neg hne])

lemma waiter_of_free (hs : Locks s) (hfree : s.holder = none) (w : Waiter) : s.waiter w = none := by
  cases hw : s.waiter w with
  | none => rfl
  | some u =>
    obtain ⟨c, hc, -⟩ := ((hs.placed u).waiter w).mp hw
    have hholder := (hs.placed u).holder.mpr (by simp [hc])
    simp [hfree] at hholder

lemma take (hs : Locks s) (ht : (s.point t).Free) (hvalue : s.sema.value ≠ 0) (c : Call) :
    Locks ({ s with
      sema := { s.sema with value := s.sema.value - 1 }
      holder := some t
      waiter := update s.waiter c.waiter (some t) }.goto t (.waiting c)) := by
  have hfree := hs.holder_of_value hvalue
  have hnone := hs.waiter_of_free hfree
  have hone := hs.value
  rw [if_pos hfree] at hone
  refine ⟨fun u => ?_, by simp [State.goto, hone], hs.nodup⟩
  by_cases hut : u = t
  · rw [hut]
    obtain ⟨-, -, hout⟩ := (Placed.iff_of_free ht).mp (hs.placed t)
    refine ⟨fun w => ?_, iff_of_true rfl (by simp), iff_of_false hout (by simp)⟩
    by_cases hw : w = c.waiter
    · simp [hw, State.goto]
    · simpa [State.goto, update_of_ne hw, hnone] using Ne.symm hw
  · refine (hs.placed u).of_same (goto_point_of_ne _ _ hut) (fun w => ?_) ?_ .rfl
    · by_cases hw : w = c.waiter
      · simpa [hw, State.goto, hnone] using Ne.symm hut
      · simp [State.goto, update_of_ne hw]
    · simpa [State.goto, hfree] using Ne.symm hut

/-- The lock is free again: nothing refers to the thread that left `wait` or the woken one. -/
lemma handOver (hs : Locks s) (ht : s.point t = .woken c) (woken : Option ThreadRef)
    (hperm : (woken.toList ++ s'.sema.waiters).Perm s.sema.waiters) (hvalue : s'.sema.value = 1)
    (hfree : s'.holder = none) (hwaiter : s'.waiter = s.waiter) (hself : (s'.point t).Free)
    (hwoken : ∀ w, woken = some w → (s'.point w).Free)
    (hothers : ∀ u, u ≠ t → woken ≠ some u → s'.point u = s.point u) : Locks s' := by
  have hholder := (hs.placed t).holder.mpr (by simp [ht])
  have hnodup := List.nodup_append.mp (hperm.nodup_iff.mpr hs.nodup)
  have hmem : ∀ u, u ∈ s.sema.waiters ↔ woken = some u ∨ u ∈ s'.sema.waiters := by
    intro u
    rw [← hperm.mem_iff, List.mem_append, Option.mem_toList]
  have hunpointed : ∀ u, (∀ c, s.point u ≠ .waiting c) → ∀ w, s'.waiter w ≠ some u := by
    intro u hu w hw
    rw [hwaiter] at hw
    obtain ⟨c, hc, -⟩ := ((hs.placed u).waiter w).mp hw
    exact hu c hc
  refine ⟨fun u => ?_, by rw [hvalue, if_pos hfree], hnodup.2.1⟩
  by_cases hut : u = t
  · have hout : t ∉ s.sema.waiters := mt (hs.placed t).asleep.mp (by simp [ht])
    rw [hut, Placed.iff_of_free hself]
    exact ⟨hunpointed t (by simp [ht]), by simp [hfree], fun hin => hout ((hmem t).mpr (.inr hin))⟩
  · by_cases huw : woken = some u
    · obtain ⟨c', hc'⟩ := (hs.placed u).asleep.mp ((hmem u).mpr (.inl huw))
      rw [Placed.iff_of_free (hwoken u huw)]
      refine ⟨hunpointed u (by simp [hc']), by simp [hfree], fun hin => ?_⟩
      exact hnodup.2.2 u (Option.mem_toList.mpr huw) u hin rfl
    · refine (hs.placed u).of_same (hothers u hut huw) (fun w => by rw [hwaiter]) ?_ ?_
      · rw [hfree, hholder]
        simpa using Ne.symm hut
      · rw [hmem, or_iff_right huw]

lemma release (hs : Locks s) (ht : s.point t = .woken c) :
    ∃ s', s.release t c = .ok s' ∧ Locks s' ∧ Keeps s s' ∧
      s'.ring = s.ring ∧ s'.put = s.put ∧ s'.got = s.got := by
  have hholder := (hs.placed t).holder.mpr (by simp [ht])
  have hzero := hs.value
  rw [hholder, if_neg (by simp)] at hzero
  have hvalue : (s.sema.up s.elemLess).1.value = 1 := by simp [Semaphore.up_value, hzero]
  have hperm := s.sema.up_waiters_perm s.elemLess
  rw [State.release, if_pos hholder]
  generalize s.sema.up s.elemLess = out at hvalue hperm
  obtain ⟨sema, woken⟩ := out
  dsimp only at hvalue hperm ⊢
  cases woken with
  | none =>
    refine ⟨_, rfl, ?_, fun _ _ => .inl, rfl, rfl, rfl⟩
    exact hs.handOver ht none hperm hvalue rfl rfl (by simp) (by simp)
      fun u hut _ => goto_point_of_ne _ _ hut
  | some w =>
    obtain ⟨c', hc'⟩ := (hs.placed w).asleep.mp (hperm.mem_iff.mp (by simp))
    have hwt : w ≠ t := by
      rintro rfl
      rw [ht] at hc'
      cases hc'
    have hunblock := threadUnblock_asleep
      ((goto_point_of_ne { s with sema := sema, holder := none } (.released c) hwt).trans hc')
    refine ⟨_, hunblock, ?_, fun _ _ => .inl, rfl, rfl, rfl⟩
    refine hs.handOver ht (some w) hperm hvalue rfl rfl ?_ ?_ ?_
    · rw [goto_point_of_ne _ _ (Ne.symm hwt), goto_point_self]
      simp
    · rintro w' ⟨⟩
      simp
    · intro u hut huw
      rw [goto_point_of_ne _ _ (fun h => huw (congrArg some h.symm)), goto_point_of_ne _ _ hut]

end Locks

/-! ## Steps -/

/-- What holds of every step that takes place. -/
def Good (s : State) (out : Except Fault State) : Prop := ∃ s', out = .ok s' ∧ Ok s' ∧ Keeps s s'

namespace Ok

lemma transfer (hs : Ok s) (hc : ¬ c.waiter.Holds s.ring) :
    ∃ s', s.transfer c = .ok s' ∧ Ok s' ∧ Keeps s s' ∧
      ∀ u, (s.point u).Free → s'.point u = s.point u := by
  cases c with
  | getc =>
    have hempty : ¬ s.ring.Empty := hc
    have hlocks : Locks { s with ring := s.ring.pop, got := s.got ++ [s.ring.front] } :=
      ⟨fun t => ⟨(hs.placed t).waiter, (hs.placed t).holder, (hs.placed t).asleep⟩,
        hs.value, hs.nodup⟩
    obtain ⟨s', hsignal, hs', hkeeps, ⟨hring, hput, hgot⟩, hfree⟩ :=
      hlocks.signal (w := .notFull) (RingBuffer.not_full_pop hempty)
    refine ⟨s', hsignal, ⟨hs', ?_⟩, hkeeps, hfree⟩
    rw [hring, hput, hgot, List.append_assoc, List.singleton_append,
      ← RingBuffer.contents_pop hempty]
    exact hs.fifo
  | putc byte =>
    have hfull : ¬ s.ring.Full := hc
    have hlocks : Locks { s with ring := s.ring.push byte, put := s.put ++ [byte] } :=
      ⟨fun t => ⟨(hs.placed t).waiter, (hs.placed t).holder, (hs.placed t).asleep⟩,
        hs.value, hs.nodup⟩
    obtain ⟨s', hsignal, hs', hkeeps, ⟨hring, hput, hgot⟩, hfree⟩ :=
      hlocks.signal (w := .notEmpty) (RingBuffer.not_empty_push hfull byte)
    refine ⟨s', hsignal, ⟨hs', ?_⟩, hkeeps, hfree⟩
    rw [hring, hput, hgot, RingBuffer.contents_push hfull, ← List.append_assoc, ← hs.fifo]

/-- A thread that finds the lock taken falls asleep; else it goes on to `wait`. -/
lemma testLock (hs : Ok s) (ht : (s.point t).Free)
    (hc : s.sema.value ≠ 0 → c.waiter.Holds s.ring) : Good s (s.testLock t c) := by
  by_cases hvalue : s.sema.value = 0
  · refine ⟨_, ?_, ⟨hs.toLocks.sleep ht c, hs.fifo⟩, fun _ _ => .inl⟩
    rw [State.testLock, Semaphore.down_of_zero hvalue]
    rfl
  · have hnone := hs.toLocks.waiter_of_free (hs.toLocks.holder_of_value hvalue)
    refine ⟨_, ?_, ⟨hs.toLocks.take ht hvalue c, hs.fifo⟩, fun w u hu => ?_⟩
    · rw [State.testLock, Semaphore.down_of_pos hvalue]
      exact if_pos (hc hvalue)
    · simp [hnone] at hu

/-- Without sleeping in between, the condition that the loop has found still holds in `wait`. -/
lemma loop (hs : Ok s) (ht : (s.point t).Free) : Good s (s.loop t c) := by
  unfold State.loop
  split
  next hc =>
    have hholder := ((Placed.iff_of_free ht).mp (hs.placed t)).2.1
    rw [if_neg hholder]
    exact hs.testLock ht fun _ => hc
  next hc =>
    obtain ⟨s', htransfer, hs', hkeeps, hfree⟩ := hs.transfer hc
    have ht' : (s'.point t).Free := by rwa [hfree t ht]
    refine ⟨s'.goto t .outside, ?_, ⟨hs'.toLocks.goto_free ht' (by simp), hs'.fifo⟩, ?_⟩
    · rw [htransfer]
      rfl
    · intro w u hu
      refine (hkeeps w u hu).imp_right fun hnone => ⟨hnone.1, ?_⟩
      by_cases hut : u = t
      · rw [hut, goto_point_self]
        simp
      · rw [goto_point_of_ne _ _ hut]
        exact hnone.2

end Ok

/-- A thread that has slept in `lock_acquire` finds the queue as it was when it fell asleep. -/
def StillWaits (s : State) : Label → Prop
  | .testLock t => ∀ c, s.point t = .lockTesting c → s.sema.value ≠ 0 → c.waiter.Holds s.ring
  | _ => True

/-- Only the assertion of `wait` after a sleep and those against waiting handlers can fail. -/
lemma attempt_cases (hs : Ok s) (label : Label) :
    (StillWaits s label ∧ Good s (s.attempt label)) ∨
      (StillWaits s label ∧ s.attempt label = .error .disabled) ∨
      (StillWaits s label ∧ s.attempt label = .error .intrContext) ∨
      (¬ StillWaits s label ∧ s.attempt label = .error .waitCondition) := by
  cases label with
  | call t c =>
    by_cases ht : s.point t = .outside
    · refine .inl ⟨trivial, ?_⟩
      rw [State.attempt, if_pos ht]
      exact hs.loop (by simp [ht])
    · exact .inr (.inl ⟨trivial, if_neg ht⟩)
  | testLock t =>
    by_cases hstill : StillWaits s (.testLock t)
    · cases ht : s.point t with
      | lockTesting c =>
        refine .inl ⟨hstill, ?_⟩
        simp only [State.attempt, ht]
        exact hs.testLock (by simp [ht]) (hstill c ht)
      | _ => exact .inr (.inl ⟨hstill, by simp only [State.attempt, ht]⟩)
    · refine .inr (.inr (.inr ⟨hstill, ?_⟩))
      simp only [StillWaits, not_forall] at hstill
      obtain ⟨c, ht, hvalue, hc⟩ := hstill
      simp only [State.attempt, ht, State.testLock, Semaphore.down_of_pos hvalue]
      exact if_neg hc
  | release t =>
    cases ht : s.point t with
    | woken c =>
      obtain ⟨s', hrelease, hs', hkeeps, hring, hput, hgot⟩ := hs.toLocks.release ht
      refine .inl ⟨trivial, s', ?_, ⟨hs', ?_⟩, hkeeps⟩
      · simp only [State.attempt, ht, hrelease]
      · rw [hring, hput, hgot]
        exact hs.fifo
    | _ => exact .inr (.inl ⟨trivial, by simp only [State.attempt, ht]⟩)
  | retest t =>
    cases ht : s.point t with
    | released c =>
      refine .inl ⟨trivial, ?_⟩
      simp only [State.attempt, ht]
      exact hs.loop (by simp [ht])
    | _ => exact .inr (.inl ⟨trivial, by simp only [State.attempt, ht]⟩)
  | handler c =>
    by_cases hc : c.waiter.Holds s.ring
    · exact .inr (.inr (.inl ⟨trivial, if_pos hc⟩))
    · obtain ⟨s', htransfer, hs', hkeeps, -⟩ := hs.transfer hc
      refine .inl ⟨trivial, s', ?_, hs', hkeeps⟩
      rw [State.attempt, if_neg hc, htransfer]
  | setPriority t p =>
    refine .inl ⟨trivial, _, rfl, ⟨⟨fun u => ?_, hs.value, hs.nodup⟩, hs.fifo⟩, fun _ _ => .inl⟩
    exact ⟨(hs.placed u).waiter, (hs.placed u).holder, (hs.placed u).asleep⟩

lemma Ok.step (hs : Ok s) {label : Label} (hstep : s.step label = some s') :
    Ok s' ∧ Keeps s s' := by
  unfold State.step at hstep
  rcases attempt_cases hs label with ⟨-, s₁, h, hs₁, hkeeps⟩ | ⟨-, h⟩ | ⟨-, h⟩ | ⟨-, h⟩
  · rw [h] at hstep
    cases hstep
    exact ⟨hs₁, hkeeps⟩
  all_goals
    rw [h] at hstep
    cases hstep

lemma ok_of_reachable (hs : machine.Reachable s) : Ok s :=
  hs.invariant (I := Ok) (fun _ h => Start.ok h) fun _ _ _ h hstep => (h.step hstep).1

def initial : State where
  ring := ⟨fun _ => 0, 0, 0⟩
  waiter := fun _ => none
  holder := none
  sema := ⟨1, []⟩
  priority := fun _ => 31
  point := fun _ => .outside
  put := []
  got := []

lemma initial_start : Start initial :=
  ⟨rfl, fun _ => rfl, rfl, rfl, fun _ => rfl, rfl, rfl⟩

/-- In every run without a failed assertion bytes leave in the order in which they were put, the
queue holds the rest, and no waiter pointer to a blocked thread is overwritten. -/
theorem fifo_of_reachable (hs : machine.Reachable s) :
    s.got <+: s.put ∧ s.put = s.got ++ s.ring.contents ∧ s.ring.contents.length ≤ 63 ∧
      ∀ label s', s.step label = some s' → Keeps s s' := by
  have hok := ok_of_reachable hs
  refine ⟨⟨s.ring.contents, hok.fifo.symm⟩, hok.fifo, ?_, fun _ _ h => (hok.step h).2⟩
  rw [RingBuffer.length_contents]
  exact Nat.le_of_lt_succ s.ring.count_lt

/-- A thread sleeps until a handler has put a byte, and gets it. -/
theorem fifo_of_reachable_handshake :
    ∃ s, machine.run initial
        [.call 1 .getc, .handler (.putc 65), .release 1, .retest 1] = some s ∧
      s.got = [65] ∧ s.put = s.got ++ s.ring.contents := by
  have hrun : ∃ s, machine.run initial
      [.call 1 .getc, .handler (.putc 65), .release 1, .retest 1] = some s ∧ s.got = [65] :=
    ⟨_, rfl, rfl⟩
  obtain ⟨s, hrun, hgot⟩ := hrun
  have hs := Machine.reachable_run (.start initial_start) hrun
  exact ⟨s, hrun, hgot, (fifo_of_reachable hs).2.1⟩

/-- Two threads call `intq_getc` on the empty queue; two bytes arrive before the first of them
runs again. -/
def twoReaders : List Label :=
  [.call 1 .getc, .call 2 .getc, .handler (.putc 65), .handler (.putc 66), .release 1, .retest 1]

end Intq

end Pintos.Devices
