import Pintos.Foundation.Transition
import Pintos.Threads.Donation

/-! # The scheduler (threads/thread.c, devices/timer.c, threads/interrupt.c)

The kernel as a machine. Every routine is cut into pieces that run without a thread
switch in their middle; a thread that is switched out keeps the pieces it has still to
run. Only the running thread makes calls and runs pieces, and interrupts may come before
any of them.
-/

namespace Pintos.Threads

open Foundation Lib Function

inductive ThreadStatus where
  | running
  | ready
  | blocked
  | dying
  deriving DecidableEq

/-- A piece of a kernel routine: `request` to `take` are `lock_acquire`, `giveBack` to `check`
`lock_release`. -/
inductive Piece where
  | request (l : LockRef)
  | down (r : SemaRef)
  | take (l : LockRef)
  | tryDown (r : SemaRef)
  | tryTake (l : LockRef)
  | giveBack (l : LockRef)
  | clear (l : LockRef)
  | up (r : SemaRef)
  | check
  | setPriority (p : Int)
  | start (t : ThreadRef) (name : List UInt8) (p : Int)
  | compare (p : Int)
  | block
  | yield
  | unblock (t : ThreadRef)
  | push (c : CondRef)
  | signal (c : CondRef) (l : LockRef)
  | sleep (ticks : Int)
  deriving DecidableEq

/-- What a thread asks of the kernel. `threadCreate` has the locks taken on its way and the page of
the new thread. -/
inductive Call where
  | threadCreate (locks : List LockRef) (t : ThreadRef) (name : List UInt8) (p : Int)
  | threadUnblock (t : ThreadRef)
  | threadBlock
  | threadYield
  | threadSetPriority (p : Int)
  | semaDown (r : SemaRef)
  | semaTryDown (r : SemaRef)
  | semaUp (r : SemaRef)
  | lockAcquire (l : LockRef)
  | lockTryAcquire (l : LockRef)
  | lockRelease (l : LockRef)
  | condWait (c : CondRef) (l : LockRef)
  | condSignal (c : CondRef) (l : LockRef)
  | timerSleep (ticks : Int)
  deriving DecidableEq

def lockAcquirePieces (l : LockRef) : List Piece := [.request l, .down (.lock l), .take l]

def lockReleasePieces (l : LockRef) : List Piece :=
  [.giveBack l, .clear l, .up (.lock l), .check]

def Call.pieces (cur : ThreadRef) : Call → List Piece
  | .threadCreate locks t name p =>
      locks.flatMap (fun l => lockAcquirePieces l ++ lockReleasePieces l) ++
        [.start t name p, .compare p]
  | .threadUnblock t => [.unblock t]
  | .threadBlock => [.block]
  | .threadYield => [.yield]
  | .threadSetPriority p => [.setPriority p]
  | .semaDown r => [.down r]
  | .semaTryDown r => [.tryDown r]
  | .semaUp r => [.up r, .check]
  | .lockAcquire l => lockAcquirePieces l
  | .lockTryAcquire l => [.tryTake l]
  | .lockRelease l => lockReleasePieces l
  | .condWait c l =>
      .push c :: lockReleasePieces l ++ (.down (.waiter cur) :: lockAcquirePieces l)
  | .condSignal c l => [.signal c l]
  | .timerSleep ticks => [.sleep ticks]

/-- `pending t` is what `t` runs when next dispatched; `conds` has threads for their
`semaphore_elem`. -/
structure Kernel extends Sync where
  status : ThreadRef → ThreadStatus
  pending : ThreadRef → List Piece
  readyList : List ThreadRef
  current : ThreadRef
  idleThread : ThreadRef
  condWaiters : CondRef → List ThreadRef
  sleepList : List ThreadRef
  timeChecker : ThreadRef → Int
  ticks : Int
  threadTicks : Nat

namespace Kernel

def prio (k : Kernel) (t : ThreadRef) : Int := (k.thread t).priority

def setStatus (k : Kernel) (t : ThreadRef) (st : ThreadStatus) : Kernel :=
  { k with status := Function.update k.status t st }

def setPending (k : Kernel) (t : ThreadRef) (ps : List Piece) : Kernel :=
  { k with pending := Function.update k.pending t ps }

def nextThreadToRun (k : Kernel) : ThreadRef × List ThreadRef :=
  match k.readyList with
  | [] => (k.idleThread, [])
  | t :: ts => (t, ts)

def schedule (k : Kernel) : Kernel :=
  let next := k.nextThreadToRun
  { k with
    current := next.1
    readyList := next.2
    status := Function.update k.status next.1 .running
    threadTicks := 0 }

def insertReady (k : Kernel) (t : ThreadRef) : Kernel :=
  { k with readyList := listInsertOrdered k.elemLess t k.readyList }

def threadBlock (k : Kernel) : Kernel := (k.setStatus k.current .blocked).schedule

def threadUnblock (k : Kernel) (t : ThreadRef) : Kernel := (k.insertReady t).setStatus t .ready

def threadYield (k : Kernel) : Kernel :=
  let k' := if k.current ≠ k.idleThread then k.insertReady k.current else k
  (k'.setStatus k.current .ready).schedule

def checkPriority (k : Kernel) : Kernel :=
  match k.readyList with
  | [] => k
  | t :: _ => if k.prio k.current < k.prio t then k.threadYield else k

def threadGetPriority (k : Kernel) : Int :=
  match (k.thread k.current).donor.getLast? with
  | some other =>
      if k.prio other > k.prio k.current then k.prio other else k.prio k.current
  | none => k.prio k.current

/-- A test of the loop of `sema_down`; a thread that blocks tests again when it runs. -/
def semaDown (k : Kernel) (r : SemaRef) : Kernel :=
  let out := k.toSync.semaDown k.current r
  let k' := { k with toSync := out.1 }
  if out.2 then k' else (k'.setPending k.current (.down r :: k.pending k.current)).threadBlock

/-- `sema_up` up to its call of `check_priority`. -/
def semaUp (k : Kernel) (r : SemaRef) : Kernel :=
  let out := k.toSync.semaUp r
  let k' := { k with toSync := out.1 }
  match out.2 with
  | none => k'
  | some w => k'.threadUnblock w

def initThread (k : Kernel) (t : ThreadRef) (name : List UInt8) (p : Int) : Kernel :=
  { k with
    thread := Function.update k.thread t ⟨name.take 15, p, p, [], none⟩
    status := Function.update k.status t .blocked
    pending := Function.update k.pending t []
    allList := k.allList ++ [t] }

/-- `init_thread` and `thread_unblock` in `thread_create`: nothing refers to the thread before. -/
def startThread (k : Kernel) (t : ThreadRef) (name : List UInt8) (p : Int) : Kernel :=
  (k.initThread t name p).threadUnblock t

def condPush (k : Kernel) (c : CondRef) : Kernel :=
  { k with
    toSync := k.toSync.setSema (.waiter k.current) ⟨0, []⟩
    condWaiters := Function.update k.condWaiters c (k.condWaiters c ++ [k.current]) }

/-- `cond_signal` up to its call of `sema_up`. -/
def condSignal (k : Kernel) (c : CondRef) : Option Kernel :=
  match condSort k.thread (fun w => (k.sema (.waiter w)).waiters) (k.condWaiters c) with
  | none => none
  | some [] => some k
  | some (w :: ws) =>
      some ({ k with condWaiters := Function.update k.condWaiters c ws }.setPending k.current
        (.up (.waiter w) :: .check :: k.pending k.current))

lemma condSignal_cases {k k' : Kernel} {c : CondRef} (hs : k.condSignal c = some k') :
    k' = k ∨ ∃ w ws, k' = { k with condWaiters := update k.condWaiters c ws }.setPending
      k.current (.up (.waiter w) :: .check :: k.pending k.current) := by
  unfold condSignal at hs
  split at hs
  next => cases hs
  next => exact .inl (Option.some.inj hs).symm
  next w ws _ => exact .inr ⟨w, ws, (Option.some.inj hs).symm⟩

def timerSleep (k : Kernel) (ticks : Int) : Kernel :=
  let timeChecker := Function.update k.timeChecker k.current (k.ticks + ticks)
  semaDown
    { k with
      toSync := k.toSync.setSema (.sleep k.current) ⟨0, []⟩
      timeChecker := timeChecker
      sleepList := listInsertOrdered (fun a b => decide (timeChecker a < timeChecker b))
        k.current k.sleepList }
    (.sleep k.current)

/-- The loop of `timer_wakeup` over the sleepers. -/
def timerWakeup (k : Kernel) : List ThreadRef → Kernel
  | [] => { k with sleepList := [] }
  | t :: ts =>
      if k.ticks ≥ k.timeChecker t then timerWakeup (k.semaUp (.sleep t)) ts
      else { k with sleepList := t :: ts }

/-- `timer_interrupt` without its call of `thread_tick`. -/
def tick (k : Kernel) : Kernel :=
  { k with ticks := k.ticks + 1 }.timerWakeup k.sleepList

def timeSlice : Nat := 4

/-- A timer interrupt, with the yield on return that `thread_tick` asks for when the time
slice is over. -/
def timerInterrupt (k : Kernel) : Kernel :=
  let k' := { k.tick with threadTicks := k.tick.threadTicks + 1 }
  if timeSlice ≤ k'.threadTicks then k'.threadYield else k'

/-- `t` is blocked by a bare `thread_block`, so that `thread_unblock` may wake it. -/
def Parked (k : Kernel) (t : ThreadRef) : Prop :=
  t ∈ k.allList ∧ k.status t = .blocked ∧ k.pending t = [] ∧ t ≠ k.idleThread

instance (k : Kernel) (t : ThreadRef) : Decidable (k.Parked t) :=
  inferInstanceAs (Decidable (_ ∧ _))

/-- What the handler of a device does to threads: `sema_up`, or `thread_unblock` as the
interrupt queues use it. -/
inductive Wake where
  | sema (r : SemaRef)
  | thread (t : ThreadRef)

def wake (k : Kernel) : List Wake → Option Kernel
  | [] => some k
  | .sema r :: ws => wake (k.semaUp r) ws
  | .thread t :: ws => if k.Parked t then wake (k.threadUnblock t) ws else none

/-- The next piece of the running thread; the conditions are assertions. -/
def exec (k : Kernel) : Piece → Option Kernel
  | .request l =>
      if k.holder l = some k.current then none
      else some { k with toSync := k.toSync.donate k.current l }
  | .down r => some (k.semaDown r)
  | .take l => some { k with toSync := k.toSync.takeLock k.current l }
  | .tryDown r => some { k with toSync := (k.toSync.semaTryDown r).1 }
  | .tryTake l =>
      if k.holder l = some k.current then none
      else
        let out := k.toSync.semaTryDown (.lock l)
        some { k with toSync := if out.2 then out.1.setHolder l (some k.current) else out.1 }
  | .giveBack l =>
      if k.holder l = some k.current then
        some { k with
          toSync := (k.toSync.donationBack k.current l).priorityRecheck k.current }
      else none
  | .clear l => some { k with toSync := k.toSync.setHolder l none }
  | .up r => some (k.semaUp r)
  | .check => some k.checkPriority
  | .setPriority p =>
      some { k with
        toSync := k.toSync.setThread k.current
          { k.thread k.current with priority := p, originalPriority := p } }.checkPriority
  | .start t name p =>
      if t ∈ k.allList ∨ p < 0 ∨ 63 < p then none else some (k.startThread t name p)
  | .compare p => some (if p ≥ k.threadGetPriority then k.threadYield else k)
  | .block => some k.threadBlock
  | .yield => some k.threadYield
  | .unblock t => if k.Parked t then some (k.threadUnblock t) else none
  | .push c => some (k.condPush c)
  | .signal c l => if k.holder l = some k.current then k.condSignal c else none
  | .sleep ticks => some (k.timerSleep ticks)

inductive Event where
  | call (c : Call)
  | next
  | timer
  | device (ws : List Wake)

/-- The idle thread only ever blocks. -/
def step (k : Kernel) : Event → Option Kernel
  | .call c =>
      if k.pending k.current = [] ∧ (k.current = k.idleThread → c = .threadBlock) then
        some (k.setPending k.current (c.pieces k.current))
      else none
  | .next =>
      match k.pending k.current with
      | [] => none
      | p :: ps => (k.setPending k.current ps).exec p
  | .timer => some k.timerInterrupt
  | .device ws => k.wake ws

/-- The state after `thread_start`: the initial thread runs, the idle thread is blocked. -/
structure Start (k : Kernel) : Prop where
  threads : k.allList = [k.current, k.idleThread]
  distinct : k.current ≠ k.idleThread
  running : k.status k.current = .running
  idle : k.status k.idleThread = .blocked
  ready : k.readyList = []
  pending : ∀ t, k.pending t = []
  free : ∀ l, k.holder l = none ∧ k.sema (.lock l) = ⟨1, []⟩
  unused : ∀ r, (k.sema r).waiters = []
  fresh : ∀ t ∈ k.allList, (k.thread t).donor = [] ∧ (k.thread t).tryLock = none ∧
    (k.thread t).priority = (k.thread t).originalPriority
  awake : k.sleepList = [] ∧ ∀ c, k.condWaiters c = []

def machine : Machine Kernel Event := ⟨Start, step⟩

end Kernel

end Pintos.Threads
