import Pintos.Threads.Kernel

/-! # Thread states from `thread_init` on (threads/thread.c, threads/synch.c, devices/intq.c)

The routines that change the status of a thread or move its `elem`, with their assertions.
`idle_thread` is null until the idle thread has run for the first time, a new thread stays
blocked between `init_thread` and the `thread_unblock` of its creator, and an interrupt
queue keeps the thread that waits for it in one of two pointers. A section with interrupts
off is one operation, and what a thread does after it is another one: `sema_down` is one
test of its loop, and `check_priority`, the end of `thread_create` and the return from a
timer interrupt are the places that call `thread_yield`.
-/

namespace Pintos.Threads

open Foundation Lib Function

/-- The assertions of the routines. -/
inductive Panic where
  | isThread
  | currentRunning
  | unblockBlocked
  | scheduleNotRunning
  deriving DecidableEq

/-- `waiter q` is a member of an interrupt queue; `created` are the threads not yet unblocked. -/
structure RunQueue where
  status : ThreadRef → ThreadStatus
  priority : ThreadRef → Int
  allList : List ThreadRef
  readyList : List ThreadRef
  current : ThreadRef
  idleThread : Option ThreadRef
  sema : SemaRef → Semaphore
  waiter : Nat → Option ThreadRef
  created : List ThreadRef
  threadTicks : Nat

namespace RunQueue

/-- `comparePriority` on the ready list and on the waiters of a semaphore. -/
def elemLess (k : RunQueue) (a b : ThreadRef) : Bool := decide (k.priority a > k.priority b)

def setStatus (k : RunQueue) (t : ThreadRef) (st : ThreadStatus) : RunQueue :=
  { k with status := Function.update k.status t st }

def setSema (k : RunQueue) (r : SemaRef) (sema : Semaphore) : RunQueue :=
  { k with sema := Function.update k.sema r sema }

def setWaiter (k : RunQueue) (q : Nat) (t : Option ThreadRef) : RunQueue :=
  { k with waiter := Function.update k.waiter q t }

def insertReady (k : RunQueue) (t : ThreadRef) : RunQueue :=
  { k with readyList := listInsertOrdered k.elemLess t k.readyList }

def threadCurrent (k : RunQueue) : Except Panic ThreadRef :=
  if k.current ∉ k.allList then .error .isThread
  else if k.status k.current ≠ .running then .error .currentRunning
  else .ok k.current

def nextThreadToRun (k : RunQueue) : Option ThreadRef × List ThreadRef :=
  match k.readyList with
  | [] => (k.idleThread, [])
  | t :: ts => (some t, ts)

/-- The switch to the next thread with its `thread_schedule_tail`. -/
def switchTo (k : RunQueue) (t : ThreadRef) (ready : List ThreadRef) : RunQueue :=
  { k with
    current := t
    readyList := ready
    status := Function.update k.status t .running
    threadTicks := 0 }

def schedule (k : RunQueue) : Except Panic RunQueue :=
  if k.status k.current = .running then .error .scheduleNotRunning
  else
    match k.nextThreadToRun with
    | (none, _) => .error .isThread
    | (some t, ready) => if t ∈ k.allList then .ok (k.switchTo t ready) else .error .isThread

def threadBlock (k : RunQueue) : Except Panic RunQueue := do
  let cur ← k.threadCurrent
  (k.setStatus cur .blocked).schedule

def threadUnblock (k : RunQueue) (t : ThreadRef) : Except Panic RunQueue :=
  if t ∉ k.allList then .error .isThread
  else if k.status t ≠ .blocked then .error .unblockBlocked
  else .ok ((k.insertReady t).setStatus t .ready)

def threadYield (k : RunQueue) : Except Panic RunQueue := do
  let cur ← k.threadCurrent
  let k' := if k.idleThread ≠ some cur then k.insertReady cur else k
  (k'.setStatus cur .ready).schedule

/-- `thread_exit` after `process_exit`. -/
def threadExit (k : RunQueue) : Except Panic RunQueue := do
  let cur ← k.threadCurrent
  ({ k with allList := k.allList.erase cur }.setStatus cur .dying).schedule

def initThread (k : RunQueue) (t : ThreadRef) (priority : Int) : RunQueue :=
  { k with
    status := Function.update k.status t .blocked
    priority := Function.update k.priority t priority
    allList := k.allList ++ [t]
    created := t :: k.created }

/-- The `thread_unblock` of `thread_create`. -/
def startThread (k : RunQueue) (t : ThreadRef) : Except Panic RunQueue := do
  let k' ← k.threadUnblock t
  .ok { k' with created := k'.created.filter (· ≠ t) }

def idle (k : RunQueue) : Except Panic RunQueue := do
  let cur ← k.threadCurrent
  .ok { k with idleThread := some cur }

/-- `thread_tick`, and the yield that it asks for on the return from the interrupt. -/
def threadTick (k : RunQueue) : Except Panic RunQueue := do
  let _ ← k.threadCurrent
  let k' := { k with threadTicks := k.threadTicks + 1 }
  if Kernel.timeSlice ≤ k'.threadTicks then k'.threadYield else .ok k'

def semaInit (k : RunQueue) (r : SemaRef) (value : Nat) : RunQueue := k.setSema r ⟨value, []⟩

def semaDown (k : RunQueue) (r : SemaRef) : Except Panic RunQueue :=
  let out := (k.sema r).down k.elemLess k.current
  if out.2 then .ok (k.setSema r out.1) else (k.setSema r out.1).threadBlock

/-- `sema_up` up to its call of `check_priority`. -/
def semaUp (k : RunQueue) (r : SemaRef) : Except Panic RunQueue :=
  let out := (k.sema r).up k.elemLess
  match out.2 with
  | none => .ok (k.setSema r out.1)
  | some w => (k.setSema r out.1).threadUnblock w

def intqWait (k : RunQueue) (q : Nat) : Except Panic RunQueue := do
  let cur ← k.threadCurrent
  (k.setWaiter q (some cur)).threadBlock

def intqSignal (k : RunQueue) (q : Nat) : Except Panic RunQueue :=
  match k.waiter q with
  | none => .ok k
  | some t => do
      let k' ← k.threadUnblock t
      .ok (k'.setWaiter q none)

/-- `setPriority` stands for `thread_set_priority` and for priority donation. -/
inductive Op where
  | initThread (t : ThreadRef) (priority : Int)
  | startThread (t : ThreadRef)
  | threadYield
  | threadBlock
  | threadUnblock (t : ThreadRef)
  | threadExit
  | setPriority (t : ThreadRef) (priority : Int)
  | semaInit (r : SemaRef) (value : Nat)
  | semaDown (r : SemaRef)
  | semaUp (r : SemaRef)
  | intqWait (q : Nat)
  | intqSignal (q : Nat)
  | idle
  | threadTick

def Op.run (k : RunQueue) : Op → Except Panic RunQueue
  | .initThread t priority => .ok (k.initThread t priority)
  | .startThread t => k.startThread t
  | .threadYield => k.threadYield
  | .threadBlock => k.threadBlock
  | .threadUnblock t => k.threadUnblock t
  | .threadExit => k.threadExit
  | .setPriority t priority => .ok { k with priority := Function.update k.priority t priority }
  | .semaInit r value => .ok (k.semaInit r value)
  | .semaDown r => k.semaDown r
  | .semaUp r => k.semaUp r
  | .intqWait q => k.intqWait q
  | .intqSignal q => k.intqSignal q
  | .idle => k.idle
  | .threadTick => k.threadTick

/-- `idle` sets `idle_thread` once, then only blocks. A new thread's page is no other thread's. -/
def Enabled (k : RunQueue) : Op → Prop
  | .initThread t priority =>
      k.idleThread ≠ some k.current ∧ t ∉ k.allList ∧ 0 ≤ priority ∧ priority ≤ 63
  | .startThread t => t ∈ k.created
  | .threadExit | .semaDown _ | .intqWait _ => k.idleThread ≠ some k.current
  | .idle => k.idleThread = none
  | _ => True

instance (k : RunQueue) : ∀ op : Op, Decidable (k.Enabled op)
  | .initThread _ _ => inferInstanceAs (Decidable (_ ∧ _))
  | .startThread t => inferInstanceAs (Decidable (t ∈ k.created))
  | .threadExit | .semaDown _ | .intqWait _ => inferInstanceAs (Decidable (_ ≠ _))
  | .idle => inferInstanceAs (Decidable (_ = _))
  | .threadYield | .threadBlock | .threadUnblock _ | .setPriority _ _ | .semaInit _ _ |
    .semaUp _ | .intqSignal _ | .threadTick => isTrue trivial

structure Start (k : RunQueue) : Prop where
  threads : k.allList = [k.current]
  running : k.status k.current = .running
  ready : k.readyList = []
  idle : k.idleThread = none
  unused : ∀ r, (k.sema r).waiters = []
  silent : ∀ q, k.waiter q = none
  created : k.created = []

def machine : Machine RunQueue Op where
  start := Start
  step k op := if k.Enabled op then (op.run k).toOption else none

end RunQueue

namespace Kernel

/-- The part of the kernel that decides which thread runs. -/
def toRunQueue (k : Kernel) : RunQueue where
  status := k.status
  priority := k.prio
  allList := k.allList
  readyList := k.readyList
  current := k.current
  idleThread := some k.idleThread
  sema := k.sema
  waiter := fun _ => none
  created := []
  threadTicks := k.threadTicks

end Kernel

end Pintos.Threads
