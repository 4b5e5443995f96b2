import Pintos.Foundation.Transition
import Pintos.Threads.Synch

/-! # Processes and child records (userprog/process.c, userprog/syscall.c)

A tree of processes that execute, wait for and outlive one another. Each process is at one
point of `process_execute`, `process_wait`, `exit` or `process_exit`, and takes one access
of a child record or one semaphore operation a step. A record is memory: it has an address,
its parent frees it, `malloc` may give the address out again, and the child reaches it
through `child_proc` whatever has become of it in the meantime.
-/

namespace Pintos.Userprog

open Foundation Threads Function

abbrev Tid := Nat

structure Addr where
  byte : Nat
  deriving DecidableEq

/-- `ERROR` and `INIT_EXIT_STATUS`. -/
def error : Int := -1

def initExitStatus : Int := -1

/-- The steps of `process_wait` after its two early returns. -/
inductive WaitPoint where
  | set
  | test
  | up
  | down
  /-- Blocked on `sema_wait`. -/
  | sleep
  | read
  | remove (result : Int)
  deriving DecidableEq

inductive ExitPoint where
  | store (status : Int)
  | print
  | free
  | notify
  | test
  | up
  | down
  /-- Blocked on `sema_zombi`. -/
  | sleep
  deriving DecidableEq

inductive Point where
  | unborn
  /-- In `start_process`, before the outcome of `load`. -/
  | starting
  | running
  /-- In `process_execute`, before or asleep in `sema_down (&child_t->sema_load)`. -/
  | loading (c : Tid)
  | waiting (c : Tid) (a : Addr) (w : WaitPoint)
  | exiting (e : ExitPoint)
  /-- Past the notification of the parent; `process_exit` ends in `thread_block`. -/
  | finished
  deriving DecidableEq

/-- The threads' fields, then those of the records. `less` compares present priorities. The last
three fields are history: the status passed to `exit`, exit flags set, and waits returned. -/
structure Processes where
  point : Tid → Point
  parent : Tid → Option Tid
  childProc : Tid → Option Addr
  childList : Tid → List Addr
  executable : Tid → Bool
  semaLoad : Tid → Nat
  semaWait : Tid → Nat
  less : Tid → Tid → Bool
  live : Addr → Bool
  pid : Addr → Tid
  exit : Addr → Bool
  wait : Addr → Bool
  exitStatus : Addr → Int
  semaZombi : Addr → Semaphore
  passed : Tid → Option Int
  exited : Tid → Bool
  waited : Tid → Bool

namespace Processes

def setPoint (s : Processes) (t : Tid) (pt : Point) : Processes :=
  { s with point := Function.update s.point t pt }

/-- No thread leaves `all_list`: `thread_exit` would take it off after `process_exit`,
which does not return. -/
def threadExist (s : Processes) (t : Tid) : Bool := s.point t ≠ .unborn

def parentExists (s : Processes) (t : Tid) : Bool :=
  match s.parent t with
  | none => false
  | some p => s.threadExist p

/-- `add_child_proc`, with the address that `malloc` returns. -/
def addChildProc (s : Processes) (p c : Tid) (a : Addr) : Processes :=
  { s with
    childList := Function.update s.childList p (s.childList p ++ [a])
    live := Function.update s.live a true
    pid := Function.update s.pid a c
    exit := Function.update s.exit a false
    wait := Function.update s.wait a false
    exitStatus := Function.update s.exitStatus a initExitStatus
    semaZombi := Function.update s.semaZombi a ⟨0, []⟩ }

def getChildProc (s : Processes) (p c : Tid) : Option Addr :=
  (s.childList p).find? fun a => s.pid a = c

/-- `remove_child_proc`, and a round of `free_child_proc`. -/
def removeChildProc (s : Processes) (p : Tid) (a : Addr) : Processes :=
  { s with
    childList := Function.update s.childList p ((s.childList p).erase a)
    live := Function.update s.live a false }

/-- The fields that `thread_create` gives the new thread. -/
def initThread (s : Processes) (p c : Tid) (a : Option Addr) : Processes :=
  { s with
    point := Function.update (Function.update s.point c .starting) p (.loading c)
    parent := Function.update s.parent c (some p)
    childProc := Function.update s.childProc c a
    childList := Function.update s.childList c []
    executable := Function.update s.executable c false
    semaLoad := Function.update s.semaLoad c 0
    semaWait := Function.update s.semaWait c 0
    passed := Function.update s.passed c none
    exited := Function.update s.exited c false
    waited := Function.update s.waited c false }

/-- `process_execute` up to its wait. `a` is the new record, `none` without memory. -/
def processExecute (s : Processes) (p c : Tid) (a : Option Addr) : Option Processes :=
  if s.point p = .running ∧ s.point c = .unborn then
    match a with
    | none => some (s.initThread p c none)
    | some a => if s.live a then none else some ((s.initThread p c a).addChildProc p c a)
  else none

inductive LoadOutcome where
  | noMemory
  | failed
  | loaded
  deriving DecidableEq

/-- `start_process`. Without memory it returns before `sema_load` is upped. -/
def startProcess (s : Processes) (c : Tid) (o : LoadOutcome) : Option Processes :=
  if s.point c = .starting then
    match o with
    | .noMemory => some (s.setPoint c (.exiting .print))
    | .failed =>
        some { s.setPoint c (.exiting .print) with
          semaLoad := Function.update s.semaLoad c (s.semaLoad c + 1) }
    | .loaded =>
        some { s.setPoint c .running with
          semaLoad := Function.update s.semaLoad c (s.semaLoad c + 1)
          executable := Function.update s.executable c true }
  else none

/-- A `process_wait` on `c` returns to `p`. -/
def returned (s : Processes) (p c : Tid) : Processes :=
  if s.parent c = some p then { s with waited := Function.update s.waited c true } else s

/-- A call of `process_wait`, up to the assignment of the flag. -/
def processWait (s : Processes) (p c : Tid) : Option Processes :=
  if s.point p = .running then
    match s.getChildProc p c with
    | none => some (s.returned p c)
    | some a =>
        if s.wait a then some (s.returned p c) else some (s.setPoint p (.waiting c a .set))
  else none

/-- `sema_up (&child->sema_zombi)`; a woken child tests the semaphore again. -/
def upZombi (s : Processes) (p c : Tid) (a : Addr) : Option Processes :=
  let out := (s.semaZombi a).up s.less
  let s' := { s with semaZombi := Function.update s.semaZombi a out.1 }
  match out.2 with
  | none => some (s'.setPoint p (.waiting c a .read))
  | some w =>
      if s.point w = .exiting .sleep then
        some ((s'.setPoint w (.exiting .down)).setPoint p (.waiting c a .read))
      else none

def waitStep (s : Processes) (p c : Tid) (a : Addr) : WaitPoint → Option Processes
  | .set =>
      some { s.setPoint p (.waiting c a .test) with wait := Function.update s.wait a true }
  | .test => some (s.setPoint p (.waiting c a (if s.exit a then .up else .down)))
  | .up => s.upZombi p c a
  | .down =>
      if s.semaWait p = 0 then some (s.setPoint p (.waiting c a .sleep))
      else
        some { s.setPoint p (.waiting c a .read) with
          semaWait := Function.update s.semaWait p (s.semaWait p - 1) }
  | .sleep => none
  | .read => some (s.setPoint p (.waiting c a (.remove (s.exitStatus a))))
  | .remove _ => some (((s.setPoint p .running).removeChildProc p a).returned p c)

/-- The parent is woken from `sema_wait` if it sleeps there. -/
def wakeParent (pt : Point) : Point :=
  match pt with
  | .waiting c a .sleep => .waiting c a .down
  | pt => pt

/-- `sema_up (&parent->sema_wait)` by the child `t`, which then is past the block. -/
def upParent (s : Processes) (t p : Tid) : Processes :=
  { s with
    point := Function.update (Function.update s.point p (wakeParent (s.point p))) t .finished
    semaWait := Function.update s.semaWait p (s.semaWait p + 1) }

/-- A test of the loop of `sema_down (&cur->child_proc->sema_zombi)`. -/
def downZombi (s : Processes) (t : Tid) (a : Addr) : Processes :=
  let out := (s.semaZombi a).down s.less t
  let s' := { s with semaZombi := Function.update s.semaZombi a out.1 }
  s'.setPoint t (if out.2 then .finished else .exiting .sleep)

/-- A step that uses the record through `child_proc` has no successor when the pointer is
null. -/
def exitStep (s : Processes) (t : Tid) : ExitPoint → Option Processes
  | .store v =>
      match s.childProc t with
      | some a =>
          if s.parentExists t then
            some { s.setPoint t (.exiting .print) with
              exitStatus := Function.update s.exitStatus a v }
          else some (s.setPoint t (.exiting .print))
      | none => some (s.setPoint t (.exiting .print))
  | .print =>
      if s.executable t ∧ s.childProc t = none then none
      else some (s.setPoint t (.exiting .free))
  | .free =>
      match s.childList t with
      | [] => some (s.setPoint t (.exiting .notify))
      | a :: _ => some (s.removeChildProc t a)
  | .notify =>
      match s.childProc t with
      | some a =>
          if s.parentExists t ∧ s.executable t then
            some { s.setPoint t (.exiting .test) with
              exit := Function.update s.exit a true
              exited := Function.update s.exited t true }
          else some (s.setPoint t .finished)
      | none => some (s.setPoint t .finished)
  | .test =>
      match s.childProc t with
      | some a => some (s.setPoint t (.exiting (if s.wait a then .up else .down)))
      | none => none
  | .up =>
      match s.parent t with
      | some p => some (s.upParent t p)
      | none => none
  | .down =>
      match s.childProc t with
      | some a => some (s.downZombi t a)
      | none => none
  | .sleep => none

/-- `threadExit` is the end of a killed process, `reuse` any use of memory without a record,
`reorder` any change of priorities. -/
inductive Op where
  | execute (p c : Tid) (a : Option Addr)
  | start (c : Tid) (o : LoadOutcome)
  | wait (p c : Tid)
  | exit (t : Tid) (status : Int)
  | threadExit (t : Tid)
  | next (t : Tid)
  | reuse (a : Addr) (pid : Tid) (exit wait : Bool) (status : Int) (zombi : Semaphore)
  | reorder (less : Tid → Tid → Bool)

def step (s : Processes) : Op → Option Processes
  | .execute p c a => s.processExecute p c a
  | .start c o => s.startProcess c o
  | .wait p c => s.processWait p c
  | .exit t v =>
      if s.point t = .running then
        some { s.setPoint t (.exiting (.store v)) with
          passed := Function.update s.passed t (some v) }
      else none
  | .threadExit t =>
      if s.point t = .running then some (s.setPoint t (.exiting .print)) else none
  | .next t =>
      match s.point t with
      | .loading c =>
          if s.semaLoad c = 0 then none
          else
            some { s.setPoint t .running with
              semaLoad := Function.update s.semaLoad c (s.semaLoad c - 1) }
      | .waiting c a w => s.waitStep t c a w
      | .exiting e => s.exitStep t e
      | _ => none
  | .reuse a pid exit wait status zombi =>
      if s.live a then none
      else
        some { s with
          pid := Function.update s.pid a pid
          exit := Function.update s.exit a exit
          wait := Function.update s.wait a wait
          exitStatus := Function.update s.exitStatus a status
          semaZombi := Function.update s.semaZombi a zombi }
  | .reorder less => some { s with less := less }

/-- Before the first `process_execute`: threads that run and have no children. -/
structure Start (s : Processes) : Prop where
  point : ∀ t, s.point t = .unborn ∨ s.point t = .running
  parent : ∀ t, s.parent t = none
  childProc : ∀ t, s.childProc t = none
  childList : ∀ t, s.childList t = []
  semaWait : ∀ t, s.semaWait t = 0
  live : ∀ a, s.live a = false
  history : ∀ t, s.exited t = false ∧ s.waited t = false

def machine : Machine Processes Op := ⟨Start, step⟩

def booted : Processes where
  point := fun t => if t = 0 then .running else .unborn
  parent := fun _ => none
  childProc := fun _ => none
  childList := fun _ => []
  executable := fun _ => false
  semaLoad := fun _ => 0
  semaWait := fun _ => 0
  less := fun _ _ => false
  live := fun _ => false
  pid := fun _ => 0
  exit := fun _ => false
  wait := fun _ => false
  exitStatus := fun _ => 0
  semaZombi := fun _ => ⟨0, []⟩
  passed := fun _ => none
  exited := fun _ => false
  waited := fun _ => false

lemma booted_start : machine.start booted where
  point t := by
    by_cases h : t = 0
    · exact .inr (if_pos h)
    · exact .inl (if_neg h)
  parent _ := rfl
  childProc _ := rfl
  childList _ := rfl
  semaWait _ := rfl
  live _ := rfl
  history _ := ⟨rfl, rfl⟩

end Processes

end Pintos.Userprog
