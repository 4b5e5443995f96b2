import Mathlib.Algebra.Group.Nat.Defs
import Pintos.Lib.KernelList

/-! # Threads, semaphores and locks (threads/thread.h, threads/synch.c)

The data that the routines of synch.c read and write, and each routine cut at the points
where the source may switch threads: `sema_down` is one test of its loop, `sema_up`
returns the thread that `thread_unblock` is called on. What runs next is decided by the
machines that use these functions.
-/

namespace Pintos.Threads

open Lib Function

abbrev ThreadRef := Nat

abbrev LockRef := Nat

abbrev CondRef := Nat

/-- The members of `struct thread` that synch.c uses; `name` is followed by zeros. -/
structure Thread where
  name : List UInt8
  priority : Int
  originalPriority : Int
  donor : List ThreadRef
  tryLock : Option LockRef

def nameOfs : Nat := 8

def priorityOfs : Nat := 28

def originalPriorityOfs : Nat := 32

def donorElemOfs : Nat := 64

def elemOfs : Nat := 72

/-- Four bytes of `name` from index `i`, read as an `int`. -/
def Thread.nameInt (t : Thread) (i : Nat) : Int :=
  (BitVec.ofNat 32 ((t.name.getD i 0).toNat + 256 * ((t.name.getD (i + 1) 0).toNat +
    256 * ((t.name.getD (i + 2) 0).toNat + 256 * (t.name.getD (i + 3) 0).toNat)))).toInt

/-- The `int` at an offset into the thread, for the offsets that `comparePriority` reads. -/
def Thread.intAt (t : Thread) (ofs : Nat) : Int :=
  if ofs = priorityOfs then t.priority
  else if ofs = originalPriorityOfs then t.originalPriority
  else t.nameInt (ofs - nameOfs)

/-- `comparePriority` takes the member at `memberOfs` for `elem`, so that donors are ordered by the
last four bytes of the names. -/
def comparePriority (memberOfs : Nat) (cur compare : Thread) : Bool :=
  let ofs := memberOfs + priorityOfs - elemOfs
  decide (cur.intAt ofs > compare.intAt ofs)

lemma comparePriority_elem (a b : Thread) :
    comparePriority elemOfs a b = decide (b.priority < a.priority) := rfl

structure Semaphore where
  value : Nat
  waiters : List ThreadRef

namespace Semaphore

/-- One test of the loop of `sema_down` by the running thread: `false` means that it has
queued itself and blocks. -/
def down (less : ThreadRef → ThreadRef → Bool) (cur : ThreadRef) (sema : Semaphore) :
    Semaphore × Bool :=
  if sema.value = 0 then
    ({ sema with waiters := listInsertOrdered less cur sema.waiters }, false)
  else ({ sema with value := sema.value - 1 }, true)

def tryDown (sema : Semaphore) : Semaphore × Bool :=
  if sema.value > 0 then ({ sema with value := sema.value - 1 }, true) else (sema, false)

/-- `sema_up` with the waiter it unblocks. The value is an `unsigned int`. -/
def up (less : ThreadRef → ThreadRef → Bool) (sema : Semaphore) :
    Semaphore × Option ThreadRef :=
  match listSort less sema.waiters with
  | [] => ({ value := (sema.value + 1) % 2 ^ 32, waiters := [] }, none)
  | w :: ws => ({ value := (sema.value + 1) % 2 ^ 32, waiters := ws }, some w)

variable {less : ThreadRef → ThreadRef → Bool} {cur : ThreadRef} {sema : Semaphore}

lemma down_of_zero (h : sema.value = 0) :
    down less cur sema =
      ({ sema with waiters := listInsertOrdered less cur sema.waiters }, false) :=
  if_pos h

lemma down_of_pos (h : sema.value ≠ 0) :
    down less cur sema = ({ sema with value := sema.value - 1 }, true) :=
  if_neg h

variable (less sema)

@[simp] lemma up_value : (up less sema).1.value = (sema.value + 1) % 2 ^ 32 := by
  unfold up
  split <;> rfl

lemma up_waiters_perm :
    ((up less sema).2.toList ++ (up less sema).1.waiters).Perm sema.waiters := by
  have hperm := listSort_perm less sema.waiters
  unfold up
  split
  next h =>
    rwa [h] at hperm
  next w ws h =>
    rwa [h] at hperm

lemma up_eq_none_iff : (up less sema).2 = none ↔ sema.waiters = [] := by
  have hperm := listSort_perm less sema.waiters
  unfold up
  split
  next h =>
    rw [h] at hperm
    exact ⟨fun _ => hperm.symm.eq_nil, fun _ => rfl⟩
  next w ws h =>
    constructor
    · intro h'
      cases h'
    · intro h'
      rw [h, h'] at hperm
      cases hperm.eq_nil

end Semaphore

/-- The waiters as `cond_signal` sorts them, if it does not panic. `asleep w` is the waiters list of
`w`'s private semaphore: `convar_compare` reads the front of two such lists. -/
def condSort (thread : ThreadRef → Thread) (asleep : ThreadRef → List ThreadRef)
    (ws : List ThreadRef) : Option (List ThreadRef) :=
  let front := fun w => (thread ((asleep w).headD 0)).priority
  if 2 ≤ ws.length ∧ ∃ w ∈ ws, asleep w = [] then none
  else some (listSort (fun a b => decide (front a > front b)) ws)

/-- A semaphore's place: in a lock, a thread (`sema_p`), the stack of `cond_wait`, or elsewhere. -/
inductive SemaRef where
  | lock (l : LockRef)
  | sleep (t : ThreadRef)
  | waiter (t : ThreadRef)
  | other (n : Nat)
  deriving DecidableEq

structure Sync where
  thread : ThreadRef → Thread
  holder : LockRef → Option ThreadRef
  sema : SemaRef → Semaphore
  allList : List ThreadRef

namespace Sync

def setThread (s : Sync) (t : ThreadRef) (th : Thread) : Sync :=
  { s with thread := Function.update s.thread t th }

def setPriority (s : Sync) (t : ThreadRef) (p : Int) : Sync :=
  s.setThread t { s.thread t with priority := p }

def setSema (s : Sync) (r : SemaRef) (sema : Semaphore) : Sync :=
  { s with sema := Function.update s.sema r sema }

def setHolder (s : Sync) (l : LockRef) (h : Option ThreadRef) : Sync :=
  { s with holder := Function.update s.holder l h }

def elemLess (s : Sync) (a b : ThreadRef) : Bool :=
  comparePriority elemOfs (s.thread a) (s.thread b)

def donorLess (s : Sync) (a b : ThreadRef) : Bool :=
  comparePriority donorElemOfs (s.thread a) (s.thread b)

def semaDown (s : Sync) (cur : ThreadRef) (r : SemaRef) : Sync × Bool :=
  let out := (s.sema r).down s.elemLess cur
  (s.setSema r out.1, out.2)

def semaTryDown (s : Sync) (r : SemaRef) : Sync × Bool :=
  let out := (s.sema r).tryDown
  (s.setSema r out.1, out.2)

def semaUp (s : Sync) (r : SemaRef) : Sync × Option ThreadRef :=
  let out := (s.sema r).up s.elemLess
  (s.setSema r out.1, out.2)

/-- The loop of `priority_donation`. Every round but the last raises a thread, which bounds them. -/
def priorityDonationLoop : Nat → Sync → ThreadRef → Option LockRef → Sync
  | 0, s, _, _ => s
  | _ + 1, s, _, none => s
  | fuel + 1, s, cur, some currLock =>
      match s.holder currLock with
      | none => s
      | some h =>
          if (s.thread h).priority < (s.thread cur).priority then
            priorityDonationLoop fuel (s.setPriority h (s.thread cur).priority) h
              (s.thread h).tryLock
          else s

def priorityDonation (s : Sync) (cur : ThreadRef) : Sync :=
  priorityDonationLoop (s.allList.length + 1) s cur (s.thread cur).tryLock

/-- What `lock_acquire` does before `sema_down` if the lock has a holder. -/
def donate (s : Sync) (cur : ThreadRef) (l : LockRef) : Sync :=
  match s.holder l with
  | none => s
  | some h =>
      let s := priorityDonation (s.setThread cur { s.thread cur with tryLock := some l }) cur
      s.setThread h
        { s.thread h with donor := listInsertOrdered s.donorLess cur (s.thread h).donor }

/-- What `lock_acquire` does after `sema_down`. -/
def takeLock (s : Sync) (cur : ThreadRef) (l : LockRef) : Sync :=
  (s.setThread cur { s.thread cur with tryLock := none }).setHolder l (some cur)

def donationBack (s : Sync) (cur : ThreadRef) (l : LockRef) : Sync :=
  s.setThread cur
    { s.thread cur with
      donor := (s.thread cur).donor.filter fun d => decide ((s.thread d).tryLock ≠ some l) }

def priorityRecheck (s : Sync) (cur : ThreadRef) : Sync :=
  match (s.thread cur).donor with
  | [] => s.setPriority cur (s.thread cur).originalPriority
  | t :: _ => s.setPriority cur (s.thread t).priority

section Updates

variable (s : Sync) (t u : ThreadRef) (th : Thread) (p : Int) (r : SemaRef) (sema : Semaphore)
  (l : LockRef) (h : Option ThreadRef)

@[simp] lemma setThread_thread : (s.setThread t th).thread = update s.thread t th :=
  rfl

@[simp] lemma setThread_holder : (s.setThread t th).holder = s.holder := rfl

@[simp] lemma setThread_sema : (s.setThread t th).sema = s.sema := rfl

@[simp] lemma setThread_allList : (s.setThread t th).allList = s.allList := rfl

@[simp] lemma setPriority_holder : (s.setPriority t p).holder = s.holder := rfl

@[simp] lemma setPriority_sema : (s.setPriority t p).sema = s.sema := rfl

@[simp] lemma setPriority_allList : (s.setPriority t p).allList = s.allList := rfl

@[simp] lemma setPriority_priority_self : ((s.setPriority t p).thread t).priority = p := by
  simp [setPriority]

lemma setPriority_priority_of_ne (hne : u ≠ t) :
    ((s.setPriority t p).thread u).priority = (s.thread u).priority := by
  simp [setPriority, update_of_ne hne]

@[simp] lemma setPriority_tryLock :
    ((s.setPriority t p).thread u).tryLock = (s.thread u).tryLock := by
  by_cases hne : u = t
  · subst hne
    simp [setPriority]
  · simp [setPriority, update_of_ne hne]

@[simp] lemma setPriority_originalPriority :
    ((s.setPriority t p).thread u).originalPriority = (s.thread u).originalPriority := by
  by_cases hne : u = t
  · subst hne
    simp [setPriority]
  · simp [setPriority, update_of_ne hne]

@[simp] lemma setSema_thread : (s.setSema r sema).thread = s.thread := rfl

@[simp] lemma setSema_holder : (s.setSema r sema).holder = s.holder := rfl

@[simp] lemma setSema_sema : (s.setSema r sema).sema = update s.sema r sema := rfl

@[simp] lemma setSema_allList : (s.setSema r sema).allList = s.allList := rfl

@[simp] lemma setHolder_thread : (s.setHolder l h).thread = s.thread := rfl

@[simp] lemma setHolder_holder : (s.setHolder l h).holder = update s.holder l h :=
  rfl

@[simp] lemma setHolder_sema : (s.setHolder l h).sema = s.sema := rfl

@[simp] lemma setHolder_allList : (s.setHolder l h).allList = s.allList := rfl

@[simp] lemma takeLock_holder : (s.takeLock t l).holder = update s.holder l (some t) :=
  rfl

@[simp] lemma takeLock_sema : (s.takeLock t l).sema = s.sema := rfl

@[simp] lemma takeLock_allList : (s.takeLock t l).allList = s.allList := rfl

@[simp] lemma takeLock_priority : ((s.takeLock t l).thread u).priority = (s.thread u).priority := by
  by_cases hne : u = t <;> simp [takeLock, hne]

@[simp] lemma takeLock_originalPriority :
    ((s.takeLock t l).thread u).originalPriority = (s.thread u).originalPriority := by
  by_cases hne : u = t <;> simp [takeLock, hne]

lemma takeLock_tryLock :
    ((s.takeLock t l).thread u).tryLock = if u = t then none else (s.thread u).tryLock := by
  by_cases hne : u = t <;> simp [takeLock, hne]

end Updates

end Sync

end Pintos.Threads
