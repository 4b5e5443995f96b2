import Pintos.Foundation.Transition
import Pintos.Threads.DonationSpec

/-! # Runs of the lock routines

Any number of threads call `lock_acquire`, `lock_try_acquire`, `lock_release` and
`thread_set_priority`; a call is one step up to the point where it blocks, and a thread
that `sema_up` has woken tests the semaphore again in a step of its own. Any thread that
is not blocked may take the next step.

The routines do not always keep the priorities that donation is meant to give. The result
says of each routine in which states it does, and that over a whole run nothing else is
needed.
-/

namespace Pintos.Threads

open Foundation Lib Function Option Sync

/-- Threads, locks, and for each thread the lock whose `sema_down` it is inside of. -/
structure Locking where
  sync : Sync
  acquiring : ThreadRef → Option LockRef

/-- One call, or the next test of a woken thread. -/
inductive LockOp where
  | acquire (t : ThreadRef) (l : LockRef)
  | resume (t : ThreadRef)
  | tryAcquire (t : ThreadRef) (l : LockRef)
  | release (t : ThreadRef) (l : LockRef)
  | setPriority (t : ThreadRef) (p : Int)

namespace Locking

/-- A test of the lock's semaphore by `t`, with the rest of `lock_acquire` if it succeeds. -/
def downLock (s : Locking) (t : ThreadRef) (l : LockRef) : Locking :=
  let out := s.sync.semaDown t (.lock l)
  if out.2 then
    { sync := out.1.takeLock t l, acquiring := Function.update s.acquiring t none }
  else { sync := out.1, acquiring := Function.update s.acquiring t (some l) }

def lockAcquire (s : Locking) (t : ThreadRef) (l : LockRef) : Locking :=
  { s with sync := s.sync.donate t l }.downLock t l

def lockTryAcquire (s : Locking) (t : ThreadRef) (l : LockRef) : Locking :=
  let out := s.sync.semaTryDown (.lock l)
  if out.2 then { s with sync := out.1.setHolder l (some t) } else { s with sync := out.1 }

def lockRelease (s : Locking) (t : ThreadRef) (l : LockRef) : Locking :=
  let sync := (s.sync.donationBack t l).priorityRecheck t
  { s with sync := ((sync.setHolder l none).semaUp (.lock l)).1 }

def threadSetPriority (s : Locking) (t : ThreadRef) (p : Int) : Locking :=
  { s with
    sync := s.sync.setThread t { s.sync.thread t with priority := p, originalPriority := p } }

/-- `t` is not inside a call, so that it may make one. -/
def Idle (s : Locking) (t : ThreadRef) : Prop := t ∈ s.sync.allList ∧ s.acquiring t = none

instance (s : Locking) (t : ThreadRef) : Decidable (s.Idle t) :=
  inferInstanceAs (Decidable (_ ∧ _))

/-- The conditions are the routines' assertions. -/
def step (s : Locking) : LockOp → Option Locking
  | .acquire t l =>
      if s.Idle t ∧ s.sync.holder l ≠ some t then some (s.lockAcquire t l) else none
  | .resume t =>
      match s.acquiring t with
      | none => none
      | some l => if t ∈ s.sync.waiters l then none else some (s.downLock t l)
  | .tryAcquire t l =>
      if s.Idle t ∧ s.sync.holder l ≠ some t then some (s.lockTryAcquire t l) else none
  | .release t l =>
      if s.Idle t ∧ s.sync.holder l = some t then some (s.lockRelease t l) else none
  | .setPriority t p => if s.Idle t then some (s.threadSetPriority t p) else none

/-- All locks are free, no thread is in a call or has had a donation. -/
structure Start (s : Locking) : Prop where
  free : ∀ l, s.sync.holder l = none ∧ s.sync.sema (.lock l) = ⟨1, []⟩
  outside : ∀ t, s.acquiring t = none
  fresh : ∀ t ∈ s.sync.allList, (s.sync.thread t).tryLock = none ∧
    (s.sync.thread t).donor = [] ∧
    (s.sync.thread t).priority = (s.sync.thread t).originalPriority

def machine : Machine Locking LockOp := ⟨Start, step⟩

/-- A lock's semaphore is 1 or 0 as it is free or held, and its waiters are in `lock_acquire`. -/
structure Ok (s : Locking) : Prop where
  value : ∀ l, (s.sync.holder l = none ∧ (s.sync.sema (.lock l)).value = 1) ∨
    ∃ t ∈ s.sync.allList, s.sync.holder l = some t ∧ (s.sync.sema (.lock l)).value = 0
  waiting : ∀ l, ∀ t ∈ s.sync.waiters l, t ∈ s.sync.allList ∧ s.acquiring t = some l
  nodup : ∀ l, (s.sync.waiters l).Nodup
  member : ∀ t l, s.acquiring t = some l → t ∈ s.sync.allList
  tryLock : ∀ t ∈ s.sync.allList, (s.sync.thread t).tryLock = s.acquiring t

lemma Start.ok {s : Locking} (h : s.Start) : s.Ok where
  value l := .inl ⟨(h.free l).1, by rw [(h.free l).2]⟩
  waiting l t ht := by
    simp [waiters, (h.free l).2] at ht
  nodup l := by
    rw [waiters, (h.free l).2]
    exact List.nodup_nil
  member t l ht := by
    simp [h.outside t] at ht
  tryLock t ht := by rw [(h.fresh t ht).1, h.outside t]

lemma Start.donated {s : Locking} (h : s.Start) : s.sync.Donated := by
  refine donated_iff.mpr fun t ht => ⟨(h.fresh t ht).2.2.ge, ?_, .inl (h.fresh t ht).2.2⟩
  intro l u hl
  simp [(h.free l).1] at hl

namespace Ok

variable {s : Locking} {t : ThreadRef} {l : LockRef}

lemma holder_mem (ok : s.Ok) {h : ThreadRef} (hl : s.sync.holder l = some h) :
    h ∈ s.sync.allList := by
  rcases ok.value l with ⟨hn, -⟩ | ⟨t, ht, hs, -⟩
  · simp [hn] at hl
  · rw [hs] at hl
    cases hl
    exact ht

lemma value_of_free (ok : s.Ok) (hl : s.sync.holder l = none) :
    (s.sync.sema (.lock l)).value = 1 := by
  rcases ok.value l with ⟨-, hv⟩ | ⟨t, -, hs, -⟩
  · exact hv
  · simp [hl] at hs

lemma value_of_held (ok : s.Ok) {h : ThreadRef} (hl : s.sync.holder l = some h) :
    (s.sync.sema (.lock l)).value = 0 := by
  rcases ok.value l with ⟨hn, -⟩ | ⟨t, -, -, hv⟩
  · simp [hn] at hl
  · exact hv

lemma not_waiting_of_idle (ok : s.Ok) (h : s.Idle t) (m : LockRef) : t ∉ s.sync.waiters m := by
  intro hm
  have hacq := (ok.waiting m t hm).2
  simp [h.2] at hacq

lemma not_waiting_of_woken (ok : s.Ok) (h : s.acquiring t = some l)
    (hl : t ∉ s.sync.waiters l) (m : LockRef) : t ∉ s.sync.waiters m := by
  intro hm
  have hacq := (ok.waiting m t hm).2
  rw [h] at hacq
  cases hacq
  exact hl hm

end Ok

section Routines

variable {s : Locking} {t h : ThreadRef} {l : LockRef}

lemma downLock_of_free (ok : s.Ok) (hl : s.sync.holder l = none) :
    s.downLock t l =
      { sync := (s.sync.setSema (.lock l) ⟨0, s.sync.waiters l⟩).takeLock t l
        acquiring := update s.acquiring t none } := by
  have hv := ok.value_of_free hl
  unfold downLock semaDown
  rw [Semaphore.down_of_pos (by rw [hv]; exact Nat.one_ne_zero), hv]
  rfl

lemma downLock_of_held (ok : s.Ok) (hl : s.sync.holder l = some h) :
    s.downLock t l =
      { sync := s.sync.setSema (.lock l)
          ⟨0, listInsertOrdered s.sync.elemLess t (s.sync.waiters l)⟩
        acquiring := update s.acquiring t (some l) } := by
  have hv := ok.value_of_held hl
  unfold downLock semaDown
  rw [Semaphore.down_of_zero hv, hv]
  rfl

lemma lockAcquire_of_free (hl : s.sync.holder l = none) : s.lockAcquire t l = s.downLock t l := by
  unfold lockAcquire
  rw [donate_of_free hl]

/-- `s` once `t` has asked for the held lock `l` and donated, before it tests the
semaphore. -/
def request (s : Locking) (t : ThreadRef) (l : LockRef) : Locking :=
  { sync := s.sync.donate t l, acquiring := Function.update s.acquiring t (some l) }

lemma lockAcquire_eq_downLock_request : s.lockAcquire t l = (s.request t l).downLock t l := by
  unfold lockAcquire downLock request
  simp

section

variable (ok : s.Ok)
include ok

lemma lockTryAcquire_of_free (hl : s.sync.holder l = none) :
    s.lockTryAcquire t l =
      { s with
        sync := (s.sync.setSema (.lock l) ⟨0, s.sync.waiters l⟩).setHolder l (some t) } := by
  have hv := ok.value_of_free hl
  unfold lockTryAcquire semaTryDown Semaphore.tryDown
  rw [hv]
  rfl

lemma lockTryAcquire_of_held (hl : s.sync.holder l = some h) : s.lockTryAcquire t l = s := by
  have hv := ok.value_of_held hl
  unfold lockTryAcquire semaTryDown Semaphore.tryDown
  rw [hv]
  simp [setSema]

lemma lockRelease_eq (hl : s.sync.holder l = some t) :
    ∃ woken ws, (toList woken ++ ws).Perm (s.sync.waiters l) ∧
      s.lockRelease t l =
        { s with
          sync := ((s.sync.setThread t
              { s.sync.thread t with
                priority := s.sync.recheckedPriority t l
                donor := s.sync.donorsLeft t l }).setHolder l none).setSema
              (.lock l) ⟨1, ws⟩ } := by
  have hv := ok.value_of_held hl
  unfold lockRelease semaUp
  rw [priorityRecheck_donationBack]
  dsimp only
  generalize hs : (setThread s.sync t _).setHolder l none = sync
  have hsema : sync.sema (.lock l) = s.sync.sema (.lock l) := by
    rw [← hs]
    rfl
  rw [hsema]
  have hperm := Semaphore.up_waiters_perm sync.elemLess (s.sync.sema (.lock l))
  have hvalue := Semaphore.up_value sync.elemLess (s.sync.sema (.lock l))
  rw [hv] at hvalue
  generalize (s.sync.sema (.lock l)).up sync.elemLess = out at hperm hvalue ⊢
  obtain ⟨⟨value, ws⟩, woken⟩ := out
  dsimp only at hperm hvalue ⊢
  subst hvalue
  exact ⟨woken, ws, hperm, rfl⟩

/-! ## Every step keeps the invariant -/

lemma Ok.downLock_free (ht : t ∈ s.sync.allList) (hl : s.sync.holder l = none)
    (hout : ∀ m, t ∉ s.sync.waiters m) : (s.downLock t l).Ok := by
  have hwait : ∀ m, (s.downLock t l).sync.waiters m = s.sync.waiters m := by
    intro m
    rw [downLock_of_free ok hl]
    by_cases hml : m = l
    · subst hml
      simp [waiters]
    · simp [waiters, hml]
  have hacq : ∀ u, u ≠ t → (s.downLock t l).acquiring u = s.acquiring u := by
    intro u hu
    rw [downLock_of_free ok hl]
    exact update_of_ne hu _ _
  have hself : (s.downLock t l).acquiring t = none := by
    rw [downLock_of_free ok hl]
    exact update_self _ _ _
  have hall : (s.downLock t l).sync.allList = s.sync.allList := by
    rw [downLock_of_free ok hl]
    rfl
  constructor
  · intro m
    rw [downLock_of_free ok hl]
    by_cases hml : m = l
    · subst hml
      exact .inr ⟨t, ht, by simp, by simp⟩
    · simpa [hml] using ok.value m
  · intro m u hu
    rw [hwait] at hu
    have hut : u ≠ t := by
      rintro rfl
      exact hout m hu
    rw [hall, hacq u hut]
    exact ok.waiting m u hu
  · intro m
    rw [hwait]
    exact ok.nodup m
  · intro u m hu
    by_cases hut : u = t
    · simp [hut, hself] at hu
    · rw [hacq u hut] at hu
      rw [hall]
      exact ok.member u m hu
  · intro u hu
    rw [hall] at hu
    by_cases hut : u = t
    · rw [hut, hself, downLock_of_free ok hl, takeLock_tryLock, if_pos rfl]
    · rw [hacq u hut, downLock_of_free ok hl, takeLock_tryLock, if_neg hut]
      exact ok.tryLock u hu

lemma Ok.downLock_held (hl : s.sync.holder l = some h)
    (hacq : s.acquiring t = some l) (hout : t ∉ s.sync.waiters l) : (s.downLock t l).Ok := by
  have hsame : update s.acquiring t (some l) = s.acquiring := by
    rw [← hacq]
    exact update_eq_self t s.acquiring
  have ht := ok.member t l hacq
  rw [downLock_of_held ok hl, hsame]
  constructor
  · intro m
    by_cases hml : m = l
    · subst hml
      exact .inr ⟨h, ok.holder_mem hl, hl, by simp⟩
    · simpa [hml] using ok.value m
  · intro m u hu
    by_cases hml : m = l
    · subst hml
      rw [waiters_setSema_self, mem_listInsertOrdered] at hu
      rcases hu with rfl | hu
      · exact ⟨ht, hacq⟩
      · exact ok.waiting m u hu
    · rw [waiters_setSema_of_ne _ _ _ _ hml] at hu
      exact ok.waiting m u hu
  · intro m
    by_cases hml : m = l
    · subst hml
      rw [waiters_setSema_self, (listInsertOrdered_perm _ _ _).nodup_iff]
      exact List.nodup_cons.mpr ⟨hout, ok.nodup m⟩
    · rw [waiters_setSema_of_ne _ _ _ _ hml]
      exact ok.nodup m
  · exact ok.member
  · exact ok.tryLock

lemma Ok.request (hidle : s.Idle t) (hl : s.sync.holder l = some h) : (s.request t l).Ok := by
  have hout := ok.not_waiting_of_idle hidle
  unfold Locking.request
  constructor
  · simpa using ok.value
  · intro m u hu
    have hu' : u ∈ s.sync.waiters m := by simpa [waiters] using hu
    have hut : u ≠ t := by
      rintro rfl
      exact hout m hu'
    simpa [hut] using ok.waiting m u hu'
  · intro m
    simpa [waiters] using ok.nodup m
  · intro u m hu
    by_cases hut : u = t
    · simpa [hut] using hidle.1
    · simpa using ok.member u m (by simpa [hut] using hu)
  · intro u hu
    rw [donate_tryLock hl]
    by_cases hut : u = t
    · simp [hut]
    · simpa [hut] using ok.tryLock u (by simpa using hu)

lemma Ok.lockAcquire (hidle : s.Idle t) : (s.lockAcquire t l).Ok := by
  cases hl : s.sync.holder l with
  | none =>
    rw [lockAcquire_of_free hl]
    exact ok.downLock_free hidle.1 hl (ok.not_waiting_of_idle hidle)
  | some h =>
    have hout := ok.not_waiting_of_idle hidle l
    rw [lockAcquire_eq_downLock_request]
    refine (ok.request hidle hl).downLock_held (h := h) (by simpa [Locking.request] using hl)
      (by simp [Locking.request]) ?_
    simpa [Locking.request, waiters] using hout

lemma Ok.resume (hacq : s.acquiring t = some l) (hout : t ∉ s.sync.waiters l) :
    (s.downLock t l).Ok := by
  cases hl : s.sync.holder l with
  | none => exact ok.downLock_free (ok.member t l hacq) hl (ok.not_waiting_of_woken hacq hout)
  | some h => exact ok.downLock_held hl hacq hout

lemma Ok.lockTryAcquire (hidle : s.Idle t) : (s.lockTryAcquire t l).Ok := by
  cases hl : s.sync.holder l with
  | some h =>
    rwa [lockTryAcquire_of_held ok hl]
  | none =>
    rw [lockTryAcquire_of_free ok hl]
    have hwait : ∀ m, ((s.sync.setSema (.lock l) ⟨0, s.sync.waiters l⟩).setHolder l
        (some t)).waiters m = s.sync.waiters m := by
      intro m
      by_cases hml : m = l
      · simp [hml]
      · simp [waiters, hml]
    refine ⟨?_, ?_, ?_, ok.member, ok.tryLock⟩
    · intro m
      by_cases hml : m = l
      · subst hml
        exact .inr ⟨t, hidle.1, by simp, by simp⟩
      · simpa [hml] using ok.value m
    · intro m u hu
      rw [hwait] at hu
      exact ok.waiting m u hu
    · intro m
      rw [hwait]
      exact ok.nodup m

lemma Ok.lockRelease (hl : s.sync.holder l = some t) : (s.lockRelease t l).Ok := by
  obtain ⟨woken, ws, hperm, heq⟩ := lockRelease_eq ok hl
  rw [heq]
  constructor
  · intro m
    by_cases hml : m = l
    · subst hml
      exact .inl ⟨by simp, by simp⟩
    · simpa [hml] using ok.value m
  · intro m u hu
    by_cases hml : m = l
    · subst hml
      rw [waiters_setSema_self] at hu
      exact ok.waiting m u (hperm.subset (List.mem_append_right _ hu))
    · rw [waiters_setSema_of_ne _ _ _ _ hml] at hu
      exact ok.waiting m u hu
  · intro m
    by_cases hml : m = l
    · subst hml
      rw [waiters_setSema_self]
      exact (List.nodup_append.mp (hperm.nodup_iff.mpr (ok.nodup m))).2.1
    · rw [waiters_setSema_of_ne _ _ _ _ hml]
      exact ok.nodup m
  · exact ok.member
  · intro u hu
    by_cases hut : u = t
    · simpa [hut] using ok.tryLock t (by rwa [hut] at hu)
    · simpa [hut] using ok.tryLock u hu

lemma Ok.threadSetPriority (p : Int) : (s.threadSetPriority t p).Ok := by
  refine ⟨ok.value, ok.waiting, ok.nodup, ok.member, ?_⟩
  intro u hu
  by_cases hut : u = t
  · simpa [Locking.threadSetPriority, hut] using ok.tryLock t (by rwa [hut] at hu)
  · simpa [Locking.threadSetPriority, hut] using ok.tryLock u hu

end

end Routines

/-! ## When a step keeps every priority right -/

/-- No thread blocked on the free lock `l` is above `t`, which takes it. -/
def Tops (s : Sync) (t : ThreadRef) (l : LockRef) : Prop :=
  ∀ u ∈ s.waiters l, (s.thread u).priority ≤ (s.thread t).priority

/-- The condition, routine by routine, under which donation keeps what it is for. -/
def Keeps (s : Locking) : LockOp → Prop
  | .acquire t l => (s.sync.holder l = none → Tops s.sync t l) ∧
      ∀ y, s.sync.Donee (s.sync.thread t).priority l y → s.sync.holder l = some y ∨
        ∃ x m, s.sync.Donee (s.sync.thread t).priority l x ∧ x ∈ s.sync.waiters m ∧
          s.sync.holder m = some y
  | .resume t => ∀ l, s.acquiring t = some l → (s.sync.holder l = none → Tops s.sync t l) ∧
      ∀ h, s.sync.holder l = some h → (s.sync.thread t).priority ≤ (s.sync.thread h).priority
  | .tryAcquire t l => s.sync.holder l = none → Tops s.sync t l
  | .release t l => IsGreatest
      (insert (s.sync.thread t).originalPriority
        {p | ∃ m, m ≠ l ∧ s.sync.holder m = some t ∧
          ∃ u ∈ s.sync.waiters m, (s.sync.thread u).priority = p})
      (s.sync.recheckedPriority t l)
  | .setPriority t p => ∀ l, s.sync.holder l = some t →
      ∀ u ∈ s.sync.waiters l, (s.sync.thread u).priority ≤ p

section Conditions

variable {s : Locking} {t h : ThreadRef} {l : LockRef}

lemma donated_downLock_free_iff (ok : s.Ok) (hD : s.sync.Donated) (ht : t ∈ s.sync.allList)
    (hl : s.sync.holder l = none) : (s.downLock t l).sync.Donated ↔ Tops s.sync t l := by
  rw [downLock_of_free ok hl]
  refine donated_take_iff hD ht hl rfl (fun u => by simp) (fun u => by simp) rfl ?_
  intro m
  by_cases hml : m = l <;> simp [waiters, hml]

lemma mem_waiters_queue {sync : Sync} {u : ThreadRef} {m : LockRef} :
    u ∈ (sync.setSema (.lock l)
        ⟨0, listInsertOrdered sync.elemLess t (sync.waiters l)⟩).waiters m ↔
      u ∈ sync.waiters m ∨ m = l ∧ u = t := by
  by_cases hml : m = l
  · subst hml
    simp only [waiters_setSema_self, mem_listInsertOrdered, true_and]
    exact Or.comm
  · simp [waiters_setSema_of_ne _ _ _ _ hml, hml]

lemma donated_resume_iff (ok : s.Ok) (hD : s.sync.Donated) (hacq : s.acquiring t = some l) :
    (s.downLock t l).sync.Donated ↔ s.Keeps (.resume t) := by
  have hkeeps : s.Keeps (.resume t) ↔ (s.sync.holder l = none → Tops s.sync t l) ∧
      ∀ h, s.sync.holder l = some h →
        (s.sync.thread t).priority ≤ (s.sync.thread h).priority := by
    simp [Keeps, hacq]
  rw [hkeeps]
  cases hl : s.sync.holder l with
  | none =>
    rw [donated_downLock_free_iff ok hD (ok.member t l hacq) hl]
    simp
  | some h =>
    rw [downLock_of_held ok hl]
    refine Iff.trans (donated_queue_iff hD hl (ok.holder_mem hl) rfl (fun _ => rfl)
      (fun _ => rfl) rfl fun m u => mem_waiters_queue) ?_
    simp

section

variable (ok : s.Ok) (hD : s.sync.Donated) (hidle : s.Idle t)
include ok hD hidle

lemma donated_lockAcquire_iff : (s.lockAcquire t l).sync.Donated ↔ s.Keeps (.acquire t l) := by
  dsimp only [Keeps]
  cases hl : s.sync.holder l with
  | none =>
    have hno : ∀ y, ¬ s.sync.Donee (s.sync.thread t).priority l y := by
      intro y hy
      obtain ⟨x, hx, -⟩ := hy.exists_holder
      simp [hl] at hx
    rw [lockAcquire_of_free hl, donated_downLock_free_iff ok hD hidle.1 hl]
    simp [hno]
  | some h =>
    have hl' : (s.request t l).sync.holder l = some h := by simpa [Locking.request] using hl
    rw [lockAcquire_eq_downLock_request, downLock_of_held (ok.request hidle hl) hl']
    have hmem : ∀ m x, s.sync.holder m = some x → x ∈ s.sync.allList :=
      fun m x hm => ok.holder_mem hm
    have htry : ∀ m, ∀ u ∈ s.sync.waiters m, (s.sync.thread u).tryLock = some m := by
      intro m u hu
      have hw := ok.waiting m u hu
      rw [ok.tryLock u hw.1, hw.2]
    refine Iff.trans (donated_request_iff hD hmem htry (s.sync.donate_allList t l)
      (donate_priority hmem) (s.sync.donate_originalPriority t · l)
      (s.sync.donate_holder t l) ?_) (by simp [hl])
    intro m u
    rw [mem_waiters_queue]
    simp [Locking.request, waiters]

lemma donated_lockTryAcquire_iff :
    (s.lockTryAcquire t l).sync.Donated ↔ s.Keeps (.tryAcquire t l) := by
  dsimp only [Keeps]
  cases hl : s.sync.holder l with
  | some h =>
    rw [lockTryAcquire_of_held ok hl]
    simp [hD]
  | none =>
    rw [lockTryAcquire_of_free ok hl]
    refine Iff.trans (donated_take_iff hD hidle.1 hl rfl (fun _ => rfl) (fun _ => rfl)
      rfl ?_) (by simp [Tops])
    intro m
    by_cases hml : m = l
    · simp [hml]
    · simp [waiters, hml]

lemma donated_lockRelease_iff (hl : s.sync.holder l = some t) :
    (s.lockRelease t l).sync.Donated ↔ s.Keeps (.release t l) := by
  obtain ⟨woken, ws, -, heq⟩ := lockRelease_eq ok hl
  rw [heq]
  have hholder : ∀ m x, update s.sync.holder l none m = some x ↔
      m ≠ l ∧ s.sync.holder m = some x := by
    intro m x
    by_cases hml : m = l <;> simp [hml]
  refine Iff.trans (donated_self_iff (s.sync.recheckedPriority t l)
    (s.sync.thread t).originalPriority hD hidle.1 (ok.not_waiting_of_idle hidle) rfl ?_ ?_ ?_ ?_) ?_
  · intro u
    by_cases hut : u = t <;> simp [hut]
  · intro u
    by_cases hut : u = t <;> simp [hut]
  · intro m x hxt
    rw [setSema_holder, setHolder_holder, setThread_holder, hholder]
    refine ⟨fun hm => hm.2, fun hm => ⟨?_, hm⟩⟩
    rintro rfl
    rw [hl] at hm
    exact hxt (some.inj hm).symm
  · intro m x hm
    rw [setSema_holder, setHolder_holder, setThread_holder, hholder] at hm
    rw [waiters_setSema_of_ne _ _ _ _ hm.1]
    rfl
  · simp only [Keeps, setSema_holder, setHolder_holder, setThread_holder, hholder, and_assoc]

lemma donated_threadSetPriority_iff
    (p : Int) : (s.threadSetPriority t p).sync.Donated ↔ s.Keeps (.setPriority t p) := by
  refine Iff.trans (donated_self_iff p p hD hidle.1
    (ok.not_waiting_of_idle hidle) rfl ?_ ?_ (fun _ _ _ => Iff.rfl) fun _ _ _ => rfl) ?_
  · intro u
    by_cases hut : u = t <;> simp [threadSetPriority, hut]
  · intro u
    by_cases hut : u = t <;> simp [threadSetPriority, hut]
  · dsimp only [Keeps]
    constructor
    · intro hmax l hl u hu
      exact hmax.2 (Set.mem_insert_of_mem _ ⟨l, hl, u, hu, rfl⟩)
    · intro hle
      refine ⟨Set.mem_insert _ _, ?_⟩
      rintro q (rfl | ⟨l, hl, u, hu, rfl⟩)
      · exact le_rfl
      · exact hle l hl u hu

end

/-- One step: the invariant is kept, and right priorities stay right exactly under the
step's condition. -/
lemma step_spec {s' : Locking} {op : LockOp} (ok : s.Ok) (hs : s.step op = some s') :
    s'.Ok ∧ (s.sync.Donated → (s'.sync.Donated ↔ s.Keeps op)) := by
  cases op with
  | acquire t l =>
    simp only [step, ite_none_right_eq_some, some.injEq] at hs
    rcases hs with ⟨⟨hidle, -⟩, rfl⟩
    exact ⟨ok.lockAcquire hidle, fun hD => donated_lockAcquire_iff ok hD hidle⟩
  | resume t =>
    cases hacq : s.acquiring t with
    | none => simp [step, hacq] at hs
    | some l =>
      simp only [step, hacq, ite_none_left_eq_some, some.injEq] at hs
      rcases hs with ⟨hout, rfl⟩
      exact ⟨ok.resume hacq hout, fun hD => donated_resume_iff ok hD hacq⟩
  | tryAcquire t l =>
    simp only [step, ite_none_right_eq_some, some.injEq] at hs
    rcases hs with ⟨⟨hidle, -⟩, rfl⟩
    exact ⟨ok.lockTryAcquire hidle, fun hD => donated_lockTryAcquire_iff ok hD hidle⟩
  | release t l =>
    simp only [step, ite_none_right_eq_some, some.injEq] at hs
    rcases hs with ⟨⟨hidle, hl⟩, rfl⟩
    exact ⟨ok.lockRelease hl, fun hD => donated_lockRelease_iff ok hD hidle hl⟩
  | setPriority t p =>
    simp only [step, ite_none_right_eq_some, some.injEq] at hs
    rcases hs with ⟨hidle, rfl⟩
    exact ⟨ok.threadSetPriority p, fun hD => donated_threadSetPriority_iff ok hD hidle p⟩

end Conditions

def twoThreads : Locking where
  sync :=
    { thread := fun t => ⟨[], if t = 2 then 40 else 31, if t = 2 then 40 else 31, [], none⟩
      holder := fun _ => none
      sema := fun _ => ⟨1, []⟩
      allList := [1, 2] }
  acquiring := fun _ => none

lemma twoThreads_start : machine.start twoThreads where
  free _ := ⟨rfl, rfl⟩
  outside _ := rfl
  fresh _ _ := ⟨rfl, rfl, rfl⟩

end Locking

end Pintos.Threads
