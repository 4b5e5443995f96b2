import Mathlib.Data.List.Count
import Pintos.Threads.Synch

/-! # Priority donation

What the routines of priority donation do to the state: the loop of `priority_donation`
raises the threads of a chain of lock holders, `donation_back` and `priority_recheck` set
the priority of the thread that releases a lock.
-/

namespace Pintos.Threads

open Lib Function

/-! ## The donation loop -/

namespace Sync

/-- The threads that `priority_donation` raises: the holder of `l`, the holder of the lock which
that thread asks for, and so on while priorities are lower. -/
inductive Donee (s : Sync) (p : Int) (l : LockRef) : ThreadRef → Prop
  | holder {h : ThreadRef} (hh : s.holder l = some h) (hlt : (s.thread h).priority < p) :
      Donee s p l h
  | next {x y : ThreadRef} {m : LockRef} (hx : Donee s p l x)
      (hm : (s.thread x).tryLock = some m) (hy : s.holder m = some y)
      (hlt : (s.thread y).priority < p) : Donee s p l y

/-- New priorities for all threads, everything else as it was. -/
def reprioritise (s : Sync) (priority : ThreadRef → Int) : Sync :=
  { s with thread := fun t => { s.thread t with priority := priority t } }

variable {s : Sync} {p : Int} {l : LockRef} {x h cur : ThreadRef}

lemma Donee.priority_lt (h : s.Donee p l x) : (s.thread x).priority < p := by
  cases h with
  | holder _ hlt => exact hlt
  | next _ _ _ hlt => exact hlt

lemma Donee.exists_holder (h : s.Donee p l x) :
    ∃ y, s.holder l = some y ∧ (s.thread y).priority < p := by
  induction h with
  | holder hh hlt => exact ⟨_, hh, hlt⟩
  | next _ _ _ _ ih => exact ih

lemma Donee.holds (h : s.Donee p l x) : ∃ m, s.holder m = some x := by
  cases h with
  | holder hh _ => exact ⟨_, hh⟩
  | next _ _ hy _ => exact ⟨_, hy⟩

/-- After one round the work left is that of the loop from the raised holder's lock. -/
lemma donee_iff_of_holder (hh : s.holder l = some h) (hlt : (s.thread h).priority < p)
    (x : ThreadRef) :
    s.Donee p l x ↔
      x = h ∨ ∃ m, (s.thread h).tryLock = some m ∧ (s.setPriority h p).Donee p m x := by
  constructor
  · intro hx
    induction hx with
    | holder hh' _ =>
      rw [hh] at hh'
      exact .inl (Option.some.inj hh').symm
    | @next x y m _ hm hy hlt' ih =>
      by_cases hyh : y = h
      · exact .inl hyh
      have hlt'' : ((s.setPriority h p).thread y).priority < p := by
        rwa [setPriority_priority_of_ne s h y p hyh]
      rcases ih with rfl | ⟨m', hm', hx'⟩
      · exact .inr ⟨m, hm, .holder hy hlt''⟩
      · exact .inr ⟨m', hm', hx'.next (by simpa using hm) hy hlt''⟩
  · rintro (rfl | ⟨m, hm, hx⟩)
    · exact .holder hh hlt
    · have hback : ∀ y, ((s.setPriority h p).thread y).priority < p →
          (s.thread y).priority < p := by
        intro y hy
        by_cases hyh : y = h
        · rwa [hyh]
        · rwa [setPriority_priority_of_ne s h y p hyh] at hy
      induction hx with
      | holder hh' hlt' => exact .next (.holder hh hlt) hm hh' (hback _ hlt')
      | next _ hm' hy hlt' ih => exact ih.next (by simpa using hm') hy (hback _ hlt')

lemma countP_setPriority_lt {ts : List ThreadRef} (hmem : h ∈ ts)
    (hlt : (s.thread h).priority < p) :
    ts.countP (fun t => decide (((s.setPriority h p).thread t).priority < p)) <
      ts.countP (fun t => decide ((s.thread t).priority < p)) := by
  have hle : ∀ us : List ThreadRef,
      us.countP (fun t => decide (((s.setPriority h p).thread t).priority < p)) ≤
        us.countP (fun t => decide ((s.thread t).priority < p)) := by
    intro us
    refine List.countP_mono_left ?_
    intro t _ ht
    by_cases hth : t = h
    · simpa [hth] using hlt
    · simpa [setPriority_priority_of_ne s h t p hth] using ht
  induction ts with
  | nil => cases hmem
  | cons t ts ih =>
    by_cases hth : t = h
    · subst hth
      have := hle ts
      simp [hlt]
      omega
    · have hmem' : h ∈ ts := by
        rcases List.mem_cons.mp hmem with h' | h'
        · exact absurd h'.symm hth
        · exact h'
      have := ih hmem'
      simp only [List.countP_cons, setPriority_priority_of_ne s h t p hth]
      omega

open Classical in
/-- The loop raises the donees to the priority of the thread it starts from and changes
nothing else. -/
lemma priorityDonationLoop_eq {fuel : Nat} (hall : ∀ m h, s.holder m = some h → h ∈ s.allList)
    (hfuel : s.allList.countP
      (fun t => decide ((s.thread t).priority < (s.thread cur).priority)) < fuel) :
    priorityDonationLoop fuel s cur (some l) = s.reprioritise fun t =>
        if s.Donee (s.thread cur).priority l t then (s.thread cur).priority
        else (s.thread t).priority := by
  generalize hp : (s.thread cur).priority = p at hfuel ⊢
  induction fuel generalizing s cur l with
  | zero => exact absurd hfuel (Nat.not_lt_zero _)
  | succ fuel ih =>
    unfold priorityDonationLoop
    cases hh : s.holder l with
    | none =>
      have hno : ∀ t, ¬ s.Donee p l t := by
        intro t ht
        obtain ⟨y, hy, -⟩ := ht.exists_holder
        simp [hh] at hy
      simp only [hno, if_false]
      rfl
    | some h =>
      dsimp only
      rw [hp]
      by_cases hlt : (s.thread h).priority < p
      · rw [if_pos hlt]
        have hiff := donee_iff_of_holder hh hlt
        have hcount := countP_setPriority_lt (hall l h hh) hlt
        cases hm : (s.thread h).tryLock with
        | none =>
          have hdone : priorityDonationLoop fuel (s.setPriority h p) h none =
              s.setPriority h p := by
            cases fuel <;> rfl
          rw [hdone]
          simp only [hiff, hm, reduceCtorEq, false_and, exists_false, or_false]
          unfold setPriority setThread reprioritise
          congr 1
          funext t
          by_cases hth : t = h <;> simp [hth]
        | some m =>
          rw [ih (s := s.setPriority h p) (l := m) hall (by simp)
            (by simpa using Nat.lt_of_lt_of_le hcount (Nat.lt_succ_iff.mp hfuel))]
          unfold reprioritise
          congr 1
          funext t
          simp only [hiff, hm, Option.some.injEq, exists_eq_left']
          by_cases hth : t = h
          · subst hth
            simp [setPriority]
          · simp [hth, setPriority]
      · rw [if_neg hlt]
        have hno : ∀ t, ¬ s.Donee p l t := by
          intro t ht
          obtain ⟨y, hy, hylt⟩ := ht.exists_holder
          rw [hh] at hy
          cases hy
          exact hlt hylt
        simp only [hno, if_false]
        rfl

/-! ## What `lock_acquire` does to a held lock -/

lemma Donee.congr {s' : Sync} (hholder : s'.holder = s.holder)
    (hprio : ∀ t, (s'.thread t).priority = (s.thread t).priority)
    (htry : ∀ t, (s.thread t).priority < p → (s'.thread t).tryLock = (s.thread t).tryLock)
    (h : s.Donee p l x) : s'.Donee p l x := by
  induction h with
  | holder hh hlt => exact .holder (by rw [hholder, hh]) (by rw [hprio]; exact hlt)
  | next hx hm hy hlt ih =>
    refine ih.next ?_ (by rw [hholder, hy]) (by rw [hprio]; exact hlt)
    rw [htry _ hx.priority_lt, hm]

lemma donee_setThread_tryLock {l m : LockRef} {x : ThreadRef} :
    (s.setThread cur { s.thread cur with tryLock := some m }).Donee
        (s.thread cur).priority l x ↔
      s.Donee (s.thread cur).priority l x := by
  have hprio : ∀ t, ((s.setThread cur { s.thread cur with tryLock := some m }).thread t).priority =
      (s.thread t).priority := by
    intro t
    by_cases htc : t = cur
    · simp [htc]
    · simp [update_of_ne htc]
  have htry : ∀ t, (s.thread t).priority < (s.thread cur).priority →
      ((s.setThread cur { s.thread cur with tryLock := some m }).thread t).tryLock =
        (s.thread t).tryLock := by
    intro t ht
    have htc : t ≠ cur := by
      rintro rfl
      exact Int.lt_irrefl _ ht
    simp [update_of_ne htc]
  constructor
  · refine Donee.congr rfl (fun t => (hprio t).symm) ?_
    intro t ht
    exact (htry t (by rwa [hprio] at ht)).symm
  · exact Donee.congr rfl hprio htry

lemma priorityDonationLoop_frame (fuel : Nat) (s : Sync) (cur : ThreadRef) (l : Option LockRef) :
    ∃ priority, priorityDonationLoop fuel s cur l = s.reprioritise priority := by
  induction fuel generalizing s cur l with
  | zero => exact ⟨_, rfl⟩
  | succ fuel ih =>
    cases l with
    | none => exact ⟨_, rfl⟩
    | some l =>
      unfold priorityDonationLoop
      cases s.holder l with
      | none => exact ⟨_, rfl⟩
      | some h =>
        dsimp only
        split
        · obtain ⟨priority, hloop⟩ :=
            ih (s.setPriority h (s.thread cur).priority) h (s.thread h).tryLock
          refine ⟨priority, ?_⟩
          rw [hloop]
          unfold reprioritise setPriority setThread
          congr 1
          funext t
          by_cases hth : t = h <;> simp [hth]
        · exact ⟨_, rfl⟩

lemma donate_of_free (h : s.holder l = none) : s.donate cur l = s := by
  unfold donate
  rw [h]

/-- What asking for a held lock changes: priorities, and the caller's `try_lock`. -/
lemma donate_of_held (hh : s.holder l = some h) :
    ∃ priority, priorityDonationLoop (s.allList.length + 1)
          (s.setThread cur { s.thread cur with tryLock := some l }) cur (some l) =
        (s.setThread cur { s.thread cur with tryLock := some l }).reprioritise priority ∧
      (s.donate cur l).holder = s.holder ∧ (s.donate cur l).sema = s.sema ∧
      (s.donate cur l).allList = s.allList ∧
      ∀ t, ((s.donate cur l).thread t).priority = priority t ∧
        ((s.donate cur l).thread t).originalPriority = (s.thread t).originalPriority ∧
        ((s.donate cur l).thread t).tryLock =
          if t = cur then some l else (s.thread t).tryLock := by
  obtain ⟨priority, hloop⟩ := priorityDonationLoop_frame (s.allList.length + 1)
    (s.setThread cur { s.thread cur with tryLock := some l }) cur (some l)
  refine ⟨priority, hloop, ?_⟩
  unfold donate
  rw [hh]
  dsimp only
  unfold priorityDonation
  simp only [setThread_thread, setThread_allList, update_self]
  rw [hloop]
  refine ⟨rfl, rfl, rfl, fun t => ?_⟩
  by_cases hth : t = h
  · by_cases htc : h = cur <;> simp [hth, htc, reprioritise]
  · by_cases htc : t = cur
    · subst htc
      simp [hth, reprioritise]
    · simp [hth, htc, reprioritise]

section

variable (s : Sync) (cur : ThreadRef) (l : LockRef)

lemma donate_frame :
    (s.donate cur l).holder = s.holder ∧ (s.donate cur l).sema = s.sema ∧
      (s.donate cur l).allList = s.allList ∧
      ∀ t, ((s.donate cur l).thread t).originalPriority = (s.thread t).originalPriority := by
  cases hh : s.holder l with
  | none =>
    rw [donate_of_free hh]
    exact ⟨rfl, rfl, rfl, fun _ => rfl⟩
  | some h =>
    obtain ⟨_, -, hholder, hsema, hall, ht⟩ := donate_of_held hh
    exact ⟨hholder, hsema, hall, fun t => (ht t).2.1⟩

@[simp] lemma donate_holder : (s.donate cur l).holder = s.holder :=
  (donate_frame s cur l).1

@[simp] lemma donate_sema : (s.donate cur l).sema = s.sema :=
  (donate_frame s cur l).2.1

@[simp] lemma donate_allList : (s.donate cur l).allList = s.allList :=
  (donate_frame s cur l).2.2.1

end

@[simp] lemma donate_originalPriority (s : Sync) (cur t : ThreadRef) (l : LockRef) :
    ((s.donate cur l).thread t).originalPriority = (s.thread t).originalPriority :=
  (donate_frame s cur l).2.2.2 t

lemma donate_tryLock (hh : s.holder l = some h) (t : ThreadRef) :
    ((s.donate cur l).thread t).tryLock = if t = cur then some l else (s.thread t).tryLock := by
  obtain ⟨_, -, -, -, -, ht⟩ := donate_of_held hh
  exact (ht t).2.2

open Classical in
lemma donate_priority (hall : ∀ m h, s.holder m = some h → h ∈ s.allList) (t : ThreadRef) :
    ((s.donate cur l).thread t).priority =
      if s.Donee (s.thread cur).priority l t then (s.thread cur).priority
      else (s.thread t).priority := by
  cases hh : s.holder l with
  | none =>
    rw [donate_of_free hh, if_neg]
    intro ht
    obtain ⟨y, hy, -⟩ := ht.exists_holder
    simp [hh] at hy
  | some h =>
    obtain ⟨priority, hloop, -, -, -, ht⟩ := donate_of_held hh
    rw [(ht t).1]
    have heq := hloop.symm.trans
      (priorityDonationLoop_eq hall (Nat.lt_succ_iff.mpr List.countP_le_length))
    have hprio := congrArg (fun s => (s.thread t).priority) heq
    simp only [reprioritise, setThread_thread, update_self, donee_setThread_tryLock] at hprio
    rw [hprio]
    by_cases htc : t = cur <;> simp [htc]

/-- The donors of `t` that wait for another lock than `l`. -/
def donorsLeft (s : Sync) (t : ThreadRef) (l : LockRef) : List ThreadRef :=
  (s.thread t).donor.filter fun d => decide ((s.thread d).tryLock ≠ some l)

/-- The priority that `t` has after releasing `l`: that of the first donor left, or its
original one. -/
def recheckedPriority (s : Sync) (t : ThreadRef) (l : LockRef) : Int :=
  match s.donorsLeft t l with
  | [] => (s.thread t).originalPriority
  | d :: _ => (s.thread d).priority

lemma priorityRecheck_donationBack (s : Sync) (t : ThreadRef) (l : LockRef) :
    (s.donationBack t l).priorityRecheck t =
      s.setThread t
        { s.thread t with priority := s.recheckedPriority t l, donor := s.donorsLeft t l } := by
  have hprio : ∀ d, ((s.donationBack t l).thread d).priority = (s.thread d).priority := by
    intro d
    by_cases hdt : d = t <;> simp [donationBack, hdt]
  have hdonor : ((s.donationBack t l).thread t).donor = s.donorsLeft t l := by
    simp [donationBack, donorsLeft]
  unfold priorityRecheck recheckedPriority
  rw [hdonor]
  cases hleft : s.donorsLeft t l with
  | nil =>
    simp only [setPriority, donationBack, setThread, update_self, update_idem]
    rw [← hleft]
    rfl
  | cons d ds =>
    dsimp only
    rw [hprio]
    simp only [setPriority, donationBack, setThread, update_self, update_idem]
    rw [← hleft]
    rfl

end Sync

end Pintos.Threads
