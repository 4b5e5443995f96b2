import Pintos.Threads.Donation

/-! # Nested donation

The loop of `priority_donation` follows the holders of locks and the locks these wait for.
Locks and threads may wait for each other in a circle; the loop still ends, since each round
but the last raises a thread that was below the caller.
-/

namespace Pintos.Threads

namespace Sync

/-- The loop of `priority_donation`, without an answer when the bound on its rounds does not
suffice. -/
def priorityDonationRun : Nat → Sync → ThreadRef → Option LockRef → Option Sync
  | 0, _, _, _ => none
  | _ + 1, s, _, none => some s
  | fuel + 1, s, cur, some currLock =>
      match s.holder currLock with
      | none => some s
      | some h =>
          if (s.thread h).priority < (s.thread cur).priority then
            priorityDonationRun fuel (s.setPriority h (s.thread cur).priority) h
              (s.thread h).tryLock
          else some s

/-- The threads that the loop may still raise. -/
def below (s : Sync) (p : Int) : Nat :=
  s.allList.countP fun t => decide ((s.thread t).priority < p)

lemma below_lt_length_succ (s : Sync) (p : Int) : s.below p < s.allList.length + 1 :=
  Nat.lt_succ_of_le List.countP_le_length

variable {s : Sync} {cur t : ThreadRef}

/-- More rounds than threads below the caller are never needed. -/
lemma priorityDonationRun_eq {fuel fuel' : Nat} {currLock : Option LockRef}
    (hall : ∀ m h, s.holder m = some h → h ∈ s.allList)
    (hfuel : s.below (s.thread cur).priority < fuel)
    (hfuel' : s.below (s.thread cur).priority < fuel') :
    priorityDonationRun fuel s cur currLock =
      some (priorityDonationLoop fuel' s cur currLock) := by
  induction fuel generalizing s cur currLock fuel' with
  | zero => exact absurd hfuel (Nat.not_lt_zero _)
  | succ fuel ih =>
    obtain ⟨fuel', rfl⟩ : ∃ k, fuel' = k + 1 := ⟨fuel' - 1, by omega⟩
    cases currLock with
    | none => rfl
    | some l =>
      unfold priorityDonationRun priorityDonationLoop
      cases hh : s.holder l with
      | none => rfl
      | some h =>
        dsimp only
        split
        next hlt =>
          have hcount := countP_setPriority_lt (hall l h hh) hlt
          refine ih hall ?_ ?_
          · rw [setPriority_priority_self]
            exact Nat.lt_of_lt_of_le hcount (Nat.lt_succ_iff.mp hfuel)
          · rw [setPriority_priority_self]
            exact Nat.lt_of_lt_of_le hcount (Nat.lt_succ_iff.mp hfuel')
        next => rfl

open Classical in
lemma priorityDonation_priority (hall : ∀ m h, s.holder m = some h → h ∈ s.allList)
    (t : ThreadRef) :
    ((s.priorityDonation cur).thread t).priority =
      if ∃ l, (s.thread cur).tryLock = some l ∧ s.Donee (s.thread cur).priority l t then
        (s.thread cur).priority
      else (s.thread t).priority := by
  unfold priorityDonation
  cases htry : (s.thread cur).tryLock with
  | none => simp [priorityDonationLoop]
  | some l =>
    rw [priorityDonationLoop_eq hall (Nat.lt_succ_iff.mpr List.countP_le_length)]
    simp [reprioritise]

lemma priorityDonation_frame (s : Sync) (cur : ThreadRef) :
    (s.priorityDonation cur).holder = s.holder ∧
      ∀ t, ((s.priorityDonation cur).thread t).tryLock = (s.thread t).tryLock := by
  unfold priorityDonation
  obtain ⟨priority, hloop⟩ := priorityDonationLoop_frame (s.allList.length + 1) s cur
    (s.thread cur).tryLock
  rw [hloop]
  exact ⟨rfl, fun t => rfl⟩

lemma le_priorityDonation (hall : ∀ m h, s.holder m = some h → h ∈ s.allList) (t : ThreadRef) :
    (s.thread t).priority ≤ ((s.priorityDonation cur).thread t).priority := by
  rw [priorityDonation_priority hall]
  split
  next hdonee =>
    obtain ⟨l, -, hl⟩ := hdonee
    exact Int.le_of_lt hl.priority_lt
  next => exact Int.le_refl _

lemma priorityDonation_le (hall : ∀ m h, s.holder m = some h → h ∈ s.allList)
    (hraised : (s.thread t).priority < ((s.priorityDonation cur).thread t).priority) :
    ((s.priorityDonation cur).thread t).priority ≤ (s.thread cur).priority := by
  rw [priorityDonation_priority hall] at hraised ⊢
  split
  next => exact Int.le_refl _
  next hdonee =>
    rw [if_neg hdonee] at hraised
    exact absurd hraised (Int.lt_irrefl _)

/-- `t` waits for no lock whose holder has a lower priority. -/
def Passed (s : Sync) (t : ThreadRef) : Prop :=
  ∀ l h, (s.thread t).tryLock = some l → s.holder l = some h →
    (s.thread t).priority ≤ (s.thread h).priority

/-- The loop stops at a holder high enough; up to it every thread has the caller's priority. -/
lemma passed_priorityDonation (hall : ∀ m h, s.holder m = some h → h ∈ s.allList)
    (hpassed : t ≠ cur → s.Passed t) : (s.priorityDonation cur).Passed t := by
  obtain ⟨hholder, htry⟩ := priorityDonation_frame s cur
  intro l h hl hh
  rw [htry] at hl
  rw [hholder] at hh
  have hle : (s.thread h).priority ≤ ((s.priorityDonation cur).thread h).priority :=
    le_priorityDonation hall h
  by_cases hdonee : ∃ m, (s.thread cur).tryLock = some m ∧ s.Donee (s.thread cur).priority m t
  · -- A raised thread: the holder of its lock is raised too, or is not below the caller.
    obtain ⟨m, hm, ht⟩ := hdonee
    rw [priorityDonation_priority hall t, if_pos ⟨m, hm, ht⟩]
    by_cases hlt : (s.thread h).priority < (s.thread cur).priority
    · have hraised := (priorityDonation_priority hall h).trans (if_pos ⟨m, hm, ht.next hl hh hlt⟩)
      exact Int.le_of_eq hraised.symm
    · exact Int.le_trans (Int.not_lt.mp hlt) hle
  · rw [priorityDonation_priority hall t, if_neg hdonee]
    by_cases htc : t = cur
    · subst htc
      by_cases hlt : (s.thread h).priority < (s.thread t).priority
      · have hraised := (priorityDonation_priority hall h).trans (if_pos ⟨l, hl, .holder hh hlt⟩)
        exact Int.le_of_eq hraised.symm
      · exact Int.le_trans (Int.not_lt.mp hlt) hle
    · exact Int.le_trans (hpassed htc l h hl hh) hle

/-- The loop ends whatever the locks and holders, lowers no priority, raises none above the
caller's, and restores for all threads what held for all but the caller. -/
theorem priorityDonation_reaches_end (s : Sync) (cur : ThreadRef)
    (hall : ∀ l h, s.holder l = some h → h ∈ s.allList) :
    (∀ fuel, s.allList.length < fuel →
      priorityDonationRun fuel s cur (s.thread cur).tryLock = some (s.priorityDonation cur)) ∧
    (∀ t, (s.thread t).priority ≤ ((s.priorityDonation cur).thread t).priority) ∧
    (∀ t, (s.thread t).priority < ((s.priorityDonation cur).thread t).priority →
      ((s.priorityDonation cur).thread t).priority ≤ (s.thread cur).priority) ∧
    ((∀ t ∈ s.allList, t ≠ cur → s.Passed t) →
      ∀ t ∈ cur :: s.allList, (s.priorityDonation cur).Passed t) := by
  refine ⟨fun fuel hfuel => ?_, le_priorityDonation hall, fun t => priorityDonation_le hall, ?_⟩
  · refine priorityDonationRun_eq hall ?_ (s.below_lt_length_succ _)
    exact Nat.lt_of_le_of_lt List.countP_le_length hfuel
  · intro hbefore t ht
    refine passed_priorityDonation hall fun hne => ?_
    rcases List.mem_cons.mp ht with rfl | ht
    · exact absurd rfl hne
    · exact hbefore t ht hne

/-- Threads 1 and 2 wait for each other's locks, thread 3 for the lock of thread 1. -/
def circle : Sync where
  thread := fun t => ⟨[], if t = 3 then 40 else 31, 31, [], some (if t = 2 then 1 else 2)⟩
  holder := fun l => if l = 1 then some 1 else if l = 2 then some 2 else none
  sema := fun _ => ⟨0, []⟩
  allList := [1, 2, 3]

lemma circle_holder (l : LockRef) (h : ThreadRef) (hl : circle.holder l = some h) :
    h ∈ circle.allList := by
  simp only [circle] at hl ⊢
  split at hl
  · cases hl
    decide
  · split at hl
    · cases hl
      decide
    · cases hl

theorem priorityDonation_reaches_end_circle :
    priorityDonationRun 4 circle 3 (circle.thread 3).tryLock =
        some (circle.priorityDonation 3) ∧
      (∀ t, (circle.thread t).priority ≤ ((circle.priorityDonation 3).thread t).priority) ∧
      (circle.priorityDonation 3).Passed 1 := by
  obtain ⟨hends, hle, -, hpassed⟩ := priorityDonation_reaches_end circle 3 circle_holder
  refine ⟨hends 4 (by decide), hle, hpassed ?_ 1 (by decide)⟩
  intro t ht hne l h hl hh
  simp only [circle, List.mem_cons, List.not_mem_nil, or_false] at ht
  rcases ht with rfl | rfl | rfl
  · cases hl
    cases hh
    decide
  · cases hl
    cases hh
    decide
  · exact absurd rfl hne

end Sync

end Pintos.Threads
