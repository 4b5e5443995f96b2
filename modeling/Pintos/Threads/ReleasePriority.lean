import Pintos.Lib.LinkedList
import Pintos.Lib.ListSort
import Pintos.Threads.DonationRuns

/-! # The priority after `lock_release`

`donation_back` takes the donors that wait for the released lock off the donor list, and
`priority_recheck` gives the thread the priority of the first donor that is left. Donor lists
are ordered by the ends of the threads' names, with the first arrival in front among equals,
so that the first donor need not be the highest one, nor higher than the thread itself.
-/

namespace Pintos.Threads

open Foundation Lib List

section Linked

variable {N : Type*} [DecidableEq N]

/-- The loop over a linked donor list; `waits e` is `currentThread->try_lock == lock`. It goes on
from an element taken off the list. -/
def donationBackLoop (waits : N → Bool) : Nat → Links N → N → N → Option (Links N)
  | 0, _, _, _ => none
  | fuel + 1, h, element, tail =>
      if element = tail then some h
      else
        let removed := if waits element then (listRemove h element).map Prod.fst else some h
        match removed with
        | none => none
        | some h =>
            match listNext h element with
            | some (some element) => donationBackLoop waits fuel h element tail
            | _ => none

/-- A removed element keeps its own links, so that the loop finds the rest of the list. -/
lemma donationBackLoop_spec (waits : N → Bool) {h : Links N} {list : ListHdr N}
    {pre xs : List N} {fuel : Nat} (hr : list.Represents h (pre ++ xs)) (hfuel : xs.length < fuel) :
    ∃ h', donationBackLoop waits fuel h (list.front xs) list.tail = some h' ∧
      list.Represents h' (pre ++ xs.filter fun e => !waits e) := by
  induction xs generalizing h pre fuel with
  | nil =>
    cases fuel with
    | zero => cases hfuel
    | succ fuel => exact ⟨h, by simp [donationBackLoop, ListHdr.front], hr⟩
  | cons e xs ih =>
    cases fuel with
    | zero => cases hfuel
    | succ fuel =>
      have hfuel' := Nat.lt_of_succ_lt_succ hfuel
      have hfront : list.front (e :: xs) = e := rfl
      have hne : e ≠ list.tail := by
        have hnodup := hr.nodup
        rw [ListHdr.cells_append, nodup_append] at hnodup
        have hrest := hnodup.2.1
        rw [cons_append, nodup_cons] at hrest
        exact fun heq => hrest.1 (by rw [heq]; simp)
      rw [hfront, donationBackLoop, if_neg hne]
      cases hw : waits e with
      | true =>
        obtain ⟨h₁, hremove, hrep, hframe⟩ := hr.listRemove pre xs
        have hout : e ∉ list.cells (pre ++ xs) := by
          have hnodup := hr.nodup
          rw [ListHdr.cells_append] at hnodup ⊢
          exact (nodup_cons.mp (perm_middle.nodup_iff.mp hnodup)).1
        have hnext : listNext h₁ e = some (some (list.front xs)) := by
          have hbefore := hr.listNext
          unfold listNext isHead isInterior at hbefore ⊢
          rwa [hframe e hout]
        obtain ⟨h', hloop, hrep'⟩ := ih hrep hfuel'
        refine ⟨h', ?_, ?_⟩
        · simp only [if_true, hremove, Option.map_some, hnext]
          exact hloop
        · rwa [filter_cons, hw]
      | false =>
        have hrep : list.Represents h ((pre ++ [e]) ++ xs) := by
          simpa using hr
        obtain ⟨h', hloop, hrep'⟩ := ih hrep hfuel'
        refine ⟨h', ?_, ?_⟩
        · simp only [Bool.false_eq_true, if_false, hr.listNext]
          exact hloop
        · rw [filter_cons, hw]
          simpa using hrep'

/-- On the linked donor list of a thread the loop does what `donationBack` does to the
sequence of the donors. -/
lemma Sync.donationBack_linked (s : Sync) (t : ThreadRef) (l : LockRef)
    {h : Links ThreadRef} {list : ListHdr ThreadRef}
    (hr : list.Represents h (s.thread t).donor) {fuel : Nat}
    (hfuel : (s.thread t).donor.length < fuel) :
    ∃ first h', listBegin h list = some first ∧
      donationBackLoop (fun d => (s.thread d).tryLock = some l) fuel h first (listEnd list) =
        some h' ∧
      list.Represents h' ((s.donationBack t l).thread t).donor := by
  have hall : list.Represents h ([] ++ (s.thread t).donor) := hr
  obtain ⟨h', hloop, hrep⟩ := donationBackLoop_spec
    (fun d => decide ((s.thread d).tryLock = some l)) hall hfuel
  refine ⟨_, h', hr.listBegin, hloop, ?_⟩
  simpa [Sync.donationBack, decide_not] using hrep

end Linked

namespace Sync

lemma donorLess_eq (s : Sync) :
    s.donorLess = fun a b => decide ((s.thread a).nameInt 12 > (s.thread b).nameInt 12) := rfl

lemma weakOrder_donorLess (s : Sync) : WeakOrder s.donorLess :=
  weakOrder_key fun t => (s.thread t).nameInt 12

/-- The donor list of a thread whose donors came in the order `arrivals`. -/
def Arrived (s : Sync) (t : ThreadRef) (arrivals : List ThreadRef) : Prop :=
  (s.thread t).donor = insertAll s.donorLess arrivals

/-- After a release the thread has the priority of the first arrival among the donors left whose
names have the greatest ends. -/
lemma recheckedPriority_of_arrived {s : Sync} {t : ThreadRef} {arrivals : List ThreadRef}
    (harr : s.Arrived t arrivals) (l : LockRef) :
    let left := arrivals.filter fun d => decide ((s.thread d).tryLock ≠ some l)
    s.donorsLeft t l = insertAll s.donorLess left ∧ (left ≠ [] → ∃ us d vs, left = us ++ d :: vs ∧
        s.recheckedPriority t l = (s.thread d).priority ∧
        (∀ u ∈ us, (s.thread u).nameInt 12 < (s.thread d).nameInt 12) ∧
        ∀ v ∈ vs, (s.thread v).nameInt 12 ≤ (s.thread d).nameInt 12) := by
  intro left
  have hleft : s.donorsLeft t l = insertAll s.donorLess left := by
    rw [donorsLeft, harr]
    exact insertAll_filter s.weakOrder_donorLess _ arrivals
  refine ⟨hleft, fun hne => ?_⟩
  cases hfront : insertAll s.donorLess left with
  | nil => exact absurd (hfront ▸ insertAll_perm s.donorLess left).nil_eq.symm hne
  | cons d ds =>
    obtain ⟨us, vs, hsplit, hus, hvs⟩ := insertAll_front s.weakOrder_donorLess hfront
    refine ⟨us, d, vs, hsplit, ?_, ?_, ?_⟩
    · rw [recheckedPriority, hleft, hfront]
    · intro u hu
      simpa [donorLess_eq] using hus u hu
    · intro v hv
      simpa [donorLess_eq] using hvs v hv

/-- The maximum of the original priority of `t` and the priorities of the threads `ds`. -/
def IsRestored (s : Sync) (t : ThreadRef) (ds : List ThreadRef) (p : Int) : Prop :=
  IsGreatest (insert (s.thread t).originalPriority {q | ∃ d ∈ ds, (s.thread d).priority = q}) p

/-- No donor is left, or the first is at least as high as all others and the original priority. -/
def FirstIsHighest (s : Sync) (t : ThreadRef) (ds : List ThreadRef) : Prop :=
  ∀ d ∈ ds.head?, (s.thread t).originalPriority ≤ (s.thread d).priority ∧
    ∀ u ∈ ds, (s.thread u).priority ≤ (s.thread d).priority

lemma isRestored_recheckedPriority_iff (s : Sync) (t : ThreadRef) (l : LockRef) :
    s.IsRestored t (s.donorsLeft t l) (s.recheckedPriority t l) ↔
      s.FirstIsHighest t (s.donorsLeft t l) := by
  unfold recheckedPriority FirstIsHighest
  cases hleft : s.donorsLeft t l with
  | nil =>
    constructor
    · intro _ d hd
      cases hd
    · intro _
      refine ⟨Set.mem_insert _ _, ?_⟩
      rintro q (rfl | ⟨d, hd, -⟩)
      · exact Int.le_refl _
      · cases hd
  | cons d ds =>
    constructor
    · rintro ⟨-, hub⟩ d' hd'
      cases hd'
      exact ⟨hub (Set.mem_insert _ _), fun u hu => hub (Set.mem_insert_of_mem _ ⟨u, hu, rfl⟩)⟩
    · intro h
      obtain ⟨hown, hothers⟩ := h d rfl
      refine ⟨Set.mem_insert_of_mem _ ⟨d, mem_cons_self, rfl⟩, ?_⟩
      rintro q (rfl | ⟨u, hu, rfl⟩)
      · exact hown
      · exact hothers u hu

/-- The donors left are exactly those that wait for other locks, and the priority is right exactly
when the first of them is the highest. -/
theorem release_restores_iff (s : Sync) (t : ThreadRef) (l : LockRef) :
    (((s.donationBack t l).priorityRecheck t).thread t).donor =
        (s.thread t).donor.filter (fun d => decide ((s.thread d).tryLock ≠ some l)) ∧
      (s.IsRestored t (((s.donationBack t l).priorityRecheck t).thread t).donor
          (((s.donationBack t l).priorityRecheck t).thread t).priority ↔
        s.FirstIsHighest t (((s.donationBack t l).priorityRecheck t).thread t).donor) := by
  rw [priorityRecheck_donationBack, setThread_thread, Function.update_self]
  exact ⟨rfl, s.isRestored_recheckedPriority_iff t l⟩

end Sync

namespace Locking

def fourThreads : Locking where
  sync :=
    { thread := fun t =>
        let p := if t = 2 then 32 else if t = 3 then 40 else if t = 4 then 50 else 31
        ⟨[], p, p, [], none⟩
      holder := fun _ => none
      sema := fun _ => ⟨1, []⟩
      allList := [1, 2, 3, 4] }
  acquiring := fun _ => none

lemma fourThreads_start : machine.start fourThreads where
  free _ := ⟨rfl, rfl⟩
  outside _ := rfl
  fresh _ _ := ⟨rfl, rfl, rfl⟩

/-- Thread 1 goes on at 32 although thread 3 of priority 40 waits for its lock 1, and thread 4 at 32
although its own priority is 50. -/
theorem lockRelease_takes_first_donor :
    machine.start fourThreads ∧
      (∃ s, machine.run fourThreads
          [.acquire 1 0, .acquire 1 1, .acquire 2 1, .acquire 3 1, .release 1 0] = some s ∧
        (s.sync.thread 1).donor = [2, 3] ∧ (s.sync.thread 1).priority = 32 ∧
        (s.sync.thread 3).priority = 40 ∧ s.sync.holder 1 = some 1 ∧ 3 ∈ s.sync.waiters 1 ∧
        ¬ s.sync.IsRestored 1 [2, 3] 32) ∧
      ∃ s, machine.run fourThreads
          [.acquire 4 2, .acquire 4 3, .acquire 2 3, .release 4 2] = some s ∧
        (s.sync.thread 4).donor = [2] ∧ (s.sync.thread 4).originalPriority = 50 ∧
        (s.sync.thread 4).priority = 32 ∧ ¬ s.sync.IsRestored 4 [2] 32 := by
  refine ⟨fourThreads_start, ⟨_, rfl, rfl, rfl, rfl, rfl, by decide, ?_⟩, _, rfl, rfl, rfl, rfl, ?_⟩
  · rintro ⟨-, hub⟩
    have hle : (40 : Int) ≤ 32 := hub (.inr ⟨3, by decide, rfl⟩)
    exact absurd hle (by decide)
  · rintro ⟨-, hub⟩
    have hle : (50 : Int) ≤ 32 := hub (.inl rfl)
    exact absurd hle (by decide)

end Locking

end Pintos.Threads
