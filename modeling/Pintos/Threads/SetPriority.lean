import Pintos.Threads.Dispatch

/-! # `thread_set_priority` and donations

The effective priority of a thread is computed in three ways: `check_priority` reads the
`priority` member, `thread_get_priority` compares it with the last donor, `priority_recheck`
takes the first one. `thread_set_priority` overwrites the member whatever the donors.
-/

namespace Pintos.Threads

open Foundation Lib

namespace Kernel

/-- The two assignments of `thread_set_priority`. -/
def assignPriority (k : Kernel) (newPriority : Int) : Kernel :=
  { k with
    toSync := k.toSync.setThread k.current
      { k.thread k.current with priority := newPriority, originalPriority := newPriority } }

/-- `check_priority` calls `thread_yield`. -/
def Yields (k : Kernel) : Prop := ∃ t ∈ k.readyList.head?, k.prio k.current < k.prio t

variable {k : Kernel} {p q : Int}

lemma checkPriority_of_yields (h : k.Yields) : k.checkPriority = k.threadYield := by
  obtain ⟨t, ht, hlt⟩ := h
  unfold checkPriority
  cases hready : k.readyList with
  | nil =>
    simp [hready] at ht
  | cons u us =>
    rw [hready] at ht
    cases ht
    exact if_pos hlt

lemma checkPriority_of_not_yields (h : ¬ k.Yields) : k.checkPriority = k := by
  unfold checkPriority
  cases hready : k.readyList with
  | nil => rfl
  | cons u us => exact if_neg fun hlt => h ⟨u, by rw [hready]; rfl, hlt⟩

lemma threadYield_thread (k : Kernel) : k.threadYield.thread = k.thread := by
  unfold threadYield
  dsimp only
  split <;> rfl

lemma checkPriority_thread (k : Kernel) : k.checkPriority.thread = k.thread := by
  by_cases h : k.Yields
  · rw [checkPriority_of_yields h, threadYield_thread]
  · rw [checkPriority_of_not_yields h]

/-- The maximum of `p` and the priorities of the donors of the running thread. -/
def maxDonation (k : Kernel) (p : Int) : Int :=
  ((k.thread k.current).donor.map k.prio).foldl max p

lemma foldl_max_le {ps : List Int} : ps.foldl max p ≤ q ↔ p ≤ q ∧ ∀ x ∈ ps, x ≤ q := by
  induction ps generalizing p with
  | nil => simp
  | cons x ps ih =>
    rw [List.foldl_cons, ih, Int.max_le, List.forall_mem_cons]
    tauto

lemma maxDonation_le :
    k.maxDonation p ≤ q ↔ p ≤ q ∧ ∀ d ∈ (k.thread k.current).donor, k.prio d ≤ q := by
  rw [maxDonation, foldl_max_le, List.forall_mem_map]

lemma threadGetPriority_of_back {other : ThreadRef}
    (h : (k.thread k.current).donor.getLast? = some other) :
    k.threadGetPriority = max (k.prio k.current) (k.prio other) := by
  unfold threadGetPriority
  rw [h]
  dsimp only
  split <;> omega

lemma threadGetPriority_of_no_donor (h : (k.thread k.current).donor = []) :
    k.threadGetPriority = k.prio k.current := by
  unfold threadGetPriority
  rw [h]
  rfl

/-- The last donor is at least as high as every donor that is higher than the thread. -/
def LastIsHighest (k : Kernel) : Prop :=
  ∀ other ∈ (k.thread k.current).donor.getLast?, ∀ d ∈ (k.thread k.current).donor,
    k.prio d ≤ max (k.prio k.current) (k.prio other)

lemma threadGetPriority_eq_maxDonation_iff (k : Kernel) :
    k.threadGetPriority = k.maxDonation (k.prio k.current) ↔ k.LastIsHighest := by
  cases hback : (k.thread k.current).donor.getLast? with
  | none =>
    have hnil := List.getLast?_eq_none_iff.mp hback
    rw [threadGetPriority_of_no_donor hnil, maxDonation, LastIsHighest, hnil]
    constructor
    · intro _ other hother
      cases hother
    · intro _
      rfl
  | some other =>
    have hself := maxDonation_le.mp (Int.le_refl (k.maxDonation (k.prio k.current)))
    have hother := hself.2 other (List.mem_of_getLast? hback)
    have hiff : k.maxDonation (k.prio k.current) ≤ max (k.prio k.current) (k.prio other) ↔
        k.LastIsHighest := by
      rw [maxDonation_le, LastIsHighest, hback]
      constructor
      · intro h other' hother'
        cases hother'
        exact h.2
      · intro h
        exact ⟨Int.le_max_left _ _, h other rfl⟩
    rw [threadGetPriority_of_back hback, ← hiff]
    omega

/-- With priority `p`, `thread_get_priority` returns the maximum with the donors' and
`check_priority` yields exactly to a thread above it. -/
def RespectsDonations (k : Kernel) (p : Int) : Prop :=
  k.threadGetPriority = k.maxDonation p ∧
    (k.Yields ↔ ∃ t ∈ k.readyList, k.maxDonation p < k.prio t)

/-- The first ready thread is above the running one exactly when some ready thread is above
all its donors too. -/
def FrontDecides (k : Kernel) (p : Int) : Prop :=
  (∃ t ∈ k.readyList.head?, p < k.prio t) ↔ ∃ t ∈ k.readyList, k.maxDonation p < k.prio t

/-- Threads 3 and 4 of priorities 35 and 40 wait for thread 1's lock; thread 5 of priority 20 is
ready. -/
def twoDonors : List Event :=
  calls (.lockAcquire 10) 3 ++ calls (.threadCreate [0, 1, 2] 3 [] 35) 23 ++
    calls (.lockAcquire 10) 2 ++
    calls (.threadCreate [0, 1, 2] 4 (List.replicate 15 97) 40) 23 ++
    calls (.lockAcquire 10) 2 ++ calls (.threadCreate [0, 1, 2] 5 [] 20) 23

end Kernel

end Pintos.Threads
