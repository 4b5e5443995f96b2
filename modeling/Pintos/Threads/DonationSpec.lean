import Mathlib.Order.Bounds.Basic
import Pintos.Threads.Donation

/-! # What priority donation is for

Every thread should run at the maximum of its original priority and of the priorities of
the threads that are blocked on locks it holds. Each change that the lock routines make
to the threads and locks keeps this exactly under a condition on the state before it.
-/

namespace Pintos.Threads

open Function

namespace Sync

/-- The threads blocked in `lock_acquire` on `l`. -/
def waiters (s : Sync) (l : LockRef) : List ThreadRef := (s.sema (.lock l)).waiters

/-- The priorities of the threads that are blocked on a lock `t` holds. -/
def donations (s : Sync) (t : ThreadRef) : Set Int :=
  {p | ∃ l, s.holder l = some t ∧ ∃ u ∈ s.waiters l, (s.thread u).priority = p}

/-- Every thread runs at the maximum of its original priority and of its donations. -/
def Donated (s : Sync) : Prop :=
  ∀ t ∈ s.allList,
    IsGreatest (insert (s.thread t).originalPriority (s.donations t)) (s.thread t).priority

/-- The same for one thread, taken apart. -/
structure PriorityOk (s : Sync) (t : ThreadRef) : Prop where
  own : (s.thread t).originalPriority ≤ (s.thread t).priority
  donor : ∀ l u, s.holder l = some t → u ∈ s.waiters l →
    (s.thread u).priority ≤ (s.thread t).priority
  attained : (s.thread t).priority = (s.thread t).originalPriority ∨
    ∃ l u, s.holder l = some t ∧ u ∈ s.waiters l ∧
      (s.thread u).priority = (s.thread t).priority

lemma donated_iff {s : Sync} : s.Donated ↔ ∀ t ∈ s.allList, s.PriorityOk t := by
  refine forall₂_congr fun t _ => ?_
  constructor
  · rintro ⟨hmem, hub⟩
    refine ⟨hub (Set.mem_insert _ _), ?_, ?_⟩
    · intro l u hl hu
      exact hub (Set.mem_insert_of_mem _ ⟨l, hl, u, hu, rfl⟩)
    · rcases hmem with h | ⟨l, hl, u, hu, h⟩
      · exact .inl h
      · exact .inr ⟨l, u, hl, hu, h⟩
  · rintro ⟨hown, hdonor, hatt⟩
    constructor
    · rcases hatt with h | ⟨l, u, hl, hu, h⟩
      · exact .inl h
      · exact .inr ⟨l, hl, u, hu, h⟩
    · rintro p (rfl | ⟨l, hl, u, hu, rfl⟩)
      · exact hown
      · exact hdonor l u hl hu

section Waiters

variable (s : Sync) (t : ThreadRef) (th : Thread) (l m : LockRef) (h : Option ThreadRef)
  (sema : Semaphore)

@[simp] lemma waiters_setThread : (s.setThread t th).waiters m = s.waiters m := rfl

@[simp] lemma waiters_setHolder : (s.setHolder l h).waiters m = s.waiters m := rfl

@[simp] lemma waiters_setSema_self : (s.setSema (.lock l) sema).waiters l = sema.waiters := by
  simp [waiters]

lemma waiters_setSema_of_ne (hne : m ≠ l) : (s.setSema (.lock l) sema).waiters m = s.waiters m := by
  simp [waiters, hne]

end Waiters

/-! ## When a change keeps every priority right -/

section Changes

variable {s s' : Sync} {t h : ThreadRef} {l : LockRef}

/-- A free lock is taken: its waiters now count for the new holder. -/
lemma donated_take_iff (hD : s.Donated) (ht : t ∈ s.allList) (hfree : s.holder l = none)
    (hall : s'.allList = s.allList) (hprio : ∀ u, (s'.thread u).priority = (s.thread u).priority)
    (horig : ∀ u, (s'.thread u).originalPriority = (s.thread u).originalPriority)
    (hholder : s'.holder = update s.holder l (some t)) (hwait : ∀ m, s'.waiters m = s.waiters m) :
    s'.Donated ↔ ∀ u ∈ s.waiters l, (s.thread u).priority ≤ (s.thread t).priority := by
  have hkeep : ∀ {m x}, s.holder m = some x → s'.holder m = some x := by
    intro m x hm
    have hml : m ≠ l := by
      rintro rfl
      simp [hfree] at hm
    rw [hholder, update_of_ne hml, hm]
  rw [donated_iff] at hD ⊢
  constructor
  · intro h u hu
    have hok := (h t (by rwa [hall])).donor l u (by rw [hholder, update_self]) (by rwa [hwait])
    rwa [hprio, hprio] at hok
  · intro h x hx
    rw [hall] at hx
    have hok := hD x hx
    refine ⟨by rw [hprio, horig]; exact hok.own, ?_, ?_⟩
    · intro m u hm hu
      rw [hprio, hprio]
      rw [hwait] at hu
      by_cases hml : m = l
      · subst hml
        rw [hholder, update_self] at hm
        cases hm
        exact h u hu
      · rw [hholder, update_of_ne hml] at hm
        exact hok.donor m u hm hu
    · rw [hprio, horig]
      rcases hok.attained with ho | ⟨m, u, hm, hu, he⟩
      · exact .inl ho
      · exact .inr ⟨m, u, hkeep hm, by rwa [hwait], by rw [hprio, he]⟩

lemma donated_queue_iff (hD : s.Donated) (hh : s.holder l = some h) (hmem : h ∈ s.allList)
    (hall : s'.allList = s.allList) (hprio : ∀ u, (s'.thread u).priority = (s.thread u).priority)
    (horig : ∀ u, (s'.thread u).originalPriority = (s.thread u).originalPriority)
    (hholder : s'.holder = s.holder)
    (hwait : ∀ m u, u ∈ s'.waiters m ↔ u ∈ s.waiters m ∨ m = l ∧ u = t) :
    s'.Donated ↔ (s.thread t).priority ≤ (s.thread h).priority := by
  rw [donated_iff] at hD ⊢
  constructor
  · intro hok
    have hle := (hok h (by rwa [hall])).donor l t (by rw [hholder, hh])
      ((hwait l t).mpr (.inr ⟨rfl, rfl⟩))
    rwa [hprio, hprio] at hle
  · intro hle x hx
    rw [hall] at hx
    have hok := hD x hx
    refine ⟨by rw [hprio, horig]; exact hok.own, ?_, ?_⟩
    · intro m u hm hu
      rw [hprio, hprio]
      rw [hholder] at hm
      rcases (hwait m u).mp hu with hu | ⟨rfl, rfl⟩
      · exact hok.donor m u hm hu
      · rw [hh] at hm
        cases hm
        exact hle
    · rw [hprio, horig]
      rcases hok.attained with ho | ⟨m, u, hm, hu, he⟩
      · exact .inl ho
      · exact .inr ⟨m, u, by rw [hholder, hm], (hwait m u).mpr (.inl hu), by rw [hprio, he]⟩

/-- A thread that is not blocked changes its own priorities, and perhaps releases locks. -/
lemma donated_self_iff (new orig : Int) (hD : s.Donated) (ht : t ∈ s.allList)
    (hrun : ∀ m, t ∉ s.waiters m) (hall : s'.allList = s.allList)
    (hprio : ∀ u, (s'.thread u).priority = if u = t then new else (s.thread u).priority)
    (horig : ∀ u, (s'.thread u).originalPriority =
      if u = t then orig else (s.thread u).originalPriority)
    (hothers : ∀ m x, x ≠ t → (s'.holder m = some x ↔ s.holder m = some x))
    (hwait : ∀ m x, s'.holder m = some x → s'.waiters m = s.waiters m) :
    s'.Donated ↔ IsGreatest
      (insert orig {p | ∃ m, s'.holder m = some t ∧ ∃ u ∈ s.waiters m, (s.thread u).priority = p})
      new := by
  have hblocked : ∀ {m u}, u ∈ s.waiters m → (s'.thread u).priority = (s.thread u).priority := by
    intro m u hu
    rw [hprio, if_neg]
    rintro rfl
    exact hrun m hu
  have hself : ∀ p, (p ∈ insert (s'.thread t).originalPriority (s'.donations t) ↔ p ∈ insert orig
        {p | ∃ m, s'.holder m = some t ∧ ∃ u ∈ s.waiters m, (s.thread u).priority = p}) := by
    intro p
    rw [Set.mem_insert_iff, Set.mem_insert_iff, horig, if_pos rfl]
    refine or_congr Iff.rfl (exists_congr fun m => and_congr_right fun hm => ?_)
    rw [hwait m t hm]
    refine exists_congr fun u => and_congr_right fun hu => ?_
    rw [hblocked hu]
  have hset := Set.ext hself
  constructor
  · intro h
    have hok := h t (by rwa [hall])
    rwa [hset, hprio, if_pos rfl] at hok
  · intro h x hx
    by_cases hxt : x = t
    · subst hxt
      rwa [hset, hprio, if_pos rfl]
    · rw [hall] at hx
      have hdon : s'.donations x = s.donations x := by
        ext p
        refine exists_congr fun m => ?_
        constructor
        · rintro ⟨hm, u, hu, rfl⟩
          rw [hwait m x hm] at hu
          exact ⟨(hothers m x hxt).mp hm, u, hu, (hblocked hu).symm⟩
        · rintro ⟨hm, u, hu, rfl⟩
          have hm' := (hothers m x hxt).mpr hm
          exact ⟨hm', u, by rwa [hwait m x hm'], hblocked hu⟩
      rw [hdon, hprio, horig, if_neg hxt, if_neg hxt]
      exact hD x hx

open Classical in
/-- A thread asks for a held lock and donates along the chain. It must be blocked by all that it
raises: a woken thread passes the donation on although it waits for no one. -/
lemma donated_request_iff (hD : s.Donated) (hmem : ∀ m x, s.holder m = some x → x ∈ s.allList)
    (htry : ∀ m, ∀ u ∈ s.waiters m, (s.thread u).tryLock = some m) (hall : s'.allList = s.allList)
    (hprio : ∀ u, (s'.thread u).priority =
      if s.Donee (s.thread t).priority l u then (s.thread t).priority else (s.thread u).priority)
    (horig : ∀ u, (s'.thread u).originalPriority = (s.thread u).originalPriority)
    (hholder : s'.holder = s.holder)
    (hwait : ∀ m u, u ∈ s'.waiters m ↔ u ∈ s.waiters m ∨ m = l ∧ u = t) :
    s'.Donated ↔ ∀ y, s.Donee (s.thread t).priority l y → s.holder l = some y ∨
      ∃ x m, s.Donee (s.thread t).priority l x ∧ x ∈ s.waiters m ∧ s.holder m = some y := by
  have hraise : ∀ u, (s.thread u).priority ≤ (s'.thread u).priority := by
    intro u
    rw [hprio]
    split
    next hu => exact hu.priority_lt.le
    next => exact le_rfl
  have hcaller : (s'.thread t).priority = (s.thread t).priority := by
    rw [hprio]
    split <;> rfl
  -- a thread blocked on a lock of `x` that is raised raises `x`, unless `x` is as high
  have hpass : ∀ {m u x}, u ∈ s.waiters m → s.holder m = some x →
      s.Donee (s.thread t).priority l u → (s.thread t).priority ≤ (s'.thread x).priority := by
    intro m u x hu hm hdon
    by_cases hlt : (s.thread x).priority < (s.thread t).priority
    · rw [hprio, if_pos (hdon.next (htry m u hu) hm hlt)]
    · exact (not_lt.mp hlt).trans (hraise x)
  rw [donated_iff] at hD ⊢
  constructor
  · intro hok y hy
    have hylt := hy.priority_lt
    obtain ⟨m, hm⟩ := hy.holds
    have hoky := hD y (hmem m y hm)
    have hown := hoky.own
    rcases (hok y (by rw [hall]; exact hmem m y hm)).attained with ho | ⟨m', u, hm', hu, he⟩
    · rw [hprio, if_pos hy, horig] at ho
      omega
    · rw [hholder] at hm'
      rw [hprio y, if_pos hy] at he
      rcases (hwait m' u).mp hu with hu | ⟨rfl, rfl⟩
      · refine .inr ⟨u, m', ?_, hu, hm'⟩
        by_contra hnot
        rw [hprio, if_neg hnot] at he
        have hle := hoky.donor m' u hm' hu
        omega
      · exact .inl hm'
  · intro hG x hx
    rw [hall] at hx
    have hok := hD x hx
    refine ⟨by rw [horig]; exact hok.own.trans (hraise x), ?_, ?_⟩
    · intro m u hm hu
      rw [hholder] at hm
      rcases (hwait m u).mp hu with hu | ⟨rfl, rfl⟩
      · rw [hprio u]
        split
        next hdon => exact hpass hu hm hdon
        next => exact (hok.donor m u hm hu).trans (hraise x)
      · rw [hcaller]
        by_cases hlt : (s.thread x).priority < (s.thread u).priority
        · rw [hprio x, if_pos (.holder hm hlt)]
        · exact (not_lt.mp hlt).trans (hraise x)
    · by_cases hdon : s.Donee (s.thread t).priority l x
      · refine .inr ?_
        rcases hG x hdon with hl | ⟨u, m, hu, hum, hm⟩
        · exact ⟨l, t, by rw [hholder, hl], (hwait l t).mpr (.inr ⟨rfl, rfl⟩),
            by rw [hcaller, hprio x, if_pos hdon]⟩
        · exact ⟨m, u, by rw [hholder, hm], (hwait m u).mpr (.inl hum),
            by rw [hprio u, if_pos hu, hprio x, if_pos hdon]⟩
      · rw [hprio x, if_neg hdon, horig]
        rcases hok.attained with ho | ⟨m, u, hm, hu, he⟩
        · exact .inl ho
        · refine .inr ⟨m, u, by rw [hholder, hm], (hwait m u).mpr (.inl hu), ?_⟩
          rw [hprio u, if_neg, he]
          intro hudon
          have hlt := hudon.priority_lt
          exact hdon (hudon.next (htry m u hu) hm (by omega))

end Changes

end Sync

end Pintos.Threads
