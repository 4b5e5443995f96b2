import Mathlib.Data.List.Nodup
import Pintos.Threads.KernelQueues
import Pintos.Threads.RunQueue

/-! # Thread states and queues agree

A thread that is neither running nor the idle thread is in at most one place that can make
it run again: the ready list, the waiters of a semaphore, an interrupt queue or the hands
of its creator. Every operation takes a thread from one place to another and changes its
status to that of the new place, so each invariant follows from one lemma about such a
move.
-/

namespace Pintos.Threads

open Foundation Lib Function List Option RunQueue

namespace RunQueue

inductive Place where
  | ready
  | sema (r : SemaRef)
  | intq (q : Nat)
  | created

def Place.status : Place → ThreadStatus
  | .ready => .ready
  | _ => .blocked

def At (k : RunQueue) (t : ThreadRef) : Place → Prop
  | .ready => t ∈ k.readyList
  | .sema r => t ∈ (k.sema r).waiters
  | .intq q => k.waiter q = some t
  | .created => t ∈ k.created

/-- What holds at any time; `running` is the thread that has the CPU and still has status
RUNNING, if there is one. -/
structure Places (k : RunQueue) (running : Option ThreadRef) : Prop where
  running : ∀ t ∈ k.allList, k.status t = .running ↔ running = some t
  once : ∀ t p p', k.At t p → k.At t p' → p = p'
  thread : ∀ t p, k.At t p → t ∈ k.allList ∧ k.status t = p.status ∧ k.idleThread ≠ some t
  ready : ∀ t ∈ k.allList, k.status t = .ready → k.idleThread ≠ some t → t ∈ k.readyList
  readyNodup : k.readyList.Nodup
  waitersNodup : ∀ r, (k.sema r).waiters.Nodup
  idle : ∀ t, k.idleThread = some t → t ∈ k.allList

structure Sound (k : RunQueue) : Prop extends Places k (some k.current) where
  member : k.current ∈ k.allList

/-- `t` is blocked by a bare `thread_block`: nothing else is going to unblock it. -/
structure Parked (k : RunQueue) (t : ThreadRef) : Prop where
  member : t ∈ k.allList
  blocked : k.status t = .blocked
  notIdle : k.idleThread ≠ some t
  nowhere : ∀ p, ¬ k.At t p

/-- A direct call of `thread_unblock` is on a parked thread. -/
def Clean (k : RunQueue) (op : Op) : Prop := ∀ t, op = .threadUnblock t → k.Parked t

/-! ## Moves -/

variable {k k' : RunQueue} {running running' : Option ThreadRef} {t u : ThreadRef}

/-- Thread `u` goes to `dest`, or nowhere. Others may be forgotten but for the ready list. -/
structure Moves (k k' : RunQueue) (u : ThreadRef) (dest : Option Place) (st : ThreadStatus) :
    Prop where
  status : k'.status = Function.update k.status u st
  threads : ∀ t ≠ u, (t ∈ k'.allList ↔ t ∈ k.allList)
  idleThread : k'.idleThread = k.idleThread
  places : ∀ t p, k'.At t p → (t = u ∧ dest = some p) ∨ (t ≠ u ∧ k.At t p)
  stays : ∀ t ≠ u, t ∈ k.readyList → t ∈ k'.readyList
  readyNodup : k'.readyList.Nodup
  waitersNodup : ∀ r, (k'.sema r).waiters.Nodup

lemma Places.moves (dest : Option Place) (st : ThreadStatus) (h : Places k running)
    (hm : Moves k k' u dest st) (hst : ∀ p, dest = some p → st = p.status)
    (hready : st = .ready → k.idleThread = some u ∨ u ∈ k'.readyList)
    (hu : ∀ p, dest = some p → u ∈ k'.allList ∧ k.idleThread ≠ some u)
    (hidle : k.idleThread = some u → u ∈ k'.allList)
    (hrun : ∀ t ≠ u, running' = some t ↔ running = some t)
    (hrunu : st = .running ↔ running' = some u) : Places k' running' := by
  have hself : k'.status u = st := by rw [hm.status, update_self]
  have hother : ∀ t ≠ u, k'.status t = k.status t := fun t ht => by
    rw [hm.status, update_of_ne ht]
  refine ⟨fun t ht => ?_, fun t p p' hp hp' => ?_, fun t p hp => ?_, fun t ht htst hti => ?_,
    hm.readyNodup, hm.waitersNodup, fun t ht => ?_⟩
  · by_cases hne : t = u
    · rwa [hne, hself]
    · rw [hother t hne, hrun t hne]
      exact h.running t ((hm.threads t hne).mp ht)
  · rcases hm.places t p hp with ⟨heq, hd⟩ | ⟨hne, hp⟩ <;>
      rcases hm.places t p' hp' with ⟨heq', hd'⟩ | ⟨hne', hp'⟩
    · rw [hd] at hd'
      exact some.inj hd'
    · exact absurd heq hne'
    · exact absurd heq' hne
    · exact h.once t p p' hp hp'
  · rw [hm.idleThread]
    rcases hm.places t p hp with ⟨heq, hd⟩ | ⟨hne, hp⟩
    · rw [heq, hself]
      exact ⟨(hu p hd).1, hst p hd, (hu p hd).2⟩
    · rw [hother t hne, hm.threads t hne]
      exact h.thread t p hp
  · rw [hm.idleThread] at hti
    by_cases hne : t = u
    · rw [hne, hself] at htst
      rw [hne] at hti ⊢
      exact (hready htst).resolve_left hti
    · rw [hother t hne] at htst
      exact hm.stays t hne (h.ready t ((hm.threads t hne).mp ht) htst hti)
  · rw [hm.idleThread] at ht
    by_cases hne : t = u
    · rw [hne] at ht ⊢
      exact hidle ht
    · exact (hm.threads t hne).mpr (h.idle t ht)

lemma Places.forget (h : Places k running) (hstatus : k'.status = k.status)
    (hall : k'.allList = k.allList) (hidle : k'.idleThread = k.idleThread)
    (hready : k'.readyList = k.readyList) (hat : ∀ t p, k'.At t p → k.At t p)
    (hnodup : ∀ r, (k'.sema r).waiters.Nodup) : Places k' running := by
  refine ⟨?_, fun t p p' hp hp' => h.once t p p' (hat t p hp) (hat t p' hp'),
    fun t p hp => ?_, ?_, ?_, hnodup, ?_⟩
  · rw [hstatus, hall]
    exact h.running
  · rw [hstatus, hall, hidle]
    exact h.thread t p (hat t p hp)
  · rw [hstatus, hall, hidle, hready]
    exact h.ready
  · rw [hready]
    exact h.readyNodup
  · rw [hidle, hall]
    exact h.idle

variable {r : SemaRef} {sema : Semaphore} {p : Place}

lemma at_setSema :
    (k.setSema r sema).At t p ↔
      (p = .sema r ∧ t ∈ sema.waiters) ∨ (p ≠ .sema r ∧ k.At t p) := by
  cases p with
  | sema r' =>
    change t ∈ (update k.sema r sema r').waiters ↔ _
    by_cases hr : r' = r
    · subst hr
      simp
    · simp [hr, At]
  | ready => simp [At, setSema]
  | intq q => simp [At, setSema]
  | created => simp [At, setSema]

lemma at_setWaiter {q : Nat} {w : Option ThreadRef} :
    (k.setWaiter q w).At t p ↔ (p = .intq q ∧ w = some t) ∨ (p ≠ .intq q ∧ k.At t p) := by
  cases p with
  | intq q' =>
    change update k.waiter q w q' = some t ↔ _
    by_cases hq : q' = q
    · subst hq
      simp
    · simp [hq, At]
  | ready => simp [At, setWaiter]
  | sema r => simp [At, setWaiter]
  | created => simp [At, setWaiter]

lemma waitersNodup_setSema (h : ∀ r, (k.sema r).waiters.Nodup) (hsema : sema.waiters.Nodup)
    (r' : SemaRef) : ((k.setSema r sema).sema r').waiters.Nodup := by
  change (update k.sema r sema r').waiters.Nodup
  by_cases hr : r' = r
  · rwa [hr, update_self]
  · rw [update_of_ne hr]
    exact h r'

lemma Places.setSema (h : Places k running) (hsub : sema.waiters ⊆ (k.sema r).waiters)
    (hnodup : sema.waiters.Nodup) : Places (k.setSema r sema) running := by
  refine h.forget rfl rfl rfl rfl (fun t p hp => ?_) (waitersNodup_setSema h.waitersNodup hnodup)
  rcases at_setSema.mp hp with ⟨rfl, ht⟩ | ⟨-, hp⟩
  · exact hsub ht
  · exact hp

lemma Places.setWaiter_none (h : Places k running) (q : Nat) :
    Places (k.setWaiter q none) running := by
  refine h.forget rfl rfl rfl rfl (fun t p hp => ?_) h.waitersNodup
  rcases at_setWaiter.mp hp with ⟨-, hq⟩ | ⟨-, hp⟩
  · cases hq
  · exact hp

lemma Sound.status_current (h : k.Sound) : k.status k.current = .running :=
  (h.running k.current h.member).mpr rfl

lemma Sound.threadCurrent (h : k.Sound) : k.threadCurrent = .ok k.current := by
  rw [RunQueue.threadCurrent, if_neg (not_not_intro h.member),
    if_neg (not_not_intro h.status_current)]

lemma Sound.current_nowhere (h : k.Sound) (p : Place) : ¬ k.At k.current p := by
  intro hp
  have hst := (h.thread _ p hp).2.1
  rw [h.status_current] at hst
  cases p <;> cases hst

lemma Sound.ne_current (h : k.Sound) (hp : k.At t p) : t ≠ k.current := by
  rintro rfl
  exact h.current_nowhere p hp

lemma Places.moves_ready (h : Places k running) (hu : ∀ p, ¬ k.At u p) :
    Moves k ((k.insertReady u).setStatus u .ready) u (some .ready) .ready := by
  have hperm := listInsertOrdered_perm k.elemLess u k.readyList
  refine ⟨rfl, fun _ _ => Iff.rfl, rfl, fun t p hp => ?_, fun t _ ht => ?_, ?_, h.waitersNodup⟩
  · by_cases hne : t = u
    · cases p with
      | ready => exact .inl ⟨hne, rfl⟩
      | sema r => exact absurd (hne ▸ hp) (hu (.sema r))
      | intq q => exact absurd (hne ▸ hp) (hu (.intq q))
      | created => exact absurd (hne ▸ hp) (hu .created)
    · refine .inr ⟨hne, ?_⟩
      cases p with
      | ready => exact (mem_listInsertOrdered.mp hp).resolve_left hne
      | sema r => exact hp
      | intq q => exact hp
      | created => exact hp
  · exact mem_listInsertOrdered.mpr (.inr ht)
  · exact hperm.nodup_iff.mpr (nodup_cons.mpr ⟨hu .ready, h.readyNodup⟩)

/-- An operation keeps the invariant or fails in `schedule` because there is no thread to
run. -/
def Fine (k : RunQueue) : Except Panic RunQueue → Prop
  | .ok k' => k'.Sound
  | .error e => e = .isThread ∧ k.readyList = [] ∧ k.idleThread = none

lemma Places.switchTo {ready : List ThreadRef} (h : Places k none) (hmem : u ∈ k.allList)
    (hsub : ready.Sublist k.readyList) (hu : u ∉ ready) (hat : ∀ p, k.At u p → p = .ready)
    (hstays : ∀ t ≠ u, t ∈ k.readyList → t ∈ ready) : (k.switchTo u ready).Sound := by
  refine ⟨h.moves (u := u) none .running ⟨rfl, fun _ _ => Iff.rfl, rfl, ?_,
    hstays, h.readyNodup.sublist hsub, h.waitersNodup⟩ nofun nofun nofun (fun _ => hmem)
    (fun t ht => ?_) ⟨fun _ => rfl, fun _ => rfl⟩, hmem⟩
  · intro t p hp
    refine .inr ⟨?_, ?_⟩
    · rintro rfl
      cases p with
      | ready => exact hu hp
      | sema r => cases hat (.sema r) hp
      | intq q => cases hat (.intq q) hp
      | created => cases hat .created hp
    · cases p with
      | ready => exact hsub.subset hp
      | sema r => exact hp
      | intq q => exact hp
      | created => exact hp
  · constructor
    · intro heq
      exact absurd (some.inj heq).symm ht
    · nofun

lemma Places.schedule (h : Places k none) (hcur : k.status k.current ≠ .running) :
    Fine k k.schedule := by
  unfold RunQueue.schedule nextThreadToRun
  rw [if_neg hcur]
  cases hr : k.readyList with
  | nil =>
    cases hi : k.idleThread with
    | none => exact ⟨rfl, hr, hi⟩
    | some t =>
      have hmem := h.idle t hi
      dsimp only
      rw [if_pos hmem]
      refine h.switchTo hmem (nil_sublist _) not_mem_nil
        (fun p hp => absurd hi (h.thread t p hp).2.2) fun u _ hu => ?_
      rwa [hr] at hu
  | cons t ts =>
    have hat : k.At t .ready := by
      change t ∈ k.readyList
      rw [hr]
      exact mem_cons_self
    have hmem := (h.thread t .ready hat).1
    have hnodup := h.readyNodup
    rw [hr] at hnodup
    dsimp only
    rw [if_pos hmem]
    refine h.switchTo hmem ?_ (nodup_cons.mp hnodup).1
      (fun p hp => h.once t p .ready hp hat) fun u hu hur => ?_
    · rw [hr]
      exact sublist_cons_self t ts
    · rw [hr] at hur
      exact (mem_cons.mp hur).resolve_left hu

lemma Sound.leave (dest : Option Place) (st : ThreadStatus) (h : k.Sound)
    (hm : Moves k k' k.current dest st) (hcur : k'.current = k.current)
    (hst : ∀ p, dest = some p → st = p.status) (hrun : st ≠ .running)
    (hready : st = .ready → k.idleThread = some k.current ∨ k.current ∈ k'.readyList)
    (hdest : ∀ p, dest = some p → k.current ∈ k'.allList ∧ k.idleThread ≠ some k.current)
    (hidle : k.idleThread = some k.current → k.current ∈ k'.allList) : Fine k' k'.schedule := by
  have hplaces : Places k' none :=
    h.moves dest st hm hst hready hdest hidle
      (fun t ht => ⟨nofun, fun heq => absurd (some.inj heq).symm ht⟩)
      ⟨fun heq => absurd heq hrun, nofun⟩
  refine hplaces.schedule ?_
  rwa [hcur, hm.status, update_self]

/-! ## Operations of the running thread -/

lemma Fine.mono {x : Except Panic RunQueue} (h : Fine k' x)
    (hready : k'.readyList = [] → k.readyList = []) (hidle : k'.idleThread = k.idleThread) :
    Fine k x := by
  cases x with
  | ok k₁ => exact h
  | error e => exact ⟨h.1, hready h.2.1, hidle ▸ h.2.2⟩

lemma Sound.block (dest : Option Place) (h : k.Sound) (hstatus : k'.status = k.status)
    (hall : k'.allList = k.allList) (hcur : k'.current = k.current)
    (hidle : k'.idleThread = k.idleThread) (hready : k'.readyList = k.readyList)
    (hat : ∀ t p, k'.At t p → (t = k.current ∧ dest = some p) ∨ k.At t p)
    (hnodup : ∀ r, (k'.sema r).waiters.Nodup)
    (hdest : ∀ p, dest = some p → p.status = .blocked ∧ k.idleThread ≠ some k.current) :
    Fine k k'.threadBlock := by
  have hcurrent : k'.threadCurrent = .ok k.current := by
    rw [RunQueue.threadCurrent, hall, hstatus, hcur, if_neg (not_not_intro h.member),
      if_neg (not_not_intro h.status_current)]
  have hmem : k.current ∈ k'.allList := by
    rw [hall]
    exact h.member
  have hfine : Fine (k'.setStatus k.current .blocked)
      (k'.setStatus k.current .blocked).schedule := by
    refine h.leave dest .blocked
      ⟨by rw [setStatus, hstatus], fun t _ => by rw [setStatus, hall], hidle, ?_, ?_, ?_,
        hnodup⟩ hcur (fun p hp => (hdest p hp).1.symm) nofun nofun
      (fun p hp => ⟨hmem, (hdest p hp).2⟩) fun _ => hmem
    · intro t p hp
      have hp' : k'.At t p := by cases p <;> exact hp
      rcases hat t p hp' with hnew | hold
      · exact .inl hnew
      · exact .inr ⟨h.ne_current hold, hold⟩
    · intro t _ ht
      change t ∈ k'.readyList
      rwa [hready]
    · change k'.readyList.Nodup
      rw [hready]
      exact h.readyNodup
  have hblock : k'.threadBlock = (k'.setStatus k.current .blocked).schedule := by
    rw [threadBlock, hcurrent]
    rfl
  rw [hblock]
  exact hfine.mono (fun hr => hready ▸ hr) hidle

lemma Sound.threadBlock (h : k.Sound) : Fine k k.threadBlock :=
  h.block none rfl rfl rfl rfl rfl (fun _ _ hp => .inr hp) h.waitersNodup nofun

section

variable (h : k.Sound) (hidle : k.idleThread ≠ some k.current)
include h hidle

lemma Sound.semaDown (r : SemaRef) : Fine k (k.semaDown r) := by
  unfold RunQueue.semaDown
  by_cases hv : (k.sema r).value = 0
  · rw [Semaphore.down_of_zero hv]
    have hperm := listInsertOrdered_perm k.elemLess k.current (k.sema r).waiters
    have hnodup := hperm.nodup_iff.mpr
      (nodup_cons.mpr ⟨h.current_nowhere (.sema r), h.waitersNodup r⟩)
    refine h.block (some (.sema r)) rfl rfl rfl rfl rfl (fun t p hp => ?_)
      (waitersNodup_setSema h.waitersNodup hnodup) fun p hp => ?_
    · rcases at_setSema.mp hp with ⟨rfl, ht⟩ | ⟨-, hold⟩
      · rcases mem_listInsertOrdered.mp ht with heq | hold
        · exact .inl ⟨heq, rfl⟩
        · exact .inr hold
      · exact .inr hold
    · cases hp
      exact ⟨rfl, hidle⟩
  · rw [Semaphore.down_of_pos hv]
    exact ⟨h.setSema (Subset.refl _) (h.waitersNodup r), h.member⟩

lemma Sound.intqWait (q : Nat) : Fine k (k.intqWait q) := by
  have hwait : k.intqWait q = (k.setWaiter q (some k.current)).threadBlock := by
    rw [RunQueue.intqWait, h.threadCurrent]
    rfl
  rw [hwait]
  refine h.block (some (.intq q)) rfl rfl rfl rfl rfl (fun t p hp => ?_) h.waitersNodup
    fun p hp => ?_
  · rcases at_setWaiter.mp hp with ⟨rfl, hw⟩ | ⟨-, hold⟩
    · exact .inl ⟨(some.inj hw).symm, rfl⟩
    · exact .inr hold
  · cases hp
    exact ⟨rfl, hidle⟩

lemma Sound.threadExit : Fine k k.threadExit := by
  have hexit : k.threadExit =
      ({ k with allList := k.allList.erase k.current }.setStatus k.current .dying).schedule := by
    rw [RunQueue.threadExit, h.threadCurrent]
    rfl
  have hmoves : Moves k ({ k with allList := k.allList.erase k.current }.setStatus k.current .dying)
      k.current none .dying := by
    refine ⟨rfl, fun t ht => mem_erase_of_ne ht, rfl, fun t p hp => ?_, fun _ _ ht => ht,
      h.readyNodup, h.waitersNodup⟩
    have hp' : k.At t p := by cases p <;> exact hp
    exact .inr ⟨h.ne_current hp', hp'⟩
  have hfine := h.leave none .dying hmoves rfl nofun nofun nofun nofun fun heq =>
    absurd heq hidle
  rw [hexit]
  exact hfine.mono id rfl

end

lemma Sound.threadYield (h : k.Sound) : Fine k k.threadYield := by
  have hyield : k.threadYield = ((if k.idleThread ≠ some k.current then k.insertReady k.current
        else k).setStatus k.current .ready).schedule := by
    rw [RunQueue.threadYield, h.threadCurrent]
    rfl
  rw [hyield]
  by_cases hidle : k.idleThread = some k.current
  · -- the idle thread is not queued: `schedule` finds it by itself
    rw [if_neg (not_not_intro hidle)]
    have hmoves : Moves k (k.setStatus k.current .ready) k.current none .ready := by
      refine ⟨rfl, fun _ _ => Iff.rfl, rfl, fun t p hp => ?_, fun _ _ ht => ht, h.readyNodup,
        h.waitersNodup⟩
      have hp' : k.At t p := by cases p <;> exact hp
      exact .inr ⟨h.ne_current hp', hp'⟩
    have hfine := h.leave none .ready hmoves rfl nofun nofun (fun _ => .inl hidle) nofun
      fun _ => h.member
    exact hfine.mono id rfl
  · rw [if_pos hidle]
    have hmem : k.current ∈ (k.insertReady k.current).readyList :=
      mem_listInsertOrdered.mpr (.inl rfl)
    have hfine := h.leave _ _ (h.moves_ready h.current_nowhere) rfl
      (fun p hp => by cases hp; rfl) nofun (fun _ => .inr hmem)
      (fun p _ => ⟨h.member, hidle⟩) fun heq => absurd heq hidle
    refine hfine.mono (fun hr => ?_) rfl
    change (k.insertReady k.current).readyList = [] at hr
    simp [hr] at hmem

lemma Sound.threadTick (h : k.Sound) : Fine k k.threadTick := by
  have htick : k.threadTick = if Kernel.timeSlice ≤ k.threadTicks + 1 then
      { k with threadTicks := k.threadTicks + 1 }.threadYield
      else .ok { k with threadTicks := k.threadTicks + 1 } := by
    rw [RunQueue.threadTick, h.threadCurrent]
    rfl
  have hsound : { k with threadTicks := k.threadTicks + 1 }.Sound :=
    ⟨h.forget rfl rfl rfl rfl (fun t p hp => by cases p <;> exact hp) h.waitersNodup, h.member⟩
  rw [htick]
  split
  next => exact hsound.threadYield.mono id rfl
  next => exact hsound

lemma Sound.setIdle (h : k.Sound) (hnone : k.idleThread = none) : Fine k k.idle := by
  have hidle : k.idle = .ok { k with idleThread := some k.current } := by
    rw [idle, h.threadCurrent]
    rfl
  rw [hidle]
  refine ⟨⟨h.running, fun t p p' hp hp' => ?_, fun t p hp => ?_, fun t ht hst _ => ?_,
    h.readyNodup, h.waitersNodup, fun t ht => ?_⟩, h.member⟩
  · exact h.once t p p' (by cases p <;> exact hp) (by cases p' <;> exact hp')
  · have hp' : k.At t p := by cases p <;> exact hp
    obtain ⟨hmem, hst, -⟩ := h.thread t p hp'
    refine ⟨hmem, hst, fun heq => ?_⟩
    exact h.ne_current hp' (some.inj heq).symm
  · exact h.ready t ht hst (by rw [hnone]; nofun)
  · cases ht
    exact h.member

lemma threadUnblock_of_blocked (hmem : t ∈ k.allList) (hst : k.status t = .blocked) :
    k.threadUnblock t = .ok ((k.insertReady t).setStatus t .ready) := by
  rw [threadUnblock, if_neg (not_not_intro hmem), if_neg (not_not_intro hst)]

section

variable (h : k.Sound)
include h

lemma Sound.unblock (ht : k.Parked t) : ((k.insertReady t).setStatus t .ready).Sound := by
  have hne : some k.current ≠ some t := by
    intro heq
    have hst := h.status_current
    simp [some.inj heq, ht.blocked] at hst
  refine ⟨h.moves _ _ (h.moves_ready ht.nowhere) (fun p hp => by cases hp; rfl)
    (fun _ => .inr (mem_listInsertOrdered.mpr (.inl rfl))) (fun p _ => ⟨ht.member, ht.notIdle⟩)
    (fun heq => absurd heq ht.notIdle) (fun _ _ => Iff.rfl) ⟨nofun, fun heq => absurd heq hne⟩,
    h.member⟩

lemma Sound.parked (hp : k.At t p) (hblocked : p.status = .blocked)
    (hstatus : k'.status = k.status) (hall : k'.allList = k.allList)
    (hidle : k'.idleThread = k.idleThread) (hat : ∀ p', k'.At t p' → p' ≠ p ∧ k.At t p') :
    k'.Parked t := by
  obtain ⟨hmem, hst, hni⟩ := h.thread t p hp
  refine ⟨hall ▸ hmem, ?_, hidle ▸ hni, fun p' hp' => ?_⟩
  · rw [hstatus, hst, hblocked]
  · obtain ⟨hne, hold⟩ := hat p' hp'
    exact hne (h.once t p' p hold hp)

lemma Sound.threadUnblock (ht : k.Parked t) : Fine k (k.threadUnblock t) := by
  rw [threadUnblock_of_blocked ht.member ht.blocked]
  exact h.unblock ht

lemma Sound.semaUp (r : SemaRef) : Fine k (k.semaUp r) := by
  have hperm := Semaphore.up_waiters_perm k.elemLess (k.sema r)
  have hnodup := hperm.nodup_iff.mpr (h.waitersNodup r)
  have hsub : ((k.sema r).up k.elemLess).1.waiters ⊆ (k.sema r).waiters := fun t ht =>
    hperm.subset (mem_append_right _ ht)
  have hsound : (k.setSema r ((k.sema r).up k.elemLess).1).Sound :=
    ⟨h.setSema hsub (nodup_append.mp hnodup).2.1, h.member⟩
  unfold RunQueue.semaUp
  dsimp only
  cases hw : ((k.sema r).up k.elemLess).2 with
  | none => exact hsound
  | some w =>
    rw [hw] at hperm hnodup
    have hmem : k.At w (.sema r) := hperm.subset mem_cons_self
    refine (hsound.threadUnblock (h.parked hmem rfl rfl rfl rfl fun p hp => ?_)).mono id rfl
    rcases at_setSema.mp hp with ⟨-, ht⟩ | hold
    · exact absurd ht (nodup_cons.mp hnodup).1
    · exact hold

lemma Sound.intqSignal (q : Nat) : Fine k (k.intqSignal q) := by
  unfold RunQueue.intqSignal
  cases hq : k.waiter q with
  | none => exact h
  | some t =>
    have hparked : (k.setWaiter q none).Parked t := by
      refine h.parked (p := .intq q) hq rfl rfl rfl rfl fun p hp => ?_
      rcases at_setWaiter.mp hp with ⟨-, hnone⟩ | hold
      · cases hnone
      · exact hold
    have hunblock : k.threadUnblock t = .ok ((k.insertReady t).setStatus t .ready) :=
      threadUnblock_of_blocked hparked.member hparked.blocked
    dsimp only
    rw [hunblock]
    exact Sound.unblock (k := k.setWaiter q none) ⟨h.setWaiter_none q, h.member⟩ hparked

lemma Sound.initThread (hnew : t ∉ k.allList) (priority : Int) :
    (k.initThread t priority).Sound := by
  have hnowhere : ∀ p, ¬ k.At t p := fun p hp => hnew (h.thread t p hp).1
  have hne : some k.current ≠ some t := by
    intro heq
    exact hnew (some.inj heq ▸ h.member)
  have hmem : t ∈ (k.initThread t priority).allList :=
    mem_append_right _ (mem_singleton.mpr rfl)
  have hidle : k.idleThread ≠ some t := fun heq => hnew (h.idle t heq)
  refine ⟨h.moves (u := t) (some .created) .blocked
    ⟨rfl, fun u hu => ?_, rfl, fun u p hp => ?_, fun _ _ hr => hr, h.readyNodup, h.waitersNodup⟩
    (fun p hp => by cases hp; rfl) nofun (fun p _ => ⟨hmem, hidle⟩) (fun heq => absurd heq hidle)
    (fun _ _ => Iff.rfl) ⟨nofun, fun heq => absurd heq hne⟩, mem_append_left _ h.member⟩
  · simp [RunQueue.initThread, hu]
  · cases p with
    | created =>
      rcases mem_cons.mp hp with heq | hold
      · exact .inl ⟨heq, rfl⟩
      · exact .inr ⟨fun heq => hnowhere .created (heq ▸ hold), hold⟩
    | ready => exact .inr ⟨fun heq => hnowhere .ready (heq ▸ hp), hp⟩
    | sema r => exact .inr ⟨fun heq => hnowhere (.sema r) (heq ▸ hp), hp⟩
    | intq q => exact .inr ⟨fun heq => hnowhere (.intq q) (heq ▸ hp), hp⟩

lemma Sound.startThread (ht : t ∈ k.created) : Fine k (k.startThread t) := by
  have hat : ∀ u p, { k with created := k.created.filter (· ≠ t) }.At u p →
      k.At u p ∧ (u = t → p ≠ .created) := by
    intro u p hp
    cases p with
    | created =>
      obtain ⟨hold, hne⟩ := mem_filter.mp hp
      exact ⟨hold, fun heq => absurd heq (of_decide_eq_true hne)⟩
    | ready => exact ⟨hp, nofun⟩
    | sema r => exact ⟨hp, nofun⟩
    | intq q => exact ⟨hp, nofun⟩
  have hsound : { k with created := k.created.filter (· ≠ t) }.Sound :=
    ⟨h.forget rfl rfl rfl rfl (fun u p hp => (hat u p hp).1) h.waitersNodup, h.member⟩
  have hparked : { k with created := k.created.filter (· ≠ t) }.Parked t :=
    h.parked (p := .created) ht rfl rfl rfl rfl fun p hp =>
      ⟨(hat t p hp).2 rfl, (hat t p hp).1⟩
  have hunblock : k.threadUnblock t = .ok ((k.insertReady t).setStatus t .ready) :=
    threadUnblock_of_blocked hparked.member hparked.blocked
  rw [RunQueue.startThread, hunblock]
  exact hsound.unblock hparked

/-! ## Runs -/

lemma Sound.run {op : Op} (hop : k.Enabled op) (hclean : Clean k op) : Fine k (op.run k) := by
  cases op with
  | initThread t priority => exact h.initThread hop.2.1 priority
  | startThread t => exact h.startThread hop
  | threadYield => exact h.threadYield
  | threadBlock => exact h.threadBlock
  | threadUnblock t => exact h.threadUnblock (hclean t rfl)
  | threadExit => exact h.threadExit hop
  | setPriority t priority =>
    exact ⟨h.forget rfl rfl rfl rfl (fun t p hp => by cases p <;> exact hp) h.waitersNodup,
      h.member⟩
  | semaInit r value =>
    exact ⟨h.setSema (nil_subset _) nodup_nil, h.member⟩
  | semaDown r => exact h.semaDown hop r
  | semaUp r => exact h.semaUp r
  | intqWait q => exact h.intqWait hop q
  | intqSignal q => exact h.intqSignal q
  | idle => exact h.setIdle hop
  | threadTick => exact h.threadTick

end

lemma Start.sound (h : k.Start) : k.Sound := by
  have hat : ∀ t p, ¬ k.At t p := by
    intro t p hp
    cases p with
    | ready =>
      simp [At, h.ready] at hp
    | sema r =>
      simp [At, h.unused r] at hp
    | intq q =>
      simp [At, h.silent q] at hp
    | created =>
      simp [At, h.created] at hp
  refine ⟨⟨fun t ht => ?_, fun t p _ hp => absurd hp (hat t p), fun t p hp => absurd hp (hat t p),
    fun t ht hst => ?_, ?_, fun r => ?_, fun t ht => ?_⟩, ?_⟩
  · rw [h.threads, mem_singleton] at ht
    rw [ht, h.running]
    exact ⟨fun _ => rfl, fun _ => rfl⟩
  · rw [h.threads, mem_singleton] at ht
    simp [ht, h.running] at hst
  · rw [h.ready]
    exact nodup_nil
  · rw [h.unused r]
    exact nodup_nil
  · simp [h.idle] at ht
  · rw [h.threads]
    exact mem_singleton.mpr rfl

lemma Sound.step {op : Op} (h : k.Sound) (hclean : Clean k op)
    (hstep : machine.step k op = some k') : k'.Sound := by
  by_cases hop : k.Enabled op
  · have hfine := h.run hop hclean
    rw [show machine.step k op = (op.run k).toOption from if_pos hop] at hstep
    cases hx : op.run k with
    | ok k₁ =>
      rw [hx] at hstep hfine
      cases hstep
      exact hfine
    | error e =>
      rw [hx] at hstep
      cases hstep
  · rw [show machine.step k op = none from if_neg hop] at hstep
    cases hstep

/-- What the status of a thread says about the lists its `elem` is in. -/
structure Agrees (k : RunQueue) : Prop where
  running : ∃! t, t ∈ k.allList ∧ k.status t = .running
  ready : ∀ t ∈ k.allList, k.idleThread ≠ some t →
    k.readyList.count t = if k.status t = .ready then 1 else 0
  readyThread : ∀ t ∈ k.readyList, t ∈ k.allList
  waiting : ∀ r, ∀ t ∈ (k.sema r).waiters, t ∈ k.allList ∧ k.status t = .blocked ∧
    (k.sema r).waiters.count t = 1 ∧ ∀ r', t ∈ (k.sema r').waiters → r' = r
  idle : ∀ t, k.idleThread = some t → t ∉ k.readyList
  apart : ∀ t ∈ k.readyList, ∀ r, t ∉ (k.sema r).waiters

lemma Sound.agrees (h : k.Sound) : k.Agrees := by
  have hready : ∀ t ∈ k.readyList, k.status t = .ready := fun t ht => (h.thread t .ready ht).2.1
  refine ⟨⟨k.current, ⟨h.member, h.status_current⟩, fun t ht => ?_⟩, fun t ht hidle => ?_,
    fun t ht => (h.thread t .ready ht).1, fun r t ht => ?_, fun t hidle ht => ?_,
    fun t ht r hr => ?_⟩
  · exact (some.inj ((h.running t ht.1).mp ht.2)).symm
  · by_cases hst : k.status t = .ready
    · rw [if_pos hst]
      exact count_eq_one_of_mem h.readyNodup (h.ready t ht hst hidle)
    · rw [if_neg hst]
      exact count_eq_zero_of_not_mem fun hmem => hst (hready t hmem)
  · obtain ⟨hmem, hst, -⟩ := h.thread t (.sema r) ht
    refine ⟨hmem, hst, count_eq_one_of_mem (h.waitersNodup r) ht, fun r' ht' => ?_⟩
    cases h.once t (.sema r') (.sema r) ht' ht
    rfl
  · exact (h.thread t .ready ht).2.2 hidle
  · cases h.once t .ready (.sema r) ht hr

/-- The state after `thread_init` with semaphores that are all zero. -/
def mainOnly : RunQueue where
  status := fun _ => .running
  priority := fun _ => 31
  allList := [1]
  readyList := []
  current := 1
  idleThread := none
  sema := fun _ => ⟨0, []⟩
  waiter := fun _ => none
  created := []
  threadTicks := 0

lemma mainOnly_start : mainOnly.Start :=
  ⟨rfl, rfl, rfl, rfl, fun _ => rfl, fun _ => rfl, rfl⟩

/-- A new thread runs and blocks; the initial thread unblocks it. -/
def parking : List Op :=
  [.initThread 2 31, .startThread 2, .threadYield, .threadBlock, .threadUnblock 2]

lemma parking_clean : machine.Meets Clean mainOnly parking := by
  intro k₁ h₁
  cases h₁
  refine ⟨nofun, ?_⟩
  intro k₂ h₂
  cases h₂
  refine ⟨nofun, ?_⟩
  intro k₃ h₃
  cases h₃
  refine ⟨nofun, ?_⟩
  intro k₄ h₄
  cases h₄
  refine ⟨nofun, ?_⟩
  intro k₅ _
  refine ⟨?_, trivial⟩
  intro t ht
  cases ht
  refine ⟨by decide, by decide, by decide, ?_⟩
  intro p hp
  cases p with
  | ready => cases hp
  | sema r => cases hp
  | intq q => cases hp
  | created => cases hp

end RunQueue

namespace Kernel

variable {k : Kernel} {t : ThreadRef}

lemma toRunQueue_schedule (hready : ∀ t ∈ k.readyList, t ∈ k.allList)
    (hidle : k.idleThread ∈ k.allList) (hst : k.status k.current ≠ .running) :
    k.toRunQueue.schedule = .ok k.schedule.toRunQueue := by
  have hnext : k.nextThreadToRun.1 ∈ k.allList := by
    unfold nextThreadToRun
    cases hr : k.readyList with
    | nil => exact hidle
    | cons u us => exact hready u (by rw [hr]; exact mem_cons_self)
  have hsame : k.toRunQueue.nextThreadToRun = (some k.nextThreadToRun.1, k.nextThreadToRun.2) := by
    unfold RunQueue.nextThreadToRun nextThreadToRun toRunQueue
    cases k.readyList <;> rfl
  unfold RunQueue.schedule
  rw [hsame]
  exact (if_neg hst).trans (if_pos hnext)

/-- What `schedule` asserts of the threads it may switch to. -/
structure Live (k : Kernel) : Prop where
  running : k.status k.current = .running
  member : k.current ∈ k.allList
  ready : ∀ t ∈ k.readyList, t ∈ k.allList
  idle : k.idleThread ∈ k.allList

lemma Ok.live (ok : k.Ok) : k.Live :=
  ⟨ok.running, ok.member, fun t ht => (ok.ready t ht).2.1, ok.idle.1⟩

lemma Live.threadCurrent (h : k.Live) : k.toRunQueue.threadCurrent = .ok k.current :=
  (if_neg (not_not_intro h.member)).trans (if_neg (not_not_intro h.running))

lemma Live.threadBlock (h : k.Live) : k.toRunQueue.threadBlock = .ok k.threadBlock.toRunQueue := by
  have hst : (k.setStatus k.current .blocked).status k.current ≠ .running := by
    simp [setStatus]
  rw [RunQueue.threadBlock, h.threadCurrent]
  exact toRunQueue_schedule (k := k.setStatus k.current .blocked) h.ready h.idle hst

lemma Live.threadYield (h : k.Live) : k.toRunQueue.threadYield = .ok k.threadYield.toRunQueue := by
  have hyield : k.toRunQueue.threadYield =
      ((if k.toRunQueue.idleThread ≠ some k.current then k.toRunQueue.insertReady k.current
        else k.toRunQueue).setStatus k.current .ready).schedule := by
    rw [RunQueue.threadYield, h.threadCurrent]
    rfl
  rw [hyield, Kernel.threadYield]
  by_cases hcur : k.current = k.idleThread
  · have hst : (k.setStatus k.current .ready).status k.current ≠ .running := by
      simp [setStatus]
    have hidle : k.toRunQueue.idleThread = some k.current := congrArg some hcur.symm
    rw [if_neg (not_not_intro hidle), if_neg (not_not_intro hcur)]
    exact toRunQueue_schedule (k := k.setStatus k.current .ready) h.ready h.idle hst
  · have hst : ((k.insertReady k.current).setStatus k.current .ready).status k.current ≠
        .running := by
      simp [setStatus]
    have hmem : ∀ t ∈ (k.insertReady k.current).readyList, t ∈ k.allList := by
      intro t ht
      rcases mem_listInsertOrdered.mp ht with heq | hold
      · exact heq ▸ h.member
      · exact h.ready t hold
    have hidle : k.toRunQueue.idleThread ≠ some k.current := fun heq =>
      hcur (some.inj heq).symm
    rw [if_pos hidle, if_pos hcur]
    exact toRunQueue_schedule (k := (k.insertReady k.current).setStatus k.current .ready) hmem
      h.idle hst

lemma Live.semaDown (h : k.Live) (r : SemaRef) :
    k.toRunQueue.semaDown r = .ok (k.semaDown r).toRunQueue := by
  have hlive : Live { k with toSync := (k.toSync.semaDown k.current r).1 } :=
    ⟨h.running, h.member, h.ready, h.idle⟩
  have hout : (k.toRunQueue.sema r).down k.toRunQueue.elemLess k.toRunQueue.current =
      (k.sema r).down k.elemLess k.current := rfl
  rw [RunQueue.semaDown, hout, Kernel.semaDown]
  change (if ((k.sema r).down k.elemLess k.current).2 then _ else _) =
    Except.ok (toRunQueue (if ((k.sema r).down k.elemLess k.current).2 then _ else _))
  cases ((k.sema r).down k.elemLess k.current).2 with
  | true => rfl
  | false => exact hlive.threadBlock

lemma Ok.semaUp_toRunQueue (ok : k.Ok) (r : SemaRef) :
    k.toRunQueue.semaUp r = .ok (k.semaUp r).toRunQueue := by
  have hperm := Semaphore.up_waiters_perm k.elemLess (k.sema r)
  have hout : (k.toRunQueue.sema r).up k.toRunQueue.elemLess = (k.sema r).up k.elemLess := rfl
  have hsema : k.toSync.semaUp r =
      (k.toSync.setSema r ((k.sema r).up k.elemLess).1, ((k.sema r).up k.elemLess).2) := rfl
  rw [RunQueue.semaUp, hout, Kernel.semaUp, hsema]
  dsimp only
  cases hw : ((k.sema r).up k.elemLess).2 with
  | none => rfl
  | some w =>
    rw [hw] at hperm
    obtain ⟨hst, hmem, -⟩ := ok.waiting r w (hperm.subset mem_cons_self)
    exact threadUnblock_of_blocked hmem hst

/-- In every state that the kernel reaches no assertion fails, and its functions do to states and
queues what the functions above do. -/
lemma toRunQueue_of_reachable (h : machine.Reachable k) :
    k.toRunQueue.threadBlock = .ok k.threadBlock.toRunQueue ∧
      k.toRunQueue.threadYield = .ok k.threadYield.toRunQueue ∧
      (∀ t, k.Parked t → k.toRunQueue.threadUnblock t = .ok (k.threadUnblock t).toRunQueue) ∧
      ∀ r, k.toRunQueue.semaDown r = .ok (k.semaDown r).toRunQueue ∧
        k.toRunQueue.semaUp r = .ok (k.semaUp r).toRunQueue := by
  have ok : k.Ok :=
    h.invariant (I := Ok) (fun _ hs => Start.ok hs) fun _ _ _ ok hs => ok.step hs
  exact ⟨ok.live.threadBlock, ok.live.threadYield, fun t ht => threadUnblock_of_blocked ht.1 ht.2.1,
    fun r => ⟨ok.live.semaDown r, ok.semaUp_toRunQueue r⟩⟩

end Kernel

end Pintos.Threads
