import Mathlib.Data.Set.Card
import Pintos.Foundation.Transition
import Pintos.Threads.Synch

/-! # Mutual exclusion

One lock and its condition variables, used by any number of threads. The lock's holder and
its semaphore are written in separate steps, a woken thread tests the semaphore again, and
`cond_wait` gives the lock up and asks for it again in the middle of a call. Priorities
only order the waiters; donation and all other changes of them are steps of their own.
-/

namespace Pintos.Threads

open Foundation Lib Function List Option Semaphore

namespace LockExclusion

/-- Where a thread is. In `releasing` and `cleared`, `true` means inside `cond_wait`. -/
inductive Point where
  | outside
  /-- In `lock_acquire`, before it reads `holder`. -/
  | asking
  /-- In `lock_acquire`, having seen a holder. -/
  | donating
  /-- Before a test of the lock's semaphore. -/
  | testing
  /-- Blocked on the lock's semaphore. -/
  | waiting
  /-- The semaphore is down, `holder` is not yet written. -/
  | downed
  | holding
  /-- In `lock_release`, before `holder` is cleared. -/
  | releasing (inWait : Bool)
  /-- In `lock_release`, before `sema_up`. -/
  | cleared (inWait : Bool)
  /-- In `cond_wait`, before a test of the private semaphore. -/
  | condTesting
  | condWaiting
  /-- In `cond_signal`, with a waiter taken off the list. -/
  | signalling (w : ThreadRef)
  deriving DecidableEq

/-- The acquire is complete and the matching release is not. -/
@[simp] def Point.InSection : Point → Prop
  | .holding | .releasing _ | .cleared _ | .signalling _ => True
  | _ => False

/-- The thread has downed the lock's semaphore and not yet upped it. -/
@[simp] def Point.Down (p : Point) : Prop := p = .downed ∨ p.InSection

/-- `holder` is to be this thread. -/
@[simp] def Point.Holds : Point → Prop
  | .holding | .releasing _ | .signalling _ => True
  | _ => False

lemma Point.Holds.down {p : Point} (h : p.Holds) : p.Down := by
  refine .inr ?_
  cases p <;> first | exact h.elim | trivial

lemma Point.Down.not_queued {p : Point} (h : p.Down) : p ≠ .waiting ∧ p ≠ .condWaiting := by
  constructor
  · rintro rfl
    rcases h with h | h
    · cases h
    · exact h
  · rintro rfl
    rcases h with h | h
    · cases h
    · exact h

structure State where
  thread : ThreadRef → Thread
  holder : Option ThreadRef
  sema : Semaphore
  condWaiters : CondRef → List ThreadRef
  own : ThreadRef → Semaphore
  point : ThreadRef → Point

inductive Step where
  | acquire (t : ThreadRef)
  | readHolder (t : ThreadRef)
  | donate (t : ThreadRef)
  | test (t : ThreadRef)
  | setHolder (t : ThreadRef)
  | tryAcquire (t : ThreadRef)
  | release (t : ThreadRef)
  | clearHolder (t : ThreadRef)
  | up (t : ThreadRef)
  | wait (t : ThreadRef) (c : CondRef)
  | testOwn (t : ThreadRef)
  | signal (t : ThreadRef) (c : CondRef)
  | signalUp (t : ThreadRef)
  | setPriority (t : ThreadRef) (p : Int)

namespace State

def less (s : State) (a b : ThreadRef) : Bool :=
  comparePriority elemOfs (s.thread a) (s.thread b)

def goto (s : State) (t : ThreadRef) (p : Point) : State :=
  { s with point := Function.update s.point t p }

def test (s : State) (t : ThreadRef) : State :=
  let out := s.sema.down s.less t
  { s with sema := out.1 }.goto t (if out.2 then .downed else .waiting)

def tryAcquire (s : State) (t : ThreadRef) : State :=
  let out := s.sema.tryDown
  { s with sema := out.1 }.goto t (if out.2 then .downed else .outside)

/-- `sema_up` on the lock: the woken thread is to test again. -/
def up (s : State) (t : ThreadRef) (inWait : Bool) : State :=
  let out := s.sema.up s.less
  let s := { s with sema := out.1 }.goto t (if inWait then .condTesting else .outside)
  match out.2 with
  | none => s
  | some w => s.goto w .testing

def wait (s : State) (t : ThreadRef) (c : CondRef) : State :=
  { s with
    own := Function.update s.own t ⟨0, []⟩
    condWaiters := Function.update s.condWaiters c (s.condWaiters c ++ [t]) }.goto t
      (.releasing true)

def testOwn (s : State) (t : ThreadRef) : State :=
  let out := (s.own t).down s.less t
  { s with own := Function.update s.own t out.1 }.goto t
    (if out.2 then .asking else .condWaiting)

def signal (s : State) (t : ThreadRef) (c : CondRef) : Option State :=
  match condSort s.thread (fun w => (s.own w).waiters) (s.condWaiters c) with
  | none => none
  | some [] => some s
  | some (w :: ws) =>
      some ({ s with condWaiters := Function.update s.condWaiters c ws }.goto t (.signalling w))

/-- `sema_up` on the private semaphore of the signalled waiter. -/
def signalUp (s : State) (t w : ThreadRef) : State :=
  let out := (s.own w).up s.less
  let s := { s with own := Function.update s.own w out.1 }.goto t .holding
  match out.2 with
  | none => s
  | some u => s.goto u .condTesting

/-- The conditions on `holder` are assertions. A holder that is gone in `lock_acquire` is a null
pointer. -/
def step (s : State) : Step → Option State
  | .acquire t =>
      if s.point t = .outside ∧ s.holder ≠ some t then some (s.goto t .asking) else none
  | .readHolder t =>
      if s.point t = .asking then
        some (s.goto t (if s.holder = none then .testing else .donating))
      else none
  | .donate t =>
      if s.point t = .donating ∧ s.holder ≠ none then some (s.goto t .testing) else none
  | .test t => if s.point t = .testing then some (s.test t) else none
  | .setHolder t =>
      if s.point t = .downed then some ({ s with holder := some t }.goto t .holding) else none
  | .tryAcquire t =>
      if s.point t = .outside ∧ s.holder ≠ some t then some (s.tryAcquire t) else none
  | .release t =>
      if s.point t = .holding ∧ s.holder = some t then some (s.goto t (.releasing false))
      else none
  | .clearHolder t =>
      match s.point t with
      | .releasing b => some ({ s with holder := none }.goto t (.cleared b))
      | _ => none
  | .up t =>
      match s.point t with
      | .cleared b => some (s.up t b)
      | _ => none
  | .wait t c => if s.point t = .holding ∧ s.holder = some t then some (s.wait t c) else none
  | .testOwn t => if s.point t = .condTesting then some (s.testOwn t) else none
  | .signal t c =>
      if s.point t = .holding ∧ s.holder = some t then s.signal t c else none
  | .signalUp t =>
      match s.point t with
      | .signalling w => some (s.signalUp t w)
      | _ => none
  | .setPriority t p =>
      some { s with thread := Function.update s.thread t { s.thread t with priority := p } }

end State

/-- After `lock_init`: nobody has called anything. -/
structure Start (s : State) : Prop where
  holder : s.holder = none
  sema : s.sema = ⟨1, []⟩
  conds : ∀ c, s.condWaiters c = []
  own : ∀ t, (s.own t).waiters = []
  outside : ∀ t, s.point t = .outside

def machine : Machine State Step := ⟨Start, State.step⟩

/-! ## The invariant -/

/-- `value` and `one`: exactly one of semaphore and threads has the unit. -/
structure Ok (s : State) : Prop where
  unit : s.sema.value = 1 ∧ (∀ t, ¬ (s.point t).Down) ∨
    s.sema.value = 0 ∧ ∃ t, ∀ u, (s.point u).Down ↔ u = t
  holder : ∀ t, s.holder = some t ↔ (s.point t).Holds
  waiting : ∀ t ∈ s.sema.waiters, s.point t = .waiting
  nodup : s.sema.waiters.Nodup
  ownWaiting : ∀ t, ∀ u ∈ (s.own t).waiters, u = t ∧ s.point u = .condWaiting
  ownNodup : ∀ t, (s.own t).waiters.Nodup

lemma Start.ok {s : State} (h : Start s) : Ok s where
  unit := .inl ⟨by rw [h.sema], fun t => by rw [h.outside t]; simp [Point.Down, Point.InSection]⟩
  holder t := by
    rw [h.holder, h.outside t]
    simp [Point.Holds]
  waiting t ht := by
    simp [h.sema] at ht
  nodup := by
    rw [h.sema]
    exact nodup_nil
  ownWaiting t u hu := by
    simp [h.own t] at hu
  ownNodup t := by
    rw [h.own t]
    exact nodup_nil

namespace Ok

variable {s s' : State} {t : ThreadRef} {p : Point}

section

variable (ok : Ok s)
include ok

lemma not_waiting (h : s.point t ≠ .waiting) : t ∉ s.sema.waiters :=
  fun ht => h (ok.waiting t ht)

lemma not_own (h : s.point t ≠ .condWaiting) (u : ThreadRef) : t ∉ (s.own u).waiters :=
  fun ht => h (ok.ownWaiting u t ht).2

lemma unique (h : (s.point t).Down) : s.sema.value = 0 ∧ ∀ u, (s.point u).Down ↔ u = t := by
  rcases ok.unit with ⟨-, hno⟩ | ⟨hv, v, hone⟩
  · exact absurd h (hno t)
  · obtain rfl := (hone t).mp h
    exact ⟨hv, hone⟩

lemma not_holds (h : (s.point t).Down) {u : ThreadRef} (hu : u ≠ t) : ¬ (s.point u).Holds :=
  fun hh => hu (((ok.unique h).2 u).mp hh.down)

lemma waiting_goto (hout : t ∉ s.sema.waiters) (p : Point) {u : ThreadRef}
    (hu : u ∈ s.sema.waiters) : (s.goto t p).point u = .waiting := by
  have hne : u ≠ t := fun h => hout (h ▸ hu)
  rw [← ok.waiting u hu]
  exact update_of_ne hne _ _

lemma ownWaiting_goto (hown : ∀ v, t ∉ (s.own v).waiters) (p : Point)
    {v u : ThreadRef} (hu : u ∈ (s.own v).waiters) :
    u = v ∧ (s.goto t p).point u = .condWaiting := by
  have hne : u ≠ t := fun h => hown v (h ▸ hu)
  obtain ⟨hself, hpoint⟩ := ok.ownWaiting v u hu
  refine ⟨hself, ?_⟩
  rw [← hpoint]
  exact update_of_ne hne _ _

/-- A thread that is in no queue moves on without the unit changing hands. -/
lemma goto (hdown : (s.point t).Down ↔ p.Down)
    (hholds : (s.point t).Holds ↔ p.Holds) (hout : t ∉ s.sema.waiters)
    (hown : ∀ u, t ∉ (s.own u).waiters) : Ok (s.goto t p) := by
  have hpoint : ∀ u, u ≠ t → (s.goto t p).point u = s.point u :=
    fun u hu => update_of_ne hu _ _
  have hself : (s.goto t p).point t = p := update_self _ _ _
  have hD : ∀ u, ((s.goto t p).point u).Down ↔ (s.point u).Down := by
    intro u
    by_cases hu : u = t
    · rw [hu, hself]
      exact hdown.symm
    · rw [hpoint u hu]
  refine ⟨?_, ?_, ?_, ok.nodup, ?_, ok.ownNodup⟩
  · simp only [hD]
    exact ok.unit
  · intro u
    by_cases hu : u = t
    · rw [hu, hself, ← hholds]
      exact ok.holder t
    · rw [hpoint u hu]
      exact ok.holder u
  · exact fun u hu => ok.waiting_goto hout p hu
  · exact fun v u hu => ok.ownWaiting_goto hown p hu

lemma move {q : Point} (ht : s.point t = q) (hq : q ≠ .waiting ∧ q ≠ .condWaiting)
    (hdown : q.Down ↔ p.Down) (hholds : q.Holds ↔ p.Holds) : Ok (s.goto t p) := by
  subst ht
  exact ok.goto hdown hholds (ok.not_waiting hq.1) (ok.not_own hq.2)

lemma takeUnit (hv : s.sema.value ≠ 0) (hout : t ∉ s.sema.waiters)
    (hown : ∀ u, t ∉ (s.own u).waiters) :
    Ok ({ s with sema := { s.sema with value := s.sema.value - 1 } }.goto t .downed) := by
  have hfree : s.sema.value = 1 ∧ ∀ t, ¬ (s.point t).Down := by
    rcases ok.unit with h | ⟨h, -⟩
    · exact h
    · exact absurd h hv
  have hpoint : ∀ u, u ≠ t → update s.point t .downed u = s.point u :=
    fun u hu => update_of_ne hu _ _
  refine ⟨.inr ⟨?_, t, ?_⟩, ?_, ?_, ok.nodup, ?_, ok.ownNodup⟩
  · show s.sema.value - 1 = 0
    omega
  · intro u
    show (update s.point t .downed u).Down ↔ u = t
    by_cases hu : u = t
    · rw [hu, update_self]
      exact ⟨fun _ => rfl, fun _ => .inl rfl⟩
    · rw [hpoint u hu]
      exact ⟨fun h => absurd h (hfree.2 u), fun h => absurd h hu⟩
  · intro u
    show s.holder = some u ↔ (update s.point t .downed u).Holds
    by_cases hu : u = t
    · rw [hu, update_self, ok.holder t]
      exact ⟨fun h => absurd h.down (hfree.2 t), fun h => h.elim⟩
    · rw [hpoint u hu]
      exact ok.holder u
  · exact fun u hu => ok.waiting_goto hout .downed hu
  · exact fun v u hu => ok.ownWaiting_goto hown .downed hu

lemma test (ht : s.point t = .testing) : Ok (s.test t) := by
  have hout : t ∉ s.sema.waiters := ok.not_waiting (by rw [ht]; simp)
  have hown := ok.not_own (t := t) (by rw [ht]; simp)
  unfold State.test
  by_cases hv : s.sema.value = 0
  · rw [down_of_zero hv]
    have hok := ok.goto (p := .waiting) (by rw [ht]; simp [Point.Down, Point.InSection])
      (by rw [ht]; simp [Point.Holds]) hout hown
    refine ⟨hok.unit, hok.holder, ?_, ?_, hok.ownWaiting, hok.ownNodup⟩
    · intro u hu
      rcases mem_listInsertOrdered.mp hu with rfl | hu
      · exact update_self _ _ _
      · exact hok.waiting u hu
    · exact (listInsertOrdered_perm _ _ _).nodup_iff.mpr (nodup_cons.mpr ⟨hout, ok.nodup⟩)
  · rw [down_of_pos hv]
    exact ok.takeUnit hv hout hown

lemma tryAcquire (ht : s.point t = .outside) : Ok (s.tryAcquire t) := by
  have hout : t ∉ s.sema.waiters := ok.not_waiting (by rw [ht]; simp)
  have hown := ok.not_own (t := t) (by rw [ht]; simp)
  unfold State.tryAcquire tryDown
  by_cases hv : s.sema.value = 0
  · rw [if_neg (by omega)]
    exact ok.goto (by rw [ht]; simp) (by rw [ht]; simp) hout hown
  · rw [if_pos (by omega)]
    exact ok.takeUnit hv hout hown

lemma gotoHolder {h : Option ThreadRef} (ht : (s.point t).Down) (hp : p.Down)
    (hh : ∀ u, h = some u ↔ u = t ∧ p.Holds) : Ok ({ s with holder := h }.goto t p) := by
  have hpoint : ∀ u, u ≠ t → update s.point t p u = s.point u :=
    fun u hu => update_of_ne hu _ _
  obtain ⟨hv, hone⟩ := ok.unique ht
  refine ⟨.inr ⟨hv, t, ?_⟩, ?_, ?_, ok.nodup, ?_, ok.ownNodup⟩
  · intro u
    show (update s.point t p u).Down ↔ u = t
    by_cases hu : u = t
    · rw [hu, update_self]
      exact ⟨fun _ => rfl, fun _ => hp⟩
    · rw [hpoint u hu]
      exact hone u
  · intro u
    show h = some u ↔ (update s.point t p u).Holds
    rw [hh]
    by_cases hu : u = t
    · rw [hu, update_self]
      exact ⟨fun h => h.2, fun h => ⟨rfl, h⟩⟩
    · rw [hpoint u hu]
      exact ⟨fun h => absurd h.1 hu, fun h => absurd h (ok.not_holds ht hu)⟩
  · exact fun u hu => ok.waiting_goto (ok.not_waiting ht.not_queued.1) p hu
  · exact fun v u hu => ok.ownWaiting_goto (ok.not_own ht.not_queued.2) p hu

lemma giveUnit {sema : Semaphore} (ht : (s.point t).Down)
    (hnot : ¬ (s.point t).Holds) (hp : ¬ p.Down) (hv : sema.value = 1)
    (hsub : ∀ u ∈ sema.waiters, u ∈ s.sema.waiters) (hnodup : sema.waiters.Nodup) :
    Ok ({ s with sema := sema }.goto t p) := by
  have hpoint : ∀ u, u ≠ t → update s.point t p u = s.point u :=
    fun u hu => update_of_ne hu _ _
  obtain ⟨-, hone⟩ := ok.unique ht
  refine ⟨.inl ⟨hv, ?_⟩, ?_, ?_, hnodup, ?_, ok.ownNodup⟩
  · intro u
    show ¬ (update s.point t p u).Down
    by_cases hu : u = t
    · rwa [hu, update_self]
    · rw [hpoint u hu]
      exact fun h => hu ((hone u).mp h)
  · intro u
    show s.holder = some u ↔ (update s.point t p u).Holds
    rw [ok.holder u]
    by_cases hu : u = t
    · rw [hu, update_self]
      exact ⟨fun h => absurd h hnot, fun h => absurd h.down hp⟩
    · rw [hpoint u hu]
  · exact fun u hu => ok.waiting_goto (ok.not_waiting ht.not_queued.1) p (hsub u hu)
  · exact fun v u hu => ok.ownWaiting_goto (ok.not_own ht.not_queued.2) p hu

lemma up {b : Bool} (ht : s.point t = .cleared b) : Ok (s.up t b) := by
  have hdown : (s.point t).Down := by
    rw [ht]
    exact .inr trivial
  have hvalue := up_value s.less s.sema
  have hperm := up_waiters_perm s.less s.sema
  rw [(ok.unique hdown).1] at hvalue
  unfold State.up
  generalize s.sema.up s.less = out at hvalue hperm ⊢
  obtain ⟨sema, woken⟩ := out
  dsimp only at hvalue hperm ⊢
  have hnodup := nodup_append.mp (hperm.nodup_iff.mpr ok.nodup)
  have hok : Ok ({ s with sema := sema }.goto t (if b then .condTesting else .outside)) := by
    refine ok.giveUnit hdown ?_ ?_ hvalue
      (fun u hu => hperm.subset (mem_append_right _ hu)) hnodup.2.1
    · rw [ht]
      exact id
    · cases b <;> simp [Point.Down, Point.InSection]
  cases woken with
  | none => exact hok
  | some w =>
    have hw : s.point w = .waiting := ok.waiting w (hperm.subset (by simp))
    have hwt : w ≠ t := by
      rintro rfl
      simp [ht] at hw
    have hw' : update s.point t (if b then .condTesting else .outside) w = .waiting := by
      rw [update_of_ne hwt, hw]
    refine hok.goto ?_ ?_ ?_ ?_
    · show (update s.point t _ w).Down ↔ _
      rw [hw']
      simp [Point.Down, Point.InSection]
    · show (update s.point t _ w).Holds ↔ _
      rw [hw']
      simp [Point.Holds]
    · exact fun h => hnodup.2.2 w (by simp) w h rfl
    · exact ok.not_own (by rw [hw]; simp)

lemma setOwn (w : ThreadRef) (sema : Semaphore)
    (hsub : ∀ u ∈ sema.waiters, u ∈ (s.own w).waiters) (hnodup : sema.waiters.Nodup) :
    Ok { s with own := update s.own w sema } := by
  refine ⟨ok.unit, ok.holder, ok.waiting, ok.nodup, ?_, ?_⟩
  · intro v u hu
    dsimp only at hu
    by_cases hv : v = w
    · subst hv
      rw [update_self] at hu
      exact ok.ownWaiting v u (hsub u hu)
    · rw [update_of_ne hv] at hu
      exact ok.ownWaiting v u hu
  · intro v
    dsimp only
    by_cases hv : v = w
    · rwa [hv, update_self]
    · rw [update_of_ne hv]
      exact ok.ownNodup v

lemma setConds (conds : CondRef → List ThreadRef) : Ok { s with condWaiters := conds } :=
  ⟨ok.unit, ok.holder, ok.waiting, ok.nodup, ok.ownWaiting, ok.ownNodup⟩

lemma wait (ht : s.point t = .holding) (c : CondRef) : Ok (s.wait t c) := by
  have hok := (ok.setOwn t ⟨0, []⟩ (by simp) nodup_nil).setConds
    (update s.condWaiters c (s.condWaiters c ++ [t]))
  exact hok.move (q := .holding) ht (by simp) (by simp) (by simp)

lemma testOwn (ht : s.point t = .condTesting) : Ok (s.testOwn t) := by
  unfold State.testOwn
  by_cases hv : (s.own t).value = 0
  · rw [down_of_zero hv]
    have hown := ok.not_own (t := t) (by rw [ht]; simp)
    have hok := ok.move (p := .condWaiting) ht (by simp) (by simp) (by simp)
    refine ⟨hok.unit, hok.holder, hok.waiting, hok.nodup, ?_, ?_⟩
    · intro v u hu
      dsimp only [State.goto] at hu
      by_cases hvt : v = t
      · subst hvt
        rw [update_self] at hu
        rcases mem_listInsertOrdered.mp hu with rfl | hu
        · exact ⟨rfl, update_self _ _ _⟩
        · exact hok.ownWaiting v u hu
      · rw [update_of_ne hvt] at hu
        exact hok.ownWaiting v u hu
    · intro v
      dsimp only [State.goto]
      by_cases hvt : v = t
      · subst hvt
        rw [update_self]
        exact (listInsertOrdered_perm _ _ _).nodup_iff.mpr (nodup_cons.mpr ⟨hown v, ok.ownNodup v⟩)
      · rw [update_of_ne hvt]
        exact ok.ownNodup v
  · rw [down_of_pos hv]
    exact (ok.setOwn t ⟨(s.own t).value - 1, (s.own t).waiters⟩ (fun _ hu => hu)
      (ok.ownNodup t)).move (q := .condTesting) ht (by simp) (by simp) (by simp)

lemma signal (ht : s.point t = .holding) {c : CondRef} (hs : s.signal t c = some s') : Ok s' := by
  unfold State.signal at hs
  split at hs
  · cases hs
  · cases hs
    exact ok
  · cases hs
    exact (ok.setConds _).move (q := .holding) ht (by simp) (by simp) (by simp)

lemma signalUp {w : ThreadRef} (ht : s.point t = .signalling w) : Ok (s.signalUp t w) := by
  have hperm := up_waiters_perm s.less (s.own w)
  unfold State.signalUp
  generalize (s.own w).up s.less = out at hperm ⊢
  obtain ⟨sema, woken⟩ := out
  dsimp only at hperm ⊢
  have hnodup := nodup_append.mp (hperm.nodup_iff.mpr (ok.ownNodup w))
  have hok := (ok.setOwn w sema (fun u hu => hperm.subset (mem_append_right _ hu))
    hnodup.2.1).move (q := .signalling w) (p := .holding) ht (by simp) (by simp) (by simp)
  cases woken with
  | none => exact hok
  | some u =>
    obtain ⟨rfl, hu⟩ := ok.ownWaiting w u (hperm.subset (by simp))
    have hut : u ≠ t := by
      rintro rfl
      simp [ht] at hu
    have hu' : update s.point t .holding u = .condWaiting := by
      rw [update_of_ne hut, hu]
    refine hok.goto ?_ ?_ ?_ ?_
    · show (update s.point t .holding u).Down ↔ _
      rw [hu']
      simp
    · show (update s.point t .holding u).Holds ↔ _
      rw [hu']
      simp
    · exact ok.not_waiting (by rw [hu]; simp)
    · intro v hv
      dsimp only [State.goto] at hv
      by_cases hvu : v = u
      · rw [hvu, update_self] at hv
        exact hnodup.2.2 u (by simp) u hv rfl
      · rw [update_of_ne hvu] at hv
        exact hvu (ok.ownWaiting v u hv).1.symm

lemma step {st : Step} (hs : s.step st = some s') : Ok s' := by
  cases st <;> simp [State.step] at hs
  case acquire t | donate t | release t =>
    rcases hs with ⟨⟨ht, -⟩, rfl⟩
    exact ok.move ht (by simp) (by simp) (by simp)
  case readHolder t =>
    rcases hs with ⟨ht, rfl⟩
    split
    · exact ok.move ht (by simp) (by simp) (by simp)
    · exact ok.move ht (by simp) (by simp) (by simp)
  case test t =>
    rcases hs with ⟨ht, rfl⟩
    exact ok.test ht
  case setHolder t =>
    rcases hs with ⟨ht, rfl⟩
    refine ok.gotoHolder (by rw [ht]; exact .inl rfl) (.inr trivial) fun u => ?_
    simp [Point.Holds, eq_comm]
  case tryAcquire t =>
    rcases hs with ⟨⟨ht, -⟩, rfl⟩
    exact ok.tryAcquire ht
  case clearHolder t =>
    split at hs
    next b ht =>
      cases hs
      refine ok.gotoHolder (by rw [ht]; exact .inr trivial) (.inr trivial) fun u => ?_
      simp [Point.Holds]
    next => cases hs
  case up t =>
    split at hs
    next b ht =>
      cases hs
      exact ok.up ht
    next => cases hs
  case wait t c =>
    rcases hs with ⟨⟨ht, -⟩, rfl⟩
    exact ok.wait ht c
  case testOwn t =>
    rcases hs with ⟨ht, rfl⟩
    exact ok.testOwn ht
  case signal t c => exact ok.signal hs.1.1 hs.2
  case signalUp t =>
    split at hs
    next w ht =>
      cases hs
      exact ok.signalUp ht
    next => cases hs
  case setPriority t p =>
    subst hs
    exact ⟨ok.unit, ok.holder, ok.waiting, ok.nodup, ok.ownWaiting, ok.ownNodup⟩

end

end Ok

/-- At most one thread is between acquire and release, `holder` is no other, and the semaphore and
the threads that are down add up to 1. -/
theorem reachable_exclusion {s : State} (h : machine.Reachable s) :
    (∀ t u, (s.point t).InSection → (s.point u).InSection → t = u) ∧
      (∀ t, s.holder = some t → (s.point t).InSection) ∧
      s.sema.value + {t | (s.point t).Down}.ncard = 1 := by
  have ok : Ok s := h.invariant (fun _ => Start.ok) fun _ _ _ ok hs => ok.step hs
  refine ⟨?_, ?_, ?_⟩
  · intro t u ht hu
    exact (((ok.unique (.inr hu)).2 t).mp (.inr ht))
  · intro t ht
    have hholds := (ok.holder t).mp ht
    cases hp : s.point t <;> rw [hp] at hholds <;> first | exact hholds.elim | trivial
  · rcases ok.unit with ⟨hv, hno⟩ | ⟨hv, t, hone⟩
    · have hset : {t | (s.point t).Down} = ∅ := Set.eq_empty_of_forall_notMem hno
      rw [hset, Set.ncard_empty, hv]
    · have hset : {u | (s.point u).Down} = {t} := Set.ext hone
      rw [hset, Set.ncard_singleton, hv]

def unused : State where
  thread := fun _ => ⟨[], 31, 31, [], none⟩
  holder := none
  sema := ⟨1, []⟩
  condWaiters := fun _ => []
  own := fun _ => ⟨0, []⟩
  point := fun _ => .outside

lemma unused_start : machine.start unused :=
  ⟨rfl, rfl, fun _ => rfl, fun _ => rfl, fun _ => rfl⟩

/-- Thread 1 holds the lock while thread 2 is blocked on it. -/
theorem reachable_exclusion_unused :
    ∃ s, machine.run unused [.acquire 1, .readHolder 1, .test 1, .acquire 2, .readHolder 2,
        .test 2, .setHolder 1] = some s ∧ machine.Reachable s ∧ s.holder = some 1 ∧
      s.point 2 = .waiting ∧ s.sema.value + {t | (s.point t).Down}.ncard = 1 := by
  obtain ⟨s, hs, hh, hp⟩ : ∃ s, machine.run unused [.acquire 1, .readHolder 1, .test 1,
      .acquire 2, .readHolder 2, .test 2, .setHolder 1] = some s ∧ s.holder = some 1 ∧
      s.point 2 = .waiting := ⟨_, rfl, rfl, rfl⟩
  have hreach := Machine.reachable_run (.start unused_start) hs
  exact ⟨s, hs, hreach, hh, hp, (reachable_exclusion hreach).2.2⟩

end LockExclusion

end Pintos.Threads
