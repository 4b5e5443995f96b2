import Pintos.Threads.RunQueueFrame
import Pintos.Userprog.Process

/-! # The end of a thread (threads/thread.c, userprog/process.c)

`thread_exit` calls `process_exit` and then takes the thread off `all_list`, marks it dying
and schedules another thread, whose `thread_schedule_tail` frees the page. `process_exit`
tells the parent, destroys the page directory and ends in `thread_block`. The threads of
the run queue go through these steps while the others go on with what they do.
-/

namespace Pintos.Userprog

open Foundation Lib Threads Function List Option RunQueue

/-- The steps of `process_exit`, then what is left of `thread_exit`. -/
inductive ExitStage where
  | print
  /-- Files are closed and memory is freed. -/
  | closing
  | notify
  | test (a : Addr) (parent : ThreadRef)
  | up (parent : ThreadRef)
  | down (a : Addr)
  /-- The page directory is destroyed. -/
  | teardown
  | block
  | remove
  | gone
  deriving DecidableEq

/-- The stages of `process_exit` before its `thread_block` returns. -/
def ExitStage.early : ExitStage → Bool
  | .remove | .gone => false
  | _ => true

/-- The fields of threads and child records that `process_exit` reads. -/
structure ProcessFields where
  executable : ThreadRef → Bool
  parent : ThreadRef → Tid
  childProc : ThreadRef → Option Addr
  wait : Addr → Bool
  exit : Addr → Bool

def semaWait (t : ThreadRef) : SemaRef := .other (2 * t)

def semaZombi (a : Addr) : SemaRef := .other (2 * a.byte + 1)

/-- `page t`: the page of `t` is in use; `stage t`: how far `t` is in `thread_exit`. -/
structure Exits extends RunQueue where
  tid : ThreadRef → Tid
  nextTid : Tid
  initialThread : ThreadRef
  page : ThreadRef → Bool
  stage : ThreadRef → Option ExitStage
  process : ProcessFields

namespace Exits

def threadExist (s : Exits) (tid : Tid) : Bool := s.allList.any fun t => s.tid t = tid

def getThread (s : Exits) (tid : Tid) : Option ThreadRef := s.allList.find? fun t => s.tid t = tid

def setStage (s : Exits) (st : ExitStage) : Exits :=
  { s with stage := Function.update s.stage s.current (some st) }

def threadScheduleTail (s : Exits) (prev : ThreadRef) : Exits :=
  if s.status prev = .dying ∧ prev ≠ s.initialThread then
    { s with page := Function.update s.page prev false }
  else s

/-- An operation of the running thread; if it fails there is no next state. -/
def after (s : Exits) : Except Threads.Panic RunQueue → Option Exits
  | .ok k => some (threadScheduleTail { s with toRunQueue := k } s.current)
  | .error _ => none

/-- A new thread gets a page and a number. -/
def prepare (s : Exits) : RunQueue.Op → Exits
  | .initThread t _ =>
      { s with
        tid := Function.update s.tid t s.nextTid
        nextTid := s.nextTid + 1
        page := Function.update s.page t true
        stage := Function.update s.stage t none }
  | _ => s

/-- What the running thread may do at its stage. Closing files takes locks; interrupts come at any
time. -/
def Permits (s : Exits) : RunQueue.Op → Prop
  | .threadUnblock _ | .threadExit => False
  | .initThread t _ => s.stage s.current = none ∧ s.page t = false
  | .startThread _ | .threadBlock | .semaInit _ _ | .idle => s.stage s.current = none
  | .semaDown _ | .intqWait _ =>
      s.stage s.current = none ∨ s.stage s.current = some .closing ∨
        s.stage s.current = some .teardown
  | .threadYield | .threadTick | .semaUp _ | .intqSignal _ | .setPriority _ _ => True

instance (s : Exits) : ∀ op : Op, Decidable (s.Permits op)
  | .threadUnblock _ | .threadExit => isFalse id
  | .initThread _ _ => inferInstanceAs (Decidable (_ ∧ _))
  | .startThread _ | .threadBlock | .semaInit _ _ | .idle => inferInstanceAs (Decidable (_ = _))
  | .semaDown _ | .intqWait _ => inferInstanceAs (Decidable (_ ∨ _ ∨ _))
  | .threadYield | .threadTick | .semaUp _ | .intqSignal _ | .setPriority _ _ => isTrue trivial

/-- The test on `cur->parent`, `executable` and `child_proc`, and the exit flag. -/
def notify (s : Exits) : Option Exits :=
  match s.process.childProc s.current with
  | none => some (s.setStage .teardown)
  | some a =>
      if s.threadExist (s.process.parent s.current) ∧ s.process.executable s.current then
        match s.getThread (s.process.parent s.current) with
        | none => none
        | some parent =>
            some { s.setStage (.test a parent) with
              process := { s.process with exit := Function.update s.process.exit a true } }
      else some (s.setStage .teardown)

/-- The next step of the running thread. `sema_down` tests again when the thread wakes. -/
def exitNext (s : Exits) : ExitStage → Option Exits
  | .print =>
      if s.process.executable s.current ∧ s.process.childProc s.current = none then none
      else some (s.setStage .closing)
  | .closing => some (s.setStage .notify)
  | .notify => s.notify
  | .test a parent => some (s.setStage (if s.process.wait a then .up parent else .down a))
  | .up parent => (s.setStage .teardown).after (s.semaUp (semaWait parent))
  | .down a =>
      (s.setStage (if (s.sema (semaZombi a)).value = 0 then .down a else .teardown)).after
        (s.semaDown (semaZombi a))
  | .teardown => some (s.setStage .block)
  | .block => (s.setStage .remove).after s.threadBlock
  | .remove => (s.setStage .gone).after s.toRunQueue.threadExit
  | .gone => none

/-- `fields` is any write to fields of threads and records. `unblock` on a thread that
`process_exit` has blocked is in no source. -/
inductive Event where
  | op (op : RunQueue.Op)
  | exit
  | next
  | fields (process : ProcessFields)
  | unblock (t : ThreadRef)

def step (s : Exits) : Event → Option Exits
  | .op op =>
      if s.Permits op ∧ s.toRunQueue.Enabled op then (s.prepare op).after (op.run s.toRunQueue)
      else none
  | .exit =>
      if s.stage s.current = none ∧ s.idleThread ≠ some s.current then some (s.setStage .print)
      else none
  | .next =>
      match s.stage s.current with
      | none => none
      | some st => s.exitNext st
  | .fields process => some { s with process := process }
  | .unblock t =>
      if s.stage t = some .remove ∧ s.status t = .blocked then s.after (s.threadUnblock t)
      else none

structure Start (s : Exits) : Prop where
  queue : s.toRunQueue.Start
  tid : s.tid s.current < s.nextTid
  page : s.page s.current = true
  stage : ∀ t, s.stage t = none

def machine : Machine Exits Event := ⟨Start, step⟩

variable {s s' : Exits} {t : ThreadRef} {st : ExitStage} {k : RunQueue} {blocks : Bool}

/-- A thread on `all_list` is alive, and one that `process_exit` blocked is in no place. -/
structure Ok (s : Exits) : Prop where
  sound : s.toRunQueue.Sound
  nodup : s.allList.Nodup
  alive : ∀ t ∈ s.allList, s.status t ≠ .dying ∧ s.page t = true ∧ s.tid t < s.nextTid
  tids : ∀ t ∈ s.allList, ∀ u ∈ s.allList, s.tid t = s.tid u → t = u
  exiting : ∀ t st, s.stage t = some st → st ≠ .gone → t ∈ s.allList ∧ s.idleThread ≠ some t
  parked : ∀ t, s.stage t = some .remove → s.status t = .blocked → ∀ p, ¬ s.At t p

lemma Ok.aside (h : s.Ok) (hst : s.stage t = some .remove) (hb : s.status t = .blocked) :
    s.Aside t := by
  refine ⟨fun hcur => ?_, (h.exiting t _ hst nofun).2, h.parked t hst hb⟩
  have hrun := h.sound.status_current
  simp [hcur, hb] at hrun

/-! ## What a step can do -/

/-- The running thread may go to a stage up to its `thread_block`. -/
def StageMove (s : Exits) (stage : ThreadRef → Option ExitStage) : Prop :=
  stage = s.stage ∨ s.idleThread ≠ some s.current ∧ s.stage s.current ≠ some .remove ∧
    ∃ st, st.early = true ∧ stage = Function.update s.stage s.current (some st)

/-- Most steps only move threads. The others make one, name the idle thread, or are at the end of
`thread_exit`. -/
inductive Effect (s : Exits) : Event → Exits → Prop where
  | quiet {e : Event} {k : RunQueue} {stage : ThreadRef → Option ExitStage}
      {process : ProcessFields} {blocks : Bool} (mild : RunQueue.Mild blocks s.toRunQueue k)
      (sound : k.Sound) (move : s.StageMove stage)
      (blocks : blocks = true → s.stage s.current ≠ some .remove) :
      Effect s e { s with toRunQueue := k, stage := stage, process := process }
  | newThread {t : ThreadRef} {priority : Int} (new : t ∉ s.allList) :
      Effect s (.op (.initThread t priority))
        { s.prepare (.initThread t priority) with toRunQueue := s.initThread t priority }
  | idle (stage : s.stage s.current = none)
      (sound : RunQueue.Sound { s.toRunQueue with idleThread := some s.current }) :
      Effect s (.op .idle)
        { s with toRunQueue := { s.toRunQueue with idleThread := some s.current } }
  | block {k : RunQueue} (stage : s.stage s.current = some .block)
      (block : s.threadBlock = .ok k) :
      Effect s .next { s.setStage .remove with toRunQueue := k }
  | remove {k : RunQueue} (stage : s.stage s.current = some .remove)
      (exit : s.toRunQueue.threadExit = .ok k) :
      Effect s .next (threadScheduleTail { s.setStage .gone with toRunQueue := k } s.current)
  | unblock {t : ThreadRef} (stage : s.stage t = some .remove)
      (blocked : s.status t = .blocked) :
      Effect s (.unblock t) { s with toRunQueue := (s.insertReady t).setStatus t .ready }

lemma after_some {out : Except Threads.Panic RunQueue} (h : s.after out = some s') :
    ∃ k, out = .ok k ∧ s' = threadScheduleTail { s with toRunQueue := k } s.current := by
  cases out with
  | error e => cases h
  | ok k => exact ⟨k, rfl, (some.inj h).symm⟩

lemma threadScheduleTail_of_ne {prev : ThreadRef} (h : s.status prev ≠ .dying) :
    s.threadScheduleTail prev = s :=
  if_neg fun hd => h hd.1

lemma Ok.not_dying (h : s.Ok) (hm : Mild blocks s.toRunQueue k) : k.status s.current ≠ .dying := by
  intro hd
  have hrun := h.sound.status_current
  simp [hm.dying _ hd] at hrun

variable {op : Op} {e : Event}

lemma Ok.run_sound (h : s.Ok) (hop : s.toRunQueue.Enabled op) (hun : ∀ t, op ≠ .threadUnblock t)
    (hrun : op.run s.toRunQueue = .ok k) : k.Sound := by
  have hfine := h.sound.run hop fun t ht => absurd ht (hun t)
  rwa [hrun] at hfine

lemma Ok.run_mild (h : s.Ok) (hop : s.toRunQueue.Enabled op) (hmild : op.mild = true)
    (hrun : op.run s.toRunQueue = .ok k) : Mild op.mayBlock s.toRunQueue k ∧ k.Sound := by
  refine ⟨Op.run_mild hop hmild hrun, h.run_sound hop ?_ hrun⟩
  rintro t rfl
  cases hmild

lemma prepare_of_mild (h : op.mild = true) : s.prepare op = s := by
  cases op with
  | initThread t priority => cases h
  | _ => rfl

/-- A thread at its last stage makes no call that could block it. -/
lemma Permits.stage_ne (h : s.Permits op) (hblock : op.mayBlock = true) :
    s.stage s.current ≠ some .remove := by
  intro hst
  cases op with
  | threadBlock => cases hst.symm.trans h
  | semaDown r => rcases h with h | h | h <;> cases hst.symm.trans h
  | intqWait q => rcases h with h | h | h <;> cases hst.symm.trans h
  | _ => cases hblock

lemma Ok.effect_op (h : s.Ok) (hpermits : s.Permits op) (henabled : s.toRunQueue.Enabled op)
    (hstep : (s.prepare op).after (op.run s.toRunQueue) = some s') : Effect s (.op op) s' := by
  obtain ⟨k, hrun, rfl⟩ := after_some hstep
  by_cases hmild : op.mild = true
  · obtain ⟨hm, hk⟩ := h.run_mild henabled hmild hrun
    rw [prepare_of_mild hmild, threadScheduleTail_of_ne (h.not_dying hm)]
    exact .quiet hm hk (.inl rfl) hpermits.stage_ne
  · cases op with
    | initThread t priority =>
      cases hrun
      have hne : s.current ≠ t := fun he => henabled.2.1 (he ▸ h.sound.member)
      have hst : (s.initThread t priority).status s.current = s.status s.current :=
        update_of_ne hne _ _
      rw [threadScheduleTail_of_ne]
      · exact .newThread henabled.2.1
      · intro hd
        cases (hst.trans h.sound.status_current).symm.trans hd
    | idle =>
      have hk := h.run_sound henabled nofun hrun
      have hidle : s.idle = .ok { s.toRunQueue with idleThread := some s.current } := by
        rw [idle, h.sound.threadCurrent]
        rfl
      cases hidle.symm.trans hrun
      rw [threadScheduleTail_of_ne]
      · exact .idle hpermits hk
      · intro hd
        cases h.sound.status_current.symm.trans hd
    | threadUnblock t => exact hpermits.elim
    | threadExit => exact hpermits.elim
    | _ => exact absurd rfl hmild

lemma Ok.early (h : s.Ok) (hst : s.stage s.current = some st) (hearly : st.early = true) :
    s.idleThread ≠ some s.current ∧ s.stage s.current ≠ some .remove := by
  refine ⟨(h.exiting _ st hst ?_).2, ?_⟩
  · rintro rfl
    cases hearly
  · intro he
    cases hst.symm.trans he
    cases hearly

lemma Ok.effect_stage (st' : ExitStage) (h : s.Ok) (hst : s.stage s.current = some st)
    (hearly : st.early = true) (hearly' : st'.early = true) (process : ProcessFields) :
    Effect s .next { s.setStage st' with process := process } := by
  obtain ⟨hidle, hne⟩ := h.early hst hearly
  exact .quiet (Mild.refl false s.toRunQueue) h.sound (.inr ⟨hidle, hne, st', hearly', rfl⟩) nofun

lemma Ok.effect_sema {st' : ExitStage} (op : Op) (h : s.Ok)
    (hst : s.stage s.current = some st) (hearly : st.early = true) (hearly' : st'.early = true)
    (hmild : op.mild = true) (henabled : s.toRunQueue.Enabled op)
    (hstep : (s.setStage st').after (op.run s.toRunQueue) = some s') : Effect s .next s' := by
  obtain ⟨k, hrun, rfl⟩ := after_some hstep
  obtain ⟨hidle, hne⟩ := h.early hst hearly
  obtain ⟨hm, hk⟩ := h.run_mild henabled hmild hrun
  change Effect s .next (threadScheduleTail _ s.current)
  rw [threadScheduleTail_of_ne (h.not_dying hm)]
  exact .quiet hm hk (.inr ⟨hidle, hne, st', hearly', rfl⟩) fun _ => hne

lemma Ok.effect_notify (h : s.Ok) (hst : s.stage s.current = some .notify)
    (hstep : s.notify = some s') : Effect s .next s' := by
  unfold notify at hstep
  cases hchild : s.process.childProc s.current with
  | none =>
    rw [hchild] at hstep
    cases hstep
    exact h.effect_stage .teardown hst rfl rfl s.process
  | some a =>
    rw [hchild] at hstep
    dsimp only at hstep
    split at hstep
    · split at hstep
      · cases hstep
      · cases hstep
        exact h.effect_stage (.test a _) hst rfl rfl _
    · cases hstep
      exact h.effect_stage .teardown hst rfl rfl s.process

lemma Ok.effect_next (h : s.Ok) (hst : s.stage s.current = some st)
    (hstep : s.exitNext st = some s') : Effect s .next s' := by
  cases st with
  | print =>
    dsimp only [exitNext] at hstep
    split at hstep
    · cases hstep
    · cases hstep
      exact h.effect_stage .closing hst rfl rfl s.process
  | closing =>
    cases hstep
    exact h.effect_stage .notify hst rfl rfl s.process
  | notify => exact h.effect_notify hst hstep
  | test a parent =>
    cases hstep
    exact h.effect_stage _ hst rfl (by split <;> rfl) s.process
  | up parent => exact h.effect_sema (.semaUp (semaWait parent)) hst rfl rfl rfl trivial hstep
  | down a =>
    exact h.effect_sema (.semaDown (semaZombi a)) hst rfl (by split <;> rfl) rfl
      (h.early hst rfl).1 hstep
  | teardown =>
    cases hstep
    exact h.effect_stage .block hst rfl rfl s.process
  | block =>
    obtain ⟨k, hblock, rfl⟩ := after_some hstep
    have hm := (Mild.refl true s.toRunQueue).threadBlock rfl hblock
    change Effect s .next (threadScheduleTail _ s.current)
    rw [threadScheduleTail_of_ne (h.not_dying hm)]
    exact .block hst hblock
  | remove =>
    obtain ⟨k, hexit, rfl⟩ := after_some hstep
    exact .remove hst hexit
  | gone => cases hstep

lemma Ok.effect (h : s.Ok) (hstep : s.step e = some s') : Effect s e s' := by
  cases e with
  | op op =>
    dsimp only [step] at hstep
    rw [ite_none_right_eq_some] at hstep
    exact h.effect_op hstep.1.1 hstep.1.2 hstep.2
  | exit =>
    dsimp only [step] at hstep
    rw [ite_none_right_eq_some] at hstep
    obtain ⟨⟨hst, hidle⟩, hs'⟩ := hstep
    cases hs'
    exact .quiet (Mild.refl false s.toRunQueue) h.sound
      (.inr ⟨hidle, by rw [hst]; nofun, .print, rfl, rfl⟩) nofun
  | next =>
    dsimp only [step] at hstep
    cases hst : s.stage s.current with
    | none =>
      simp [hst] at hstep
    | some st =>
      rw [hst] at hstep
      exact h.effect_next hst hstep
  | fields process =>
    cases hstep
    exact .quiet (Mild.refl false s.toRunQueue) h.sound (.inl rfl) nofun
  | unblock t =>
    dsimp only [step] at hstep
    rw [ite_none_right_eq_some] at hstep
    obtain ⟨⟨hst, hb⟩, hs'⟩ := hstep
    have hmem := (h.exiting t _ hst nofun).1
    rw [threadUnblock_of_blocked hmem hb] at hs'
    cases hs'
    have hcur : ((s.insertReady t).setStatus t .ready).status s.current = .running := by
      have hne : s.current ≠ t := (h.aside hst hb).current
      exact (update_of_ne hne _ _).trans h.sound.status_current
    rw [threadScheduleTail_of_ne (fun hd => by cases hcur.symm.trans hd)]
    exact .unblock hst hb

/-! ## The invariant holds in every reachable state -/

lemma Ok.mild (h : s.Ok) (hm : Mild blocks s.toRunQueue s'.toRunQueue)
    (hk : s'.toRunQueue.Sound) (hpage : s'.page = s.page) (htid : s'.tid = s.tid)
    (hnext : s'.nextTid = s.nextTid) (hexiting : ∀ t st, s'.stage t = some st → st ≠ .gone →
      t ∈ s.allList ∧ s.idleThread ≠ some t)
    (hparked : ∀ t, s'.stage t = some .remove → s'.status t = .blocked → ∀ p, ¬ s'.At t p) :
    s'.Ok := by
  have hall : s'.allList = s.allList := hm.threads
  refine ⟨hk, ?_, fun t ht => ?_, fun t ht u hu => ?_, fun t st ht hne => ?_, hparked⟩
  · rw [hall]
    exact h.nodup
  · rw [hall] at ht
    obtain ⟨hd, hrest⟩ := h.alive t ht
    rw [hpage, htid, hnext]
    exact ⟨fun hdying => hd (hm.dying t hdying), hrest⟩
  · rw [hall] at ht hu
    rw [htid]
    exact h.tids t ht u hu
  · rw [hall, hm.idle]
    exact hexiting t st ht hne

lemma StageMove.cases {stage : ThreadRef → Option ExitStage} (h : s.StageMove stage)
    (ht : stage t = some st) :
    s.stage t = some st ∨ t = s.current ∧ s.idleThread ≠ some s.current ∧ st.early = true := by
  rcases h with rfl | ⟨hidle, -, st', hearly, rfl⟩
  · exact .inl ht
  · by_cases hcur : t = s.current
    · rw [hcur, update_self] at ht
      cases ht
      exact .inr ⟨hcur, hidle, hearly⟩
    · rw [update_of_ne hcur] at ht
      exact .inl ht

lemma Ok.quiet {stage : ThreadRef → Option ExitStage} {process : ProcessFields} (h : s.Ok)
    (hm : Mild blocks s.toRunQueue k) (hk : k.Sound) (hmove : s.StageMove stage)
    (hblocks : blocks = true → s.stage s.current ≠ some .remove) :
    Ok { s with toRunQueue := k, stage := stage, process := process } := by
  refine h.mild hm hk rfl rfl rfl (fun t st ht hne => ?_) fun t ht hb => ?_
  · rcases hmove.cases ht with hold | ⟨rfl, hidle, -⟩
    · exact h.exiting t st hold hne
    · exact ⟨h.sound.member, hidle⟩
  · rcases hmove.cases ht with hold | ⟨-, -, hearly⟩
    · rcases hm.blocked t hb with hb | ⟨hbl, rfl⟩
      · exact (hm.aside t (h.aside hold hb)).1.nowhere
      · exact absurd hold (hblocks hbl)
    · cases hearly

lemma Ok.newThread {priority : Int} (h : s.Ok) (hnew : t ∉ s.allList) :
    Ok { s.prepare (.initThread t priority) with toRunQueue := s.initThread t priority } := by
  have hne : ∀ u ∈ s.allList, u ≠ t := fun u hu he => hnew (he ▸ hu)
  have hmem : ∀ u, u ∈ (s.initThread t priority).allList ↔ u ∈ s.allList ∨ u = t := by
    intro u
    simp [initThread]
  have hstatus : ∀ u, u ≠ t → (s.initThread t priority).status u = s.status u :=
    fun u hu => update_of_ne hu _ _
  have htid : ∀ u, u ≠ t → update s.tid t s.nextTid u = s.tid u :=
    fun u hu => update_of_ne hu _ _
  refine ⟨h.sound.initThread hnew priority, ?_, fun u hu => ?_, fun u hu v hv huv => ?_,
    fun u st hu hgone => ?_, fun u hu hb p hp => ?_⟩
  · exact nodup_append.mpr ⟨h.nodup, nodup_singleton _, fun u hu v hv =>
      mem_singleton.mp hv ▸ hne u hu⟩
  · dsimp only [prepare]
    rcases (hmem u).mp hu with hold | rfl
    · obtain ⟨hd, hpage, hlt⟩ := h.alive u hold
      rw [hstatus u (hne u hold), htid u (hne u hold), update_of_ne (hne u hold)]
      exact ⟨hd, hpage, Nat.lt_succ_of_lt hlt⟩
    · have hself : (s.initThread u priority).status u = .blocked := update_self _ _ _
      rw [hself, update_self, update_self]
      exact ⟨(by simp), rfl, Nat.lt_succ_self _⟩
  · dsimp only [prepare] at huv
    rcases (hmem u).mp hu with hold | rfl
    · rw [htid u (hne u hold)] at huv
      rcases (hmem v).mp hv with hold' | rfl
      · rw [htid v (hne v hold')] at huv
        exact h.tids u hold v hold' huv
      · rw [update_self] at huv
        exact absurd huv (Nat.ne_of_lt (h.alive u hold).2.2)
    · rw [update_self] at huv
      rcases (hmem v).mp hv with hold' | rfl
      · rw [htid v (hne v hold')] at huv
        exact absurd huv.symm (Nat.ne_of_lt (h.alive v hold').2.2)
      · rfl
  · dsimp only [prepare] at hu
    by_cases hut : u = t
    · simp [hut, update_self] at hu
    · rw [update_of_ne hut] at hu
      obtain ⟨hold, hidle⟩ := h.exiting u st hu hgone
      exact ⟨(hmem u).mpr (.inl hold), hidle⟩
  · dsimp only [prepare] at hu
    by_cases hut : u = t
    · simp [hut, update_self] at hu
    · rw [update_of_ne hut] at hu
      refine h.parked u hu ((hstatus u hut).symm.trans hb) p ?_
      cases p with
      | created => exact (mem_cons.mp hp).resolve_left hut
      | ready => exact hp
      | sema r => exact hp
      | intq q => exact hp

lemma Ok.block (h : s.Ok) (hst : s.stage s.current = some .block)
    (hblock : s.threadBlock = .ok k) : Ok { s.setStage .remove with toRunQueue := k } := by
  have hidle := (h.early hst rfl).1
  have hm := (Mild.refl true s.toRunQueue).threadBlock rfl hblock
  have hk : k.Sound := by
    have hfine := h.sound.threadBlock
    rwa [hblock] at hfine
  have hself := (threadBlock_spec hidle h.sound.current_nowhere hblock).1
  have hother : ∀ u, u ≠ s.current → (s.setStage .remove).stage u = s.stage u :=
    fun u hu => update_of_ne hu _ _
  refine h.mild hm hk rfl rfl rfl (fun u st hu hgone => ?_) fun u hu hb => ?_
  · by_cases hcur : u = s.current
    · rw [hcur]
      exact ⟨h.sound.member, hidle⟩
    · exact h.exiting u st ((hother u hcur).symm.trans hu) hgone
  · by_cases hcur : u = s.current
    · rw [hcur]
      exact hself.nowhere
    · rcases hm.blocked u hb with hold | ⟨-, hcur'⟩
      · exact (hm.aside u (h.aside ((hother u hcur).symm.trans hu) hold)).1.nowhere
      · exact absurd hcur' hcur

lemma Ok.exited (h : s.Ok) (hst : s.stage s.current = some .remove)
    (hexit : s.toRunQueue.threadExit = .ok k) : Exited s.toRunQueue k ∧ k.Sound := by
  have hidle := (h.exiting _ _ hst nofun).2
  refine ⟨threadExit_spec hidle h.sound.current_nowhere hexit, ?_⟩
  have hfine := h.sound.threadExit hidle
  rwa [hexit] at hfine

lemma tail_fields (s : Exits) (prev : ThreadRef) :
    (s.threadScheduleTail prev).toRunQueue = s.toRunQueue ∧
      (s.threadScheduleTail prev).tid = s.tid ∧
      (s.threadScheduleTail prev).nextTid = s.nextTid ∧
      (s.threadScheduleTail prev).stage = s.stage ∧
      ∀ t ≠ prev, (s.threadScheduleTail prev).page t = s.page t := by
  unfold threadScheduleTail
  split
  · exact ⟨rfl, rfl, rfl, rfl, fun t ht => update_of_ne ht _ _⟩
  · exact ⟨rfl, rfl, rfl, rfl, fun _ _ => rfl⟩

lemma Ok.remove (h : s.Ok) (hst : s.stage s.current = some .remove)
    (hexit : s.toRunQueue.threadExit = .ok k) :
    Ok (threadScheduleTail { s.setStage .gone with toRunQueue := k } s.current) := by
  obtain ⟨hx, hk⟩ := h.exited hst hexit
  obtain ⟨hqueue, htid, hnext, hstage, hpage⟩ :=
    tail_fields { s.setStage .gone with toRunQueue := k } s.current
  generalize threadScheduleTail { s.setStage .gone with toRunQueue := k } s.current = s' at *
  have hmem : ∀ u, u ∈ s'.allList ↔ u ∈ s.allList ∧ u ≠ s.current := by
    intro u
    rw [hqueue, hx.threads, h.nodup.mem_erase_iff, and_comm]
  have hother : ∀ u, u ≠ s.current → s'.stage u = s.stage u := by
    intro u hu
    rw [hstage]
    exact update_of_ne hu _ _
  have hnot : ∀ u st, s'.stage u = some st → st ≠ .gone → u ≠ s.current := by
    rintro u st hu hgone rfl
    rw [hstage] at hu
    exact hgone (some.inj (hu.symm.trans (update_self _ _ _)))
  refine ⟨hqueue ▸ hk, ?_, fun u hu => ?_, fun u hu v hv => ?_, fun u st hu hgone => ?_,
    fun u hu hb => ?_⟩
  · rw [hqueue]
    change k.allList.Nodup
    rw [hx.threads]
    exact h.nodup.erase _
  · obtain ⟨hold, hne⟩ := (hmem u).mp hu
    obtain ⟨hd, hlive, hlt⟩ := h.alive u hold
    rw [hqueue, htid, hnext, hpage u hne]
    refine ⟨fun hdying => ?_, hlive, hlt⟩
    rcases hx.status u hne with hrun | hsame
    · cases hrun.symm.trans hdying
    · exact hd (hsame.symm.trans hdying)
  · rw [htid]
    exact h.tids u ((hmem u).mp hu).1 v ((hmem v).mp hv).1
  · have hne := hnot u st hu hgone
    obtain ⟨hold, hidle⟩ := h.exiting u st ((hother u hne).symm.trans hu) hgone
    refine ⟨(hmem u).mpr ⟨hold, hne⟩, ?_⟩
    rw [hqueue]
    exact hx.idle ▸ hidle
  · have hne := hnot u _ hu nofun
    have hold := (hother u hne).symm.trans hu
    rw [hqueue] at hb ⊢
    rcases hx.status u hne with hrun | hsame
    · cases hrun.symm.trans hb
    · exact (hx.aside u (h.aside hold (hsame.symm.trans hb))).1.nowhere

lemma Ok.unblock (h : s.Ok) (hst : s.stage t = some .remove) (hb : s.status t = .blocked) :
    Ok { s with toRunQueue := (s.insertReady t).setStatus t .ready } := by
  obtain ⟨hmem, hidle⟩ := h.exiting t _ hst nofun
  have hother : ∀ u, u ≠ t → ((s.insertReady t).setStatus t .ready).status u = s.status u :=
    fun u hu => update_of_ne hu _ _
  have hself : ((s.insertReady t).setStatus t .ready).status t = .ready :=
    update_self _ _ _
  refine ⟨h.sound.unblock ⟨hmem, hb, hidle, h.parked t hst hb⟩, h.nodup, fun u hu => ?_, h.tids,
    h.exiting, fun u hu hub p hp => ?_⟩
  · obtain ⟨hd, hrest⟩ := h.alive u hu
    refine ⟨fun hdying => ?_, hrest⟩
    by_cases hut : u = t
    · rw [hut] at hdying
      cases hself.symm.trans hdying
    · exact hd ((hother u hut).symm.trans hdying)
  · by_cases hut : u = t
    · rw [hut] at hub
      cases hself.symm.trans hub
    · refine h.parked u hu ((hother u hut).symm.trans hub) p ?_
      cases p with
      | ready => exact (mem_listInsertOrdered.mp hp).resolve_left hut
      | sema r => exact hp
      | intq q => exact hp
      | created => exact hp

lemma Ok.step (h : s.Ok) (hstep : s.step e = some s') : s'.Ok := by
  cases h.effect hstep with
  | quiet mild sound move blocks => exact h.quiet mild sound move blocks
  | newThread new => exact h.newThread new
  | idle stage sound =>
    refine ⟨sound, h.nodup, h.alive, h.tids, fun t st ht hne => ?_, fun t ht hb p hp => ?_⟩
    · refine ⟨(h.exiting t st ht hne).1, fun he => ?_⟩
      rw [some.inj he, ht] at stage
      cases stage
    · exact h.parked t ht hb p (by cases p <;> exact hp)
  | block stage block => exact h.block stage block
  | remove stage exit => exact h.remove stage exit
  | unblock stage blocked => exact h.unblock stage blocked

lemma Start.ok (h : s.Start) : s.Ok := by
  have hall := h.queue.threads
  refine ⟨h.queue.sound, ?_, fun t ht => ?_, fun t ht u hu _ => ?_, fun t st ht => ?_,
    fun t ht => ?_⟩
  · rw [hall]
    exact nodup_singleton _
  · rw [hall, mem_singleton] at ht
    rw [ht, h.queue.running]
    exact ⟨nofun, h.page, h.tid⟩
  · rw [hall, mem_singleton] at ht hu
    rw [ht, hu]
  · simp [h.stage t] at ht
  · simp [h.stage t] at ht

lemma ok_of_reachable (h : machine.Reachable s) : s.Ok := by
  refine h.invariant ?_ ?_
  · intro s hs
    exact Start.ok hs
  · intro s e s' hs hstep
    exact Ok.step hs hstep

/-! ## Runs -/

/-- `t` is on its way through `process_exit`, or blocked at its end. -/
def Stays (s : Exits) (t : ThreadRef) : Prop :=
  ∃ st, s.stage t = some st ∧ st ≠ .gone ∧ (st = .remove → s.status t = .blocked)

lemma Stays.of_aside (h : s.Ok) (ht : s.Stays t) (hstage : s'.stage t = s.stage t)
    (hstatus : s.Aside t → s'.status t = s.status t) : s'.Stays t := by
  obtain ⟨st, hst, hgone, hblocked⟩ := ht
  refine ⟨st, hstage.trans hst, hgone, ?_⟩
  rintro rfl
  rw [hstatus (h.aside hst (hblocked rfl))]
  exact hblocked rfl

lemma Stays.step (h : s.Ok) (ht : s.Stays t) (he : e ≠ .unblock t) (hstep : s.step e = some s') :
    s'.Stays t := by
  cases h.effect hstep with
  | quiet mild sound move blocks =>
    rcases move with rfl | ⟨-, -, st, hearly, rfl⟩
    · exact ht.of_aside h rfl fun ha => (mild.aside t ha).2
    · by_cases hcur : t = s.current
      · refine ⟨st, by rw [hcur]; exact update_self _ _ _, ?_, ?_⟩
        · rintro rfl
          cases hearly
        · rintro rfl
          cases hearly
      · exact ht.of_aside h (update_of_ne hcur _ _) fun ha => (mild.aside t ha).2
  | @newThread u priority new =>
    have hne : t ≠ u := by
      obtain ⟨st, hst, hgone, -⟩ := ht
      exact fun he => new (he ▸ (h.exiting t st hst hgone).1)
    exact ht.of_aside h (update_of_ne hne _ _) fun _ => update_of_ne hne _ _
  | idle stage sound => exact ht.of_aside h rfl fun _ => rfl
  | block stage block =>
    by_cases hcur : t = s.current
    · have hself := (threadBlock_spec (h.early stage rfl).1 h.sound.current_nowhere block).2
      exact ⟨.remove, by rw [hcur]; exact update_self _ _ _, nofun,
        fun _ => by rw [hcur]; exact hself⟩
    · have hm := (Mild.refl true s.toRunQueue).threadBlock rfl block
      exact ht.of_aside h (update_of_ne hcur _ _) fun ha => (hm.aside t ha).2
  | remove stage exit =>
    obtain ⟨hx, -⟩ := h.exited stage exit
    obtain ⟨hqueue, -, -, hstage, -⟩ :=
      tail_fields { s.setStage .gone with toRunQueue := _ } s.current
    have hcur : t ≠ s.current := by
      rintro rfl
      obtain ⟨st, hst, -, hblocked⟩ := ht
      cases stage.symm.trans hst
      cases h.sound.status_current.symm.trans (hblocked rfl)
    refine ht.of_aside h ?_ fun ha => ?_
    · rw [hstage]
      exact update_of_ne hcur _ _
    · rw [hqueue]
      exact (hx.aside t ha).2
  | @unblock u stage blocked =>
    have hne : t ≠ u := fun ht => he (congrArg Event.unblock ht.symm)
    exact ht.of_aside h rfl fun _ => update_of_ne hne _ _

lemma Stays.run {es : List Event} (h : s.Ok) (ht : s.Stays t) (hes : Event.unblock t ∉ es)
    (hrun : machine.run s es = some s') : s'.Ok ∧ s'.Stays t := by
  induction es generalizing s with
  | nil =>
    cases hrun
    exact ⟨h, ht⟩
  | cons e es ih =>
    obtain ⟨s₁, hstep, hrun⟩ := Machine.step_of_run_cons hrun
    have he : e ≠ .unblock t := fun he => hes (he ▸ mem_cons_self)
    exact ih (h.step hstep) (ht.step h he hstep) (fun hm => hes (mem_cons_of_mem _ hm)) hrun

structure Gone (s : Exits) (t : ThreadRef) : Prop where
  status : s.status t = .dying
  removed : t ∉ s.allList
  exist : s.threadExist (s.tid t) = false
  page : t ≠ s.initialThread → s.page t = false

lemma Ok.gone (h : s.Ok) (hst : s.stage s.current = some .remove)
    (hstep : s.step .next = some s') : s'.Gone s.current := by
  dsimp only [Exits.step] at hstep
  rw [hst] at hstep
  obtain ⟨k, hexit, rfl⟩ := after_some hstep
  obtain ⟨hx, -⟩ := h.exited hst hexit
  change Gone (threadScheduleTail { s.setStage .gone with toRunQueue := k } s.current) s.current
  obtain ⟨hqueue, htid, -, -, -⟩ :=
    tail_fields { s.setStage .gone with toRunQueue := k } s.current
  have hnot : s.current ∉ k.allList := by
    rw [hx.threads]
    exact h.nodup.not_mem_erase
  refine ⟨hqueue ▸ hx.dying, hqueue ▸ hnot, ?_, fun hinit => ?_⟩
  · have htid' : _ = s.tid := htid
    unfold threadExist
    rw [hqueue, htid']
    refine any_eq_false.mpr fun u hu => ?_
    have hu' : u ∈ s.allList.erase s.current := hx.threads ▸ hu
    have hsame : s.tid u = s.tid s.current → u = s.current :=
      h.tids u (mem_of_mem_erase hu') s.current h.sound.member
    have hne : u ≠ s.current := fun he => hnot (he ▸ hu)
    simpa using fun he => hne (hsame he)
  · have hinit' : s.current ≠ s.initialThread := by
      intro he
      apply hinit
      rw [he]
      unfold threadScheduleTail
      split <;> rfl
    have htail : threadScheduleTail { s.setStage .gone with toRunQueue := k } s.current =
        { s.setStage .gone with
          toRunQueue := k
          page := update s.page s.current false } := if_pos ⟨hx.dying, hinit'⟩
    rw [htail]
    exact update_self _ _ _

/-- A thread that has called `thread_exit` never disappears: it ends in the `thread_block` of
`process_exit`, on `all_list` and in its page, unless something calls `thread_unblock` on it. -/
theorem threadExit_stays {s₁ s₂ : Exits} {es : List Event} (h : machine.Reachable s)
    (hexit : machine.step s .exit = some s₁) (hrun : machine.run s₁ es = some s₂) :
    (Event.unblock s.current ∉ es →
      s.current ∈ s₂.allList ∧ s₂.threadExist (s₂.tid s.current) = true ∧
        s₂.status s.current ≠ .dying ∧ s₂.page s.current = true ∧
        (s₂.stage s.current = some .remove →
          s₂.status s.current = .blocked ∧ s₂.current ≠ s.current)) ∧
      ∀ s₃, s₂.current = s.current → s₂.stage s.current = some .remove →
        machine.step s₂ .next = some s₃ → s₃.Gone s.current := by
  have hreach₁ : machine.Reachable s₁ := h.step hexit
  have hok₂ : s₂.Ok := ok_of_reachable (Machine.reachable_run hreach₁ hrun)
  refine ⟨fun hes => ?_, fun s₃ hcur hst hstep => ?_⟩
  · have hstays₁ : s₁.Stays s.current := by
      dsimp only [machine, step] at hexit
      rw [ite_none_right_eq_some] at hexit
      cases hexit.2
      exact ⟨.print, update_self _ _ _, nofun, nofun⟩
    obtain ⟨-, hstays⟩ := hstays₁.run (ok_of_reachable hreach₁) hes hrun
    obtain ⟨st, hst, hgone, hblocked⟩ := hstays
    have hmem := (hok₂.exiting _ st hst hgone).1
    obtain ⟨hdying, hpage, -⟩ := hok₂.alive _ hmem
    refine ⟨hmem, ?_, hdying, hpage, fun hremove => ?_⟩
    · exact any_eq_true.mpr ⟨s.current, hmem, decide_eq_true rfl⟩
    · cases hst.symm.trans hremove
      exact ⟨hblocked rfl, (hok₂.aside hremove (hblocked rfl)).current⟩
  · rw [← hcur] at hst ⊢
    exact hok₂.gone hst hstep

def initialized : Exits where
  toRunQueue := RunQueue.mainOnly
  tid := fun _ => 1
  nextTid := 2
  initialThread := 1
  page := fun t => t = 1
  stage := fun _ => none
  process := ⟨fun _ => false, fun _ => 0, fun _ => none, fun _ => false, fun _ => false⟩

lemma initialized_start : machine.start initialized :=
  ⟨mainOnly_start, by decide, rfl, fun _ => rfl⟩

def secondThread : List Event := [.op (.initThread 2 31), .op (.startThread 2), .op .threadYield]

/-- A thread without a program goes through `process_exit`. -/
def exitSteps : List Event := [.next, .next, .next, .next, .next]

theorem threadExit_stays_kernelThread :
    ∃ s s₁ s₂, machine.run initialized secondThread = some s ∧ machine.step s .exit = some s₁ ∧
      machine.run s₁ exitSteps = some s₂ ∧ s.current = 2 ∧ s₂.current = 1 ∧
      2 ∈ s₂.allList ∧ s₂.threadExist (s₂.tid 2) = true ∧ s₂.status 2 = .blocked ∧
      s₂.page 2 = true := by
  have hruns : ((machine.run initialized secondThread).bind fun s =>
      (machine.step s .exit).bind fun s₁ => (machine.run s₁ exitSteps).map fun s₂ =>
        (s.current, s₂.current, s₂.stage 2)) = some (2, 1, some .remove) := by decide +kernel
  obtain ⟨s, hs, hrest⟩ := bind_eq_some_iff.mp hruns
  obtain ⟨s₁, hexit, hrest⟩ := bind_eq_some_iff.mp hrest
  obtain ⟨s₂, hrun, hend⟩ := map_eq_some_iff.mp hrest
  simp only [Prod.mk.injEq] at hend
  obtain ⟨hcur, hcur₂, hstage⟩ := hend
  have hreach : machine.Reachable s := Machine.reachable_run (.start initialized_start) hs
  obtain ⟨hmem, hexist, -, hpage, hlast⟩ :=
    (threadExit_stays hreach hexit hrun).1 (by simp [hcur, exitSteps])
  rw [hcur] at hmem hexist hpage hlast
  exact ⟨s, s₁, s₂, hs, hexit, hrun, hcur, hcur₂, hmem, hexist, (hlast hstage).1, hpage⟩

/-- Thread 2 runs a program for thread 1, which waits for it. -/
def waitedFor : ProcessFields where
  executable := fun t => t = 2
  parent := fun _ => 1
  childProc := fun t => if t = 2 then some ⟨0⟩ else none
  wait := fun _ => true
  exit := fun _ => false

/-- Both threads have taken the last step of their exit: blocked, on `all_list`, no page freed. -/
theorem exited_threads_remain :
    (machine.run initialized (secondThread ++ .exit :: exitSteps)).map (fun s =>
        (s.stage 2, s.status 2, s.allList, s.threadExist 2, s.page 2, s.current)) =
      some (some .remove, .blocked, [1, 2], true, true, 1) ∧
    (machine.run initialized (secondThread ++ [.fields waitedFor, .exit, .next, .next, .next,
        .next, .next, .next, .next])).map (fun s =>
        (s.stage 2, s.status 2, s.allList, s.threadExist 2, s.page 2, s.current)) =
      some (some .remove, .blocked, [1, 2], true, true, 1) := by
  constructor <;> decide +kernel

end Exits

end Pintos.Userprog
