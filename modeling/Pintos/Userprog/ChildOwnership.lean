import Pintos.Userprog.Process

/-! # Steps of processes and ownership of records

First the step function is inverted once, into one case for each path through the
routines. Then what holds of records in every run, races or not: a record that a parent
lists is allocated and is the one its child points to, and a record is listed as long as
it is allocated to its child.
-/

namespace Pintos.Userprog

open Foundation Threads Function Option

namespace Processes

/-! ## What a step does -/

/-- The successful steps, one case for each path through the routines. -/
inductive Step (s : Processes) : Op → Processes → Prop
  | executeBare {p c : Tid} (hp : s.point p = .running) (hc : s.point c = .unborn) :
      Step s (.execute p c none) (s.initThread p c none)
  | execute {p c : Tid} {a : Addr} (hp : s.point p = .running) (hc : s.point c = .unborn)
      (ha : s.live a = false) :
      Step s (.execute p c (some a)) ((s.initThread p c a).addChildProc p c a)
  | startFailed {c : Tid} {o : LoadOutcome} (hc : s.point c = .starting) (n : Nat) :
      Step s (.start c o) { s.setPoint c (.exiting .print) with
        semaLoad := Function.update s.semaLoad c n }
  | startLoaded {c : Tid} (hc : s.point c = .starting) (n : Nat) :
      Step s (.start c .loaded) { s.setPoint c .running with
        semaLoad := Function.update s.semaLoad c n
        executable := Function.update s.executable c true }
  | waitRefused {p c : Tid} (hp : s.point p = .running)
      (hc : ∀ a, s.getChildProc p c = some a → s.wait a = true) :
      Step s (.wait p c) (s.returned p c)
  | waitCalled {p c : Tid} {a : Addr} (hp : s.point p = .running)
      (ha : s.getChildProc p c = some a) (hw : s.wait a = false) :
      Step s (.wait p c) (s.setPoint p (.waiting c a .set))
  | exit {t : Tid} {v : Int} (ht : s.point t = .running) :
      Step s (.exit t v) { s.setPoint t (.exiting (.store v)) with
        passed := Function.update s.passed t (some v) }
  | threadExit {t : Tid} (ht : s.point t = .running) :
      Step s (.threadExit t) (s.setPoint t (.exiting .print))
  | loaded {p c : Tid} (hp : s.point p = .loading c) (n : Nat) :
      Step s (.next p) { s.setPoint p .running with
        semaLoad := Function.update s.semaLoad c n }
  | waitSet {p c : Tid} {a : Addr} (hp : s.point p = .waiting c a .set) :
      Step s (.next p) { s.setPoint p (.waiting c a .test) with
        wait := Function.update s.wait a true }
  | waitTest {p c : Tid} {a : Addr} (hp : s.point p = .waiting c a .test) :
      Step s (.next p) (s.setPoint p (.waiting c a (if s.exit a then .up else .down)))
  | waitUp {p c : Tid} {a : Addr} (hp : s.point p = .waiting c a .up)
      (hw : ((s.semaZombi a).up s.less).2 = none) :
      Step s (.next p) ({ s with
        semaZombi := Function.update s.semaZombi a ((s.semaZombi a).up s.less).1 }.setPoint p
          (.waiting c a .read))
  | waitWake {p c w : Tid} {a : Addr} (hp : s.point p = .waiting c a .up)
      (hw : ((s.semaZombi a).up s.less).2 = some w) (hs : s.point w = .exiting .sleep) :
      Step s (.next p) (({ s with
        semaZombi := Function.update s.semaZombi a ((s.semaZombi a).up s.less).1 }.setPoint w
          (.exiting .down)).setPoint p (.waiting c a .read))
  | waitSleep {p c : Tid} {a : Addr} (hp : s.point p = .waiting c a .down)
      (hv : s.semaWait p = 0) :
      Step s (.next p) (s.setPoint p (.waiting c a .sleep))
  | waitDown {p c : Tid} {a : Addr} (hp : s.point p = .waiting c a .down)
      (hv : s.semaWait p ≠ 0) :
      Step s (.next p) { s.setPoint p (.waiting c a .read) with
        semaWait := Function.update s.semaWait p (s.semaWait p - 1) }
  | waitRead {p c : Tid} {a : Addr} (hp : s.point p = .waiting c a .read) :
      Step s (.next p) (s.setPoint p (.waiting c a (.remove (s.exitStatus a))))
  | waitRemove {p c : Tid} {a : Addr} {r : Int} (hp : s.point p = .waiting c a (.remove r)) :
      Step s (.next p) (((s.setPoint p .running).removeChildProc p a).returned p c)
  | store {t : Tid} {a : Addr} {v : Int} (ht : s.point t = .exiting (.store v))
      (ha : s.childProc t = some a) :
      Step s (.next t) { s.setPoint t (.exiting .print) with
        exitStatus := Function.update s.exitStatus a v }
  | storeSkipped {t : Tid} {v : Int} (ht : s.point t = .exiting (.store v))
      (ha : s.childProc t = none ∨ s.parentExists t = false) :
      Step s (.next t) (s.setPoint t (.exiting .print))
  | print {t : Tid} (ht : s.point t = .exiting .print) :
      Step s (.next t) (s.setPoint t (.exiting .free))
  | freed {t : Tid} (ht : s.point t = .exiting .free) (hl : s.childList t = []) :
      Step s (.next t) (s.setPoint t (.exiting .notify))
  | free {t : Tid} {a : Addr} (ht : s.point t = .exiting .free)
      (ha : (s.childList t).head? = some a) :
      Step s (.next t) (s.removeChildProc t a)
  | notify {t : Tid} {a : Addr} (ht : s.point t = .exiting .notify)
      (ha : s.childProc t = some a) (he : s.executable t = true) :
      Step s (.next t) { s.setPoint t (.exiting .test) with
        exit := Function.update s.exit a true
        exited := Function.update s.exited t true }
  | notifySkipped {t : Tid} (ht : s.point t = .exiting .notify)
      (hn : s.childProc t = none ∨ s.parentExists t = false ∨ s.executable t = false) :
      Step s (.next t) (s.setPoint t .finished)
  | exitTest {t : Tid} {a : Addr} (ht : s.point t = .exiting .test)
      (ha : s.childProc t = some a) :
      Step s (.next t) (s.setPoint t (.exiting (if s.wait a then .up else .down)))
  | exitUp {t p : Tid} (ht : s.point t = .exiting .up) (hp : s.parent t = some p) :
      Step s (.next t) (s.upParent t p)
  | exitDown {t : Tid} {a : Addr} (ht : s.point t = .exiting .down)
      (ha : s.childProc t = some a) :
      Step s (.next t) (s.downZombi t a)
  | reuse {a : Addr} {pid : Tid} {exit wait : Bool} {status : Int} {zombi : Semaphore}
      (ha : s.live a = false) :
      Step s (.reuse a pid exit wait status zombi) { s with
        pid := Function.update s.pid a pid
        exit := Function.update s.exit a exit
        wait := Function.update s.wait a wait
        exitStatus := Function.update s.exitStatus a status
        semaZombi := Function.update s.semaZombi a zombi }
  | reorder {less : Tid → Tid → Bool} : Step s (.reorder less) { s with less := less }

variable {s s' : Processes} {op : Op} {p c t : Tid} {a b : Addr} {w : WaitPoint} {pt : Point}

lemma Step.of_processExecute {a : Option Addr} (h : s.processExecute p c a = some s') :
    Step s (.execute p c a) s' := by
  simp only [processExecute, ite_none_right_eq_some] at h
  rcases h with ⟨⟨hp, hc⟩, h⟩
  cases a with
  | none =>
    cases h
    exact .executeBare hp hc
  | some a =>
    simp only [ite_none_left_eq_some, Bool.not_eq_true] at h
    rcases h with ⟨ha, h⟩
    cases h
    exact .execute hp hc ha

lemma Step.of_startProcess {o : LoadOutcome} (h : s.startProcess c o = some s') :
    Step s (.start c o) s' := by
  simp only [startProcess, ite_none_right_eq_some] at h
  rcases h with ⟨hc, h⟩
  cases o with
  | noMemory =>
    cases h
    have hstep := Step.startFailed (o := .noMemory) hc (s.semaLoad c)
    rwa [update_eq_self] at hstep
  | failed =>
    cases h
    exact .startFailed hc _
  | loaded =>
    cases h
    exact .startLoaded hc _

lemma Step.of_processWait (h : s.processWait p c = some s') : Step s (.wait p c) s' := by
  simp only [processWait, ite_none_right_eq_some] at h
  rcases h with ⟨hp, h⟩
  cases ha : s.getChildProc p c with
  | none =>
    simp only [ha, some.injEq] at h
    subst h
    exact .waitRefused hp fun a h => by rw [ha] at h; cases h
  | some a =>
    simp only [ha] at h
    cases hw : s.wait a with
    | true =>
      simp only [hw, ↓reduceIte, some.injEq] at h
      subst h
      exact .waitRefused hp fun b h => by rw [ha] at h; cases h; exact hw
    | false =>
      simp only [hw, Bool.false_eq_true, ↓reduceIte, some.injEq] at h
      subst h
      exact .waitCalled hp ha hw

lemma Step.of_waitStep (hp : s.point p = .waiting c a w) (h : s.waitStep p c a w = some s') :
    Step s (.next p) s' := by
  cases w with
  | set =>
    cases h
    exact .waitSet hp
  | test =>
    cases h
    exact .waitTest hp
  | up =>
    simp only [waitStep, upZombi] at h
    split at h
    · next hw =>
        cases h
        exact .waitUp hp hw
    · next w hw =>
        simp only [ite_none_right_eq_some] at h
        rcases h with ⟨hs, h⟩
        cases h
        exact .waitWake hp hw hs
  | down =>
    simp only [waitStep] at h
    split at h
    · next hv =>
        cases h
        exact .waitSleep hp hv
    · next hv =>
        cases h
        exact .waitDown hp hv
  | sleep => cases h
  | read =>
    cases h
    exact .waitRead hp
  | remove r =>
    cases h
    exact .waitRemove hp

lemma Step.of_exitStep {e : ExitPoint} (ht : s.point t = .exiting e)
    (h : s.exitStep t e = some s') : Step s (.next t) s' := by
  cases e with
  | store v =>
    simp only [exitStep] at h
    split at h
    · next a ha =>
        split at h
        · cases h
          exact .store ht ha
        · next hp =>
            cases h
            exact .storeSkipped ht (.inr (Bool.eq_false_iff.mpr hp))
    · next ha =>
        cases h
        exact .storeSkipped ht (.inl ha)
  | print =>
    simp only [exitStep, ite_none_left_eq_some] at h
    rcases h with ⟨-, h⟩
    cases h
    exact .print ht
  | free =>
    simp only [exitStep] at h
    split at h
    · next hl =>
        cases h
        exact .freed ht hl
    · next a as hl =>
        cases h
        exact .free ht (by rw [hl]; rfl)
  | notify =>
    simp only [exitStep] at h
    split at h
    · next a ha =>
        split at h
        · next hc =>
            cases h
            exact .notify ht ha hc.2
        · next hc =>
            cases h
            refine .notifySkipped ht ?_
            cases hp : s.parentExists t with
            | false => exact .inr (.inl rfl)
            | true =>
              cases he : s.executable t with
              | false => exact .inr (.inr rfl)
              | true => exact absurd ⟨hp, he⟩ hc
    · next ha =>
        cases h
        exact .notifySkipped ht (.inl ha)
  | test =>
    simp only [exitStep] at h
    split at h
    · next a ha =>
        cases h
        exact .exitTest ht ha
    · cases h
  | up =>
    simp only [exitStep] at h
    split at h
    · next p hp =>
        cases h
        exact .exitUp ht hp
    · cases h
  | down =>
    simp only [exitStep] at h
    split at h
    · next a ha =>
        cases h
        exact .exitDown ht ha
    · cases h
  | sleep => cases h

lemma Step.of_step (h : s.step op = some s') : Step s op s' := by
  cases op with
  | execute p c a => exact .of_processExecute h
  | start c o => exact .of_startProcess h
  | wait p c => exact .of_processWait h
  | exit t v =>
    simp only [step, ite_none_right_eq_some] at h
    rcases h with ⟨ht, h⟩
    cases h
    exact .exit ht
  | threadExit t =>
    simp only [step, ite_none_right_eq_some] at h
    rcases h with ⟨ht, h⟩
    cases h
    exact .threadExit ht
  | next t =>
    simp only [step] at h
    split at h
    · next c ht =>
        simp only [ite_none_left_eq_some] at h
        rcases h with ⟨-, h⟩
        cases h
        exact .loaded ht _
    · next c a w ht => exact .of_waitStep ht h
    · next e ht => exact .of_exitStep ht h
    · cases h
  | reuse a pid exit wait status zombi =>
    simp only [step, ite_none_left_eq_some, Bool.not_eq_true] at h
    rcases h with ⟨ha, h⟩
    cases h
    exact .reuse ha
  | reorder less =>
    cases h
    exact .reorder

/-! ## Ownership -/

/-- Records and processes agree, whatever the interleaving. -/
structure Ok (s : Processes) : Prop where
  listed : ∀ p, ∀ a ∈ s.childList p, s.live a = true ∧ s.parent (s.pid a) = some p ∧
    s.childProc (s.pid a) = some a
  nodup : ∀ p, (s.childList p).Nodup
  held : ∀ c a, s.childProc c = some a → s.live a = true → s.pid a = c →
    ∃ p, s.parent c = some p ∧ a ∈ s.childList p
  waiting : ∀ p c a w, s.point p = .waiting c a w → a ∈ s.childList p ∧ s.pid a = c
  unborn : ∀ t, s.point t = .unborn → s.childProc t = none ∧ s.childList t = []
  parent : ∀ c p, s.parent c = some p → s.point p ≠ .unborn

lemma Start.ok (h : Start s) : s.Ok where
  listed p a ha := by
    simp [h.childList] at ha
  nodup p := by
    rw [h.childList]
    exact List.nodup_nil
  held c a hc := by
    simp [h.childProc] at hc
  waiting p c a w hp := by
    rcases h.point p with hq | hq <;> rw [hq] at hp <;> cases hp
  unborn t _ := ⟨h.childProc t, h.childList t⟩
  parent c p hc := by
    simp [h.parent] at hc

/-- Nothing that ownership is about has changed. -/
structure SameRecords (s s' : Processes) : Prop where
  childList : s'.childList = s.childList
  live : s'.live = s.live
  parent : s'.parent = s.parent
  childProc : s'.childProc = s.childProc
  pid : s'.pid = s.pid

/-- A thread moves to another point of the same routine, or into `process_wait` with a
record of its own. -/
lemma Ok.move (ok : s.Ok) (hpoint : s'.point = update s.point t pt) (hsame : SameRecords s s')
    (ht : s.point t ≠ .unborn) (hpt : pt ≠ .unborn)
    (hw : ∀ c a w, pt = .waiting c a w → a ∈ s.childList t ∧ s.pid a = c) : s'.Ok where
  listed := by
    rw [hsame.childList, hsame.live, hsame.parent, hsame.childProc, hsame.pid]
    exact ok.listed
  nodup := by
    rw [hsame.childList]
    exact ok.nodup
  held := by
    rw [hsame.childList, hsame.live, hsame.parent, hsame.childProc, hsame.pid]
    exact ok.held
  waiting p c a w hp := by
    rw [hsame.childList, hsame.pid]
    rw [hpoint, update_apply] at hp
    split at hp
    · next heq =>
        subst heq
        exact hw c a w hp
    · exact ok.waiting p c a w hp
  unborn u hu := by
    rw [hsame.childList, hsame.childProc]
    rw [hpoint, update_apply] at hu
    split at hu
    · exact absurd hu hpt
    · exact ok.unborn u hu
  parent c p hc := by
    rw [hsame.parent] at hc
    rw [hpoint, update_apply]
    split
    · exact hpt
    · exact ok.parent c p hc

lemma Ok.setPoint {pt₀ : Point} (ok : s.Ok) (ht : s.point t = pt₀) (hpt₀ : pt₀ ≠ .unborn)
    (hpt : pt ≠ .unborn) (hw : ∀ c a w, pt = .waiting c a w → a ∈ s.childList t ∧ s.pid a = c) :
    (s.setPoint t pt).Ok :=
  ok.move rfl (by constructor <;> rfl) (ht ▸ hpt₀) hpt hw

lemma mem_childList_execute (hempty : s.childList c = []) (hpc : p ≠ c) (q : Tid) (b : Addr) :
    b ∈ ((s.initThread p c a).addChildProc p c a).childList q ↔
      b ∈ s.childList q ∨ (q = p ∧ b = a) := by
  simp only [initThread, addChildProc, update_apply]
  by_cases hqp : q = p
  · simp [hqp, hpc]
  · by_cases hqc : q = c
    · simp [hqc, hempty, hpc.symm]
    · simp [hqp, hqc]

lemma point_of_execute {d : Tid} (hd : ((s.initThread p c a).addChildProc p c a).point d = pt)
    (hstart : pt ≠ .starting) (hload : ∀ e, pt ≠ .loading e) : s.point d = pt ∧ d ≠ c := by
  simp only [initThread, addChildProc, update_apply] at hd
  split at hd
  next => exact absurd hd.symm (hload c)
  next =>
    split at hd
    next => exact absurd hd.symm hstart
    next h => exact ⟨hd, h⟩

lemma Ok.initThread (ok : s.Ok) (hc : s.point c = .unborn) : (s.initThread p c none).Ok := by
  obtain ⟨hlisted, hnodup, hheld, hwaiting, hunborn, hparent⟩ := ok
  constructor <;> simp only [Processes.initThread, update_apply] <;> grind

lemma ne_of_live (ha : s.live a = false) (hb : s.live b = true) : b ≠ a := by
  rintro rfl
  simp [ha] at hb

lemma Ok.ne_of_listed (ok : s.Ok) (ha : s.live a = false) (hb : b ∈ s.childList p) : b ≠ a :=
  ne_of_live ha (ok.listed p b hb).1

lemma Ok.pid_ne_of_unborn (ok : s.Ok) (hc : s.point c = .unborn) (ha : a ∈ s.childList p) :
    s.pid a ≠ c := by
  intro h
  have hproc := (ok.listed p a ha).2.2
  simp [h, (ok.unborn c hc).1] at hproc

lemma ne_of_unborn (hp : s.point p = .running) (hc : s.point c = .unborn) : p ≠ c := by
  rintro rfl
  simp [hc] at hp

lemma Ok.execute (ok : s.Ok) (hp : s.point p = .running) (hc : s.point c = .unborn)
    (ha : s.live a = false) : ((s.initThread p c a).addChildProc p c a).Ok := by
  have hpc := ne_of_unborn hp hc
  -- A record in use is neither at the new address nor one of the new thread.
  have hlist := mem_childList_execute (a := a) (ok.unborn c hc).2 hpc
  obtain ⟨hlisted, hnodup, hheld, hwaiting, hunborn, hparent⟩ := ok
  constructor
  · intro q b hb
    rw [hlist] at hb
    simp only [Processes.initThread, addChildProc, update_apply]
    grind
  · intro q
    simp only [Processes.initThread, addChildProc, update_apply]
    grind [List.nodup_append]
  · intro d b hd hl hb
    simp only [hlist]
    simp only [Processes.initThread, addChildProc, update_apply] at hd hl hb ⊢
    grind
  · intro q d b w hq
    rw [hlist]
    simp only [Processes.initThread, addChildProc, update_apply] at hq ⊢
    grind
  · simp only [Processes.initThread, addChildProc, update_apply]
    grind
  · simp only [Processes.initThread, addChildProc, update_apply]
    grind

/-- The child reaches no other record than its own, and only its parent lists that. -/
lemma Ok.eq_of_childProc (ok : s.Ok) (hb : b ∈ s.childList p) (hbt : s.pid b = t)
    (ha : s.childProc t = some a) : b = a := by
  have hown := (ok.listed p b hb).2.2
  rw [hbt, ha] at hown
  exact (some.inj hown).symm

lemma Ok.eq_of_listed {q : Tid} (ok : s.Ok) (hp : a ∈ s.childList p) (hq : a ∈ s.childList q) :
    q = p := by
  have hparent := (ok.listed q a hq).2.1
  rw [(ok.listed p a hp).2.1] at hparent
  exact (some.inj hparent).symm

lemma Ok.mem_childList_remove (ok : s.Ok) (ha : a ∈ s.childList p) (q : Tid) (b : Addr) :
    b ∈ (s.removeChildProc p a).childList q ↔ b ∈ s.childList q ∧ b ≠ a := by
  have hnodup := ok.nodup p
  simp only [removeChildProc, update_apply]
  split
  · next h =>
      rw [h, hnodup.mem_erase_iff]
      exact and_comm
  · next h =>
      refine ⟨fun hb => ⟨hb, fun hba => h (ok.eq_of_listed ha (hba ▸ hb))⟩, fun hb => hb.1⟩

lemma Ok.removeChildProc (ok : s.Ok) (ha : a ∈ s.childList p)
    (hp : ∀ c w, s.point p ≠ .waiting c a w) : (s.removeChildProc p a).Ok := by
  have hlist := ok.mem_childList_remove ha
  obtain ⟨hlisted, hnodup, hheld, hwaiting, hunborn, hparent⟩ := ok
  constructor
  · intro q b hb
    rw [hlist] at hb
    simp only [Processes.removeChildProc, update_apply]
    grind
  · intro q
    simp only [Processes.removeChildProc, update_apply]
    grind [List.Nodup.erase]
  · intro d b hd hl hb
    simp only [hlist]
    simp only [Processes.removeChildProc, update_apply] at hd hl hb ⊢
    grind
  · intro q d b w hq
    rw [hlist]
    simp only [Processes.removeChildProc] at hq ⊢
    grind
  · simp only [Processes.removeChildProc, update_apply]
    grind
  · simp only [Processes.removeChildProc]
    grind

lemma Ok.returned (ok : s.Ok) : (s.returned p c).Ok := by
  unfold Processes.returned
  split
  · exact ⟨ok.listed, ok.nodup, ok.held, ok.waiting, ok.unborn, ok.parent⟩
  · exact ok

lemma mem_of_getChildProc (h : s.getChildProc p c = some a) : a ∈ s.childList p ∧ s.pid a = c := by
  unfold getChildProc at h
  have hpid := List.find?_some h
  exact ⟨List.mem_of_find?_eq_some h, of_decide_eq_true hpid⟩

lemma wakeParent_cases (pt : Point) :
    (wakeParent pt = pt ∧ ∀ c a, pt ≠ .waiting c a .sleep) ∨
      ∃ c a, pt = .waiting c a .sleep ∧ wakeParent pt = .waiting c a .down := by
  cases pt with
  | waiting c a w =>
    cases w with
    | sleep => exact .inr ⟨c, a, rfl, rfl⟩
    | _ => exact .inl ⟨rfl, nofun⟩
  | _ => exact .inl ⟨rfl, nofun⟩

lemma wakeParent_eq_waiting (h : wakeParent pt = .waiting c a w) : ∃ w', pt = .waiting c a w' := by
  cases pt with
  | waiting c' a' w' =>
    cases w' <;> cases h <;> exact ⟨_, rfl⟩
  | _ => cases h

lemma wakeParent_ne_unborn (h : pt ≠ .unborn) : wakeParent pt ≠ .unborn := by
  cases pt with
  | unborn => exact absurd rfl h
  | waiting c a w => cases w <;> exact nofun
  | _ => exact nofun

/-- The machine after memory at `a` that no record occupies is written by someone else. -/
def reused (s : Processes) (a : Addr) (pid : Tid) (exit wait : Bool) (status : Int)
    (zombi : Semaphore) : Processes :=
  { s with
    pid := Function.update s.pid a pid
    exit := Function.update s.exit a exit
    wait := Function.update s.wait a wait
    exitStatus := Function.update s.exitStatus a status
    semaZombi := Function.update s.semaZombi a zombi }

section Reused

variable {a b : Addr} {pid : Tid} {exit wait : Bool} {status : Int} {zombi : Semaphore}

lemma reused_pid (ha : s.live a = false) (hb : s.live b = true) :
    (s.reused a pid exit wait status zombi).pid b = s.pid b :=
  update_of_ne (ne_of_live ha hb) _ _

lemma Ok.reuse (ok : s.Ok) (ha : s.live a = false) :
    (s.reused a pid exit wait status zombi).Ok := by
  refine ⟨fun p b hb => ?_, ok.nodup, fun c b hc hl hb => ?_, fun p c b w hp => ?_, ok.unborn,
    ok.parent⟩
  · rw [reused_pid ha (ok.listed p b hb).1]
    exact ok.listed p b hb
  · exact ok.held c b hc hl (reused_pid ha hl ▸ hb)
  · rw [reused_pid ha (ok.listed p b (ok.waiting p c b w hp).1).1]
    exact ok.waiting p c b w hp

end Reused

lemma Ok.step (ok : s.Ok) (h : Step s op s') : s'.Ok := by
  cases h with
  | executeBare _ hc => exact ok.initThread hc
  | execute hp hc ha => exact ok.execute hp hc ha
  | waitRefused hp hc => exact ok.returned
  | waitCalled hp ha hw =>
    refine ok.setPoint hp nofun nofun ?_
    rintro c a w ⟨⟩
    exact mem_of_getChildProc ha
  | waitRemove hp =>
    have hmove : (s.setPoint _ .running).Ok := ok.setPoint hp nofun nofun nofun
    refine (hmove.removeChildProc (ok.waiting _ _ _ _ hp).1 fun c w hw => ?_).returned
    simp [Processes.setPoint] at hw
  | free ht ha =>
    refine ok.removeChildProc (List.mem_of_mem_head? ha) fun c w hw => ?_
    simp [ht] at hw
  | waitSet hp | waitTest hp | waitUp hp _ | waitSleep hp _ | waitDown hp _ | waitRead hp =>
    refine ok.move rfl (by constructor <;> rfl) (by simp [hp]) nofun ?_
    rintro c a w ⟨⟩
    exact ok.waiting _ _ _ _ hp
  | waitWake hp hw hs =>
    have hmove : (s.setPoint _ (.exiting .down)).Ok := ok.setPoint hs nofun nofun nofun
    refine hmove.move rfl (by constructor <;> rfl) ?_ nofun ?_
    · simp only [Processes.setPoint, update_apply]
      split
      · exact nofun
      · simp [hp]
    · rintro c a w ⟨⟩
      exact ok.waiting _ _ _ _ hp
  | startFailed ht _ | startLoaded ht _ | exit ht | threadExit ht | loaded ht _ | store ht _
  | storeSkipped ht _ | print ht | freed ht _ | notify ht _ _ | notifySkipped ht _
  | exitTest ht _ =>
    exact ok.move rfl (by constructor <;> rfl) (by simp [ht]) nofun nofun
  | @exitUp t p ht hp =>
    have hborn := wakeParent_ne_unborn (ok.parent t p hp)
    have hmove : (s.setPoint p (wakeParent (s.point p))).Ok :=
      ok.setPoint rfl (ok.parent t p hp) hborn fun c a w hw => by
        rcases wakeParent_eq_waiting hw with ⟨w', hw'⟩
        exact ok.waiting p c a w' hw'
    refine hmove.move rfl (by constructor <;> rfl) ?_ nofun nofun
    simp only [Processes.setPoint, update_apply]
    split
    · exact hborn
    · simp [ht]
  | exitDown ht _ =>
    refine ok.move rfl (by constructor <;> rfl) (by simp [ht]) ?_ ?_
    · split <;> exact nofun
    · split <;> exact nofun
  | reuse ha => exact ok.reuse ha
  | reorder => exact ⟨ok.listed, ok.nodup, ok.held, ok.waiting, ok.unborn, ok.parent⟩

/-- The address holds the record of `c`, which has not been freed. -/
def Holds (s : Processes) (c : Tid) (a : Addr) : Prop := s.live a = true ∧ s.pid a = c

/-- A thread whose record has been freed is at a point that satisfies `Q`. -/
def StaleAt (Q : Bool → Point → Prop) (s : Processes) : Prop :=
  ∀ c a, s.childProc c = some a → s.Holds c a ∨ Q (s.executable c) (s.point c)

lemma Ok.waiting_held (ok : s.Ok) (hp : s.point p = .waiting c a w) : s.Holds c a :=
  have h := ok.waiting p c a w hp
  ⟨(ok.listed p a h.1).1, h.2⟩

namespace StaleAt

variable {Q : Bool → Point → Prop}

/-- A thread moves on. If its record has been freed then from a point that satisfies `Q`,
and only to such a point. -/
lemma move {t : Tid} {pt : Point} (hs : s.StaleAt Q) (hproc : s'.childProc = s.childProc)
    (hlive : s'.live = s.live) (hpid : s'.pid = s.pid) (hexec : s'.executable = s.executable)
    (hpoint : s'.point = update s.point t pt) (hQ : Q (s.executable t) (s.point t) →
      (∀ a, s.childProc t = some a → s.Holds t a) ∨ Q (s.executable t) pt) : s'.StaleAt Q := by
  intro c a hc
  rw [hproc] at hc
  unfold Holds
  rw [hlive, hpid, hexec, hpoint, update_apply]
  split
  · next hct =>
      subst hct
      rcases hs c a hc with h | h
      · exact .inl h
      · exact (hQ h).imp (fun h => h a hc) id
  · exact hs c a hc

variable {p c : Tid} {a : Addr}

lemma removeChildProc (hs : s.StaleAt Q) (ha : Q (s.executable (s.pid a)) (s.point (s.pid a))) :
    (s.removeChildProc p a).StaleAt Q := by
  intro c b hc
  by_cases hba : b = a
  · subst hba
    rcases hs c b hc with h | h
    · exact .inr (h.2 ▸ ha)
    · exact .inr h
  · unfold Holds
    simp only [Processes.removeChildProc, update_of_ne hba]
    exact hs c b hc

lemma initThread (hs : s.StaleAt Q) (hQ : ∀ b, ¬ Q b .running) (hp : s.point p = .running) :
    (s.initThread p c none).StaleAt Q := by
  intro d b hd
  simp only [Processes.initThread, update_apply] at hd ⊢
  by_cases hdc : d = c
  · simp [hdc] at hd
  · simp only [hdc, ↓reduceIte] at hd ⊢
    have hold := hs d b hd
    split
    · next hdp =>
        rw [hdp, hp] at hold
        exact .inl (hdp ▸ hold.resolve_right (hQ _))
    · exact hold

lemma execute (hs : s.StaleAt Q) (hQ : ∀ b, ¬ Q b .running) (hp : s.point p = .running)
    (ha : s.live a = false) : ((s.initThread p c a).addChildProc p c a).StaleAt Q := by
  intro d b hd
  simp only [Processes.initThread, addChildProc, update_apply, Holds] at hd ⊢
  by_cases hdc : d = c
  · simp only [hdc, ↓reduceIte, some.injEq] at hd ⊢
    simp [hd]
  · simp only [hdc, ↓reduceIte] at hd ⊢
    have hold := hs d b hd
    by_cases hba : b = a
    · -- The address was free, so that the thread which still points to it has no record.
      have hstale := hold.resolve_left fun h => by
        rw [hba] at h
        simp [h.1] at ha
      have hdp : d ≠ p := by
        intro h
        rw [h, hp] at hstale
        exact hQ _ hstale
      simp only [hdp, ↓reduceIte]
      exact .inr hstale
    · simp only [hba, ↓reduceIte]
      split
      · next hdp =>
          rw [hdp, hp] at hold
          exact .inl (hdp ▸ hold.resolve_right (hQ _))
      · exact hold

lemma setExecutable (hs : s.StaleAt Q) (hc : ¬ Q (s.executable c) (s.point c)) :
    StaleAt Q { s with executable := update s.executable c true } := by
  intro d b hd
  have hold := hs d b hd
  dsimp only
  rw [update_apply]
  split
  · next h =>
      rw [h] at hold ⊢
      exact .inl (hold.resolve_right hc)
  · exact hold

lemma reuse {pid : Tid} {exit wait : Bool} {status : Int} {zombi : Semaphore} (hs : s.StaleAt Q)
    (ha : s.live a = false) : (s.reused a pid exit wait status zombi).StaleAt Q :=
  fun c b hc => (hs c b hc).imp_left fun h => ⟨h.1, (reused_pid ha h.1).trans h.2⟩

end StaleAt

end Processes

end Pintos.Userprog
