import Pintos.Userprog.WaitNotification

/-! # What a child's record says

A record tells its parent that the child has set its exit flag, and with which status, as
long as no thread writes to it whose own record was freed. A child can still be written
about while it has no record: then the parent has waited for it, or is exiting.
-/

namespace Pintos.Userprog

open Foundation Lib Threads Function Processes

/-- Past the tests of the flags. A thread without an executable does not come to them. -/
@[simp] def Point.PastFlags (executable : Bool) : Point → Prop
  | .exiting .print | .exiting .free | .exiting .notify => executable = false
  | .exiting .up | .exiting .down | .exiting .sleep | .finished => True
  | _ => False

@[simp] def Point.Leaving : Point → Prop
  | .exiting _ | .finished => True
  | _ => False

namespace Processes

variable {s s' : Processes} {op : Op}

/-- A child gets a record; parent and child that see a flag find the other at its semaphore; and a
parent leaves only children that are past their tests. -/
def FlagsApart (s : Processes) : Op → Prop
  | .execute _ _ a => a ≠ none
  | .next t =>
      (∀ c a, s.point t = .waiting c a .test → s.exit a = true →
        s.point c = .exiting .down ∨ s.point c = .exiting .sleep) ∧
      (∀ a, s.point t = .exiting .test → s.childProc t = some a → s.wait a = true →
        ∃ p w, s.parent t = some p ∧ s.point p = .waiting t a w ∧ w.Blocking) ∧
      (s.point t = .exiting .free → ∀ a, (s.childList t).head? = some a →
        (s.point (s.pid a)).PastFlags (s.executable (s.pid a)))
  | _ => True

/-! ## Records and waits -/

/-- Every child has a record until its parent has waited for it or exits. -/
structure Recorded (s : Processes) : Prop where
  record : ∀ c p, s.parent c = some p → s.childProc c ≠ none
  waited : ∀ c a, s.waited c = true → s.childProc c = some a → ¬ s.Holds c a
  freed : ∀ c p a, s.parent c = some p → s.childProc c = some a →
    s.Holds c a ∨ s.waited c = true ∨ (s.point p).Leaving

lemma Start.recorded (h : Start s) : s.Recorded where
  record c p hc := by
    simp [h.parent] at hc
  waited c a hc := by
    simp [(h.history c).2] at hc
  freed c p a hc := by
    simp [h.parent] at hc

variable {t p c : Tid} {pt : Point} {a : Addr} {v : Int}

lemma Recorded.move (hr : s.Recorded) (hpoint : s'.point = update s.point t pt)
    (hsame : SameRecords s s') (hwaited : s'.waited = s.waited)
    (hpt : (s.point t).Leaving → pt.Leaving) : s'.Recorded := by
  constructor
  · rw [hsame.parent, hsame.childProc]
    exact hr.record
  · unfold Holds
    rw [hsame.childProc, hsame.live, hsame.pid, hwaited]
    exact hr.waited
  · unfold Holds
    rw [hsame.parent, hsame.childProc, hsame.live, hsame.pid, hwaited]
    intro c p a hc ha
    refine (hr.freed c p a hc ha).imp_right (Or.imp_right fun hp => ?_)
    rw [hpoint, update_apply]
    split
    · next h => exact hpt (h ▸ hp)
    · exact hp

lemma Recorded.execute (hr : s.Recorded) (ok : s.Ok) (hp : s.point p = .running)
    (hc : s.point c = .unborn) (ha : s.live a = false) :
    ((s.initThread p c a).addChildProc p c a).Recorded := by
  have hheld : ∀ d b, d ≠ c →
      (((s.initThread p c a).addChildProc p c a).Holds d b ↔ s.Holds d b) := by
    intro d b hdc
    simp only [Holds, initThread, addChildProc, update_apply]
    by_cases hba : b = a
    · simp [hba, ha, hdc.symm]
    · simp [hba]
  constructor
  · intro d q hd
    simp only [initThread, addChildProc, update_apply] at hd ⊢
    split
    · simp
    · next h => exact hr.record d q (by rwa [if_neg h] at hd)
  · intro d b hw hd
    by_cases hdc : d = c
    · simp [initThread, addChildProc, hdc] at hw
    · rw [hheld d b hdc]
      simp only [initThread, addChildProc, update_of_ne hdc] at hw hd
      exact hr.waited d b hw hd
  · intro d q b hd hb
    by_cases hdc : d = c
    · subst hdc
      simp only [initThread, addChildProc, update_self, Option.some.injEq] at hb
      exact .inl (by simp [Holds, initThread, addChildProc, hb])
    · rw [hheld d b hdc]
      simp only [initThread, addChildProc, update_of_ne hdc] at hd hb ⊢
      refine (hr.freed d q b hd hb).imp_right (Or.imp_right fun hq => ?_)
      have hqp : q ≠ p := by
        rintro rfl
        rwa [hp] at hq
      have hqc : q ≠ c := by
        rintro rfl
        exact ok.parent d q hd hc
      rwa [update_of_ne hqp, update_of_ne hqc]

lemma holds_removeChildProc {b : Addr} :
    (s.removeChildProc p a).Holds c b ↔ s.Holds c b ∧ b ≠ a := by
  simp only [Holds, removeChildProc, update_apply]
  by_cases hba : b = a <;> simp [hba]

lemma Recorded.free (hr : s.Recorded) (ok : s.Ok) (ha : a ∈ s.childList p)
    (hp : (s.point p).Leaving) : (s.removeChildProc p a).Recorded := by
  refine ⟨hr.record, fun d b hw hd h => ?_, fun d q b hd hb => ?_⟩
  · exact hr.waited d b hw hd (holds_removeChildProc.mp h).1
  · rw [holds_removeChildProc]
    rcases hr.freed d q b hd hb with h | h
    · by_cases hba : b = a
      · have hparent := (ok.listed p a ha).2.1
        rw [← hba, h.2, show s.parent d = some q from hd] at hparent
        cases hparent
        exact .inr (.inr hp)
      · exact .inl ⟨h, hba⟩
    · exact .inr h

lemma Recorded.returned (hrecord : ∀ d q, s.parent d = some q → s.childProc d ≠ none)
    (hwaited : ∀ d a, s.waited d = true → s.childProc d = some a → ¬ s.Holds d a)
    (hc : s.parent c = some p → ∀ a, s.childProc c = some a → ¬ s.Holds c a)
    (hfreed : ∀ d q a, s.parent d = some q → s.childProc d = some a →
      s.Holds d a ∨ s.waited d = true ∨ (s.point q).Leaving ∨ (d = c ∧ s.parent c = some p)) :
    (s.returned p c).Recorded := by
  have hflag : ∀ d, (s.returned p c).waited d = true ↔
      s.waited d = true ∨ (d = c ∧ s.parent c = some p) := by
    intro d
    unfold Processes.returned
    split
    · next h =>
        simp only [update_apply]
        by_cases hdc : d = c
        · simp [hdc, h]
        · simp [hdc]
    · next h => simp [h]
  have hsame : SameRecords s (s.returned p c) ∧ (s.returned p c).point = s.point := by
    unfold Processes.returned
    split <;> exact ⟨⟨rfl, rfl, rfl, rfl, rfl⟩, rfl⟩
  rcases hsame with ⟨hsame, hpoint⟩
  constructor
  · rwa [hsame.parent, hsame.childProc]
  · unfold Holds at hwaited hc ⊢
    rw [hsame.childProc, hsame.live, hsame.pid]
    intro d a hw hd
    rcases (hflag d).mp hw with hw | ⟨rfl, hparent⟩
    · exact hwaited d a hw hd
    · exact hc hparent a hd
  · unfold Holds at hfreed ⊢
    rw [hsame.parent, hsame.childProc, hsame.live, hsame.pid, hpoint]
    intro d q a hd ha
    rw [hflag]
    rcases hfreed d q a hd ha with h | h | h | h
    · exact .inl h
    · exact .inr (.inl (.inl h))
    · exact .inr (.inr h)
    · exact .inr (.inl (.inr h))

lemma Recorded.waitRefused (hr : s.Recorded)
    (hc : s.parent c = some p → ∀ a, s.childProc c = some a → ¬ s.Holds c a) :
    (s.returned p c).Recorded :=
  .returned hr.record hr.waited hc fun d q a hd ha =>
    (hr.freed d q a hd ha).imp_right (Or.imp_right .inl)

lemma Recorded.waitRemove {w : WaitPoint} (hr : s.Recorded) (ok : s.Ok)
    (hp : s.point p = .waiting c a w) :
    (((s.setPoint p .running).removeChildProc p a).returned p c).Recorded := by
  have hmove : (s.setPoint p .running).Recorded :=
    hr.move rfl (by constructor <;> rfl) rfl (by simp [hp])
  have hlisted := ok.waiting p c a w hp
  have hown := ok.listed p a hlisted.1
  rw [hlisted.2] at hown
  refine .returned hmove.record (fun d b hw hd h => ?_) (fun _ b hb h => ?_) fun d q b hd hb => ?_
  · exact hmove.waited d b hw hd (holds_removeChildProc.mp h).1
  · rw [show s.childProc c = some b from hb] at hown
    exact (holds_removeChildProc.mp h).2 (Option.some.inj hown.2.2)
  · rw [holds_removeChildProc]
    rcases hmove.freed d q b hd hb with h | h | h
    · by_cases hba : b = a
      · refine .inr (.inr (.inr ⟨?_, hown.2.1⟩))
        rw [← h.2, hba]
        exact hlisted.2
      · exact .inl ⟨h, hba⟩
    · exact .inr (.inl h)
    · exact .inr (.inr (.inl h))

variable {pid : Tid} {exit wait : Bool} {status : Int} {zombi : Semaphore}

lemma Recorded.reuse (hr : s.Recorded) (ha : s.live a = false) :
    (s.reused a pid exit wait status zombi).Recorded := by
  refine ⟨hr.record, fun c b hw hc h => ?_, fun c p b hc hb => ?_⟩
  · exact hr.waited c b hw hc ⟨h.1, (reused_pid ha h.1).symm.trans h.2⟩
  · exact (hr.freed c p b hc hb).imp_left fun h => ⟨h.1, (reused_pid ha h.1).trans h.2⟩

lemma wakeParent_leaving : pt.Leaving → (wakeParent pt).Leaving := by
  intro h
  rcases wakeParent_cases pt with ⟨heq, -⟩ | ⟨c, a, heq, -⟩
  · rwa [heq]
  · simp [heq] at h

lemma Recorded.step (hr : s.Recorded) (ok : s.Ok) (h : Step s op s') (hg : s.FlagsApart op)
    (hwait : ∀ p, s.point p = .running → ∀ a ∈ s.childList p, s.wait a = false) : s'.Recorded := by
  cases h with
  | executeBare _ _ => exact absurd rfl hg
  | execute hp hc ha => exact hr.execute ok hp hc ha
  | @waitRefused p c hp hc =>
    refine hr.waitRefused fun hparent a ha hheld => ?_
    obtain ⟨q, hq, hlisted⟩ := ok.held c a ha hheld.1 hheld.2
    rw [hparent] at hq
    cases hq
    cases hfind : s.getChildProc p c with
    | none =>
      exact absurd (decide_eq_true hheld.2) (List.find?_eq_none.mp hfind a hlisted)
    | some b =>
      have hb := hwait p hp b (mem_of_getChildProc hfind).1
      simp [hc b hfind] at hb
  | waitRemove hp => exact hr.waitRemove ok hp
  | free ht ha => exact hr.free ok (List.mem_of_mem_head? ha) (by simp [ht])
  | @waitWake p c w a hp _ hw =>
    have hwake : (s.setPoint w (.exiting .down)).Recorded :=
      hr.move rfl (by constructor <;> rfl) rfl fun _ => trivial
    refine hwake.move rfl (by constructor <;> rfl) rfl fun h => ?_
    simp only [setPoint, update_apply] at h
    split at h
    · next hpw =>
        simp [← hpw, hp] at hw
    · simp [hp] at h
  | @exitUp t p ht hp =>
    have hwake : (s.setPoint p (wakeParent (s.point p))).Recorded :=
      hr.move rfl (by constructor <;> rfl) rfl wakeParent_leaving
    exact hwake.move rfl (by constructor <;> rfl) rfl fun _ => trivial
  | exitDown ht ha =>
    refine hr.move rfl (by constructor <;> rfl) rfl fun _ => ?_
    split <;> trivial
  | startFailed ht _ | startLoaded ht _ | waitCalled ht _ _ | exit ht | threadExit ht
  | loaded ht _ | waitSet ht | waitTest ht | waitSleep ht _ | waitDown ht _ | waitRead ht
  | waitUp ht _ | store ht _ | storeSkipped ht _ | exitTest ht _ | notify ht _ _ | print ht
  | freed ht _ | notifySkipped ht _ =>
    exact hr.move rfl (by constructor <;> rfl) rfl (by simp [ht])
  | reuse ha => exact hr.reuse ha
  | reorder => exact ⟨hr.record, hr.waited, hr.freed⟩

/-! ## Exit flags -/

/-- The record of a child tells what the child has done. -/
structure Recording (s : Processes) : Prop where
  stale : s.StaleAt Point.PastFlags
  exit : ∀ p, ∀ a ∈ s.childList p, s.exit a = s.exited (s.pid a)
  status : ∀ p, ∀ a ∈ s.childList p, (∀ v, s.point (s.pid a) ≠ .exiting (.store v)) →
    s.exitStatus a = (s.passed (s.pid a)).getD error
  exited : ∀ c, (s.point c).Notifying → s.exited c = true
  ended : ∀ c, s.exited c = true → (s.point c).Notifying ∨ s.point c = .finished
  passed : ∀ c v, s.point c = .exiting (.store v) → s.passed c = some v

lemma Start.recording (h : Start s) : s.Recording where
  stale c a hc := by
    simp [h.childProc] at hc
  exit p a ha := by
    simp [h.childList] at ha
  status p a ha := by
    simp [h.childList] at ha
  exited c hc := by
    rcases h.point c with hq | hq <;> rw [hq] at hc <;> cases hc
  ended c hc := by
    simp [(h.history c).1] at hc
  passed c v hc := by
    rcases h.point c with hq | hq <;> rw [hq] at hc <;> cases hc

structure SameHistory (s s' : Processes) : Prop where
  exit : s'.exit = s.exit
  exitStatus : s'.exitStatus = s.exitStatus
  executable : s'.executable = s.executable
  passed : s'.passed = s.passed
  exited : s'.exited = s.exited

section

variable (hr : s.Recording) (hpoint : s'.point = update s.point t pt)
include hr hpoint

lemma Recording.move (hsame : SameRecords s s') (hhist : SameHistory s s')
    (hstale : (s.point t).PastFlags (s.executable t) → pt.PastFlags (s.executable t))
    (hstatus : ∀ v, s.point t = .exiting (.store v) → ∀ p, ∀ a ∈ s.childList p, s.pid a = t →
      s.exitStatus a = (s.passed t).getD error) (hexited : pt.Notifying → s.exited t = true)
    (hover : s.exited t = true → pt.Notifying ∨ pt = .finished)
    (hpassed : ∀ v, pt ≠ .exiting (.store v)) :
    s'.Recording := by
  have hpt : ∀ u, s'.point u = if u = t then pt else s.point u := by
    intro u
    rw [hpoint, update_apply]
  constructor
  · exact hr.stale.move hsame.childProc hsame.live hsame.pid hhist.executable hpoint
      fun h => .inr (hstale h)
  · rw [hsame.childList, hsame.pid, hhist.exit, hhist.exited]
    exact hr.exit
  · intro p a ha hne
    rw [hsame.childList] at ha
    rw [hsame.pid] at hne ⊢
    rw [hhist.exitStatus, hhist.passed]
    by_cases hat : s.pid a = t
    · by_cases hold : ∃ v, s.point t = .exiting (.store v)
      · obtain ⟨v, hv⟩ := hold
        rw [hat]
        exact hstatus v hv p a ha hat
      · exact hr.status p a ha fun v hv => hold ⟨v, hat ▸ hv⟩
    · refine hr.status p a ha fun v => ?_
      have h := hne v
      rwa [hpt, if_neg hat] at h
  · intro c hc
    rw [hhist.exited]
    rw [hpt] at hc
    split at hc
    · next h => exact h ▸ hexited hc
    · exact hr.exited c hc
  · intro c hc
    rw [hhist.exited] at hc
    rw [hpt]
    split
    · next h => exact hover (h ▸ hc)
    · exact hr.ended c hc
  · intro c v hc
    rw [hhist.passed]
    rw [hpt] at hc
    split at hc
    · exact absurd hc (hpassed v)
    · exact hr.passed c v hc

lemma Recording.moveEarly (hsame : SameRecords s s') (hhist : SameHistory s s')
    (hstale : (s.point t).PastFlags (s.executable t) → pt.PastFlags (s.executable t))
    (hstore : ∀ v, s.point t ≠ .exiting (.store v)) (hn : ¬ (s.point t).Notifying)
    (hf : s.point t ≠ .finished) (hpt : ¬ pt.Notifying) (hpassed : ∀ v, pt ≠ .exiting (.store v)) :
    s'.Recording := by
  refine hr.move hpoint hsame hhist hstale (fun v hv => absurd hv (hstore v))
    (fun h => absurd h hpt) (fun h => ?_) hpassed
  rcases hr.ended t h with h | h
  · exact absurd h hn
  · exact absurd h hf

lemma Recording.moveLate (hsame : SameRecords s s') (hhist : SameHistory s s')
    (hn : (s.point t).Notifying) (hpt : (pt.Notifying ∧ pt ≠ .exiting .test) ∨ pt = .finished) :
    s'.Recording := by
  refine hr.move hpoint hsame hhist (fun _ => ?_) (fun v hv => ?_) (fun _ => hr.exited t hn)
    (fun _ => hpt.imp_left And.left) (fun v hv => ?_)
  · rcases hpt with ⟨h, hne⟩ | rfl
    · cases pt with
      | exiting e =>
        cases e with
        | test => exact absurd rfl hne
        | up | down | sleep => trivial
        | _ => cases h
      | _ => cases h
    · trivial
  · simp [hv] at hn
  · rw [hv] at hpt
    rcases hpt with ⟨h, -⟩ | h <;> cases h

end

section

variable (hr : s.Recording)
include hr

lemma Recording.execute (ok : s.Ok) (hp : s.point p = .running)
    (hc : s.point c = .unborn) (ha : s.live a = false) :
    ((s.initThread p c a).addChildProc p c a).Recording := by
  have hlist := mem_childList_execute (a := a) (ok.unborn c hc).2 (ne_of_unborn hp hc)
  have hne : ∀ q, ∀ b ∈ s.childList q, b ≠ a := fun q b hb => ok.ne_of_listed ha hb
  have hpid := fun q b hb => ok.pid_ne_of_unborn (p := q) (a := b) hc hb
  have hpoint : ∀ d, d ≠ c → ((s.initThread p c a).addChildProc p c a).point d =
      if d = p then .loading c else s.point d := by
    intro d hd
    simp only [initThread, addChildProc, update_apply, hd, ↓reduceIte]
  constructor
  · exact hr.stale.execute (fun _ => id) hp ha
  · intro q b hb
    rcases (hlist q b).mp hb with hb | ⟨rfl, rfl⟩
    · simp only [initThread, addChildProc, update_of_ne (hne q b hb), update_of_ne (hpid q b hb)]
      exact hr.exit q b hb
    · simp [initThread, addChildProc]
  · intro q b hb hst
    rcases (hlist q b).mp hb with hb | ⟨rfl, rfl⟩
    · simp only [initThread, addChildProc, update_of_ne (hne q b hb),
        update_of_ne (hpid q b hb)] at hst ⊢
      refine hr.status q b hb fun v hv => hst v ?_
      rw [update_apply]
      split
      · next h =>
          simp [h, hp] at hv
      · rwa [update_of_ne (hpid q b hb)]
    · simp [initThread, addChildProc, initExitStatus, error]
  · intro d hd
    have hpt : ((s.initThread p c a).addChildProc p c a).point d = _ := rfl
    obtain ⟨hold, hdc⟩ := point_of_execute hpt (fun h => by rw [h] at hd; cases hd)
      fun e h => by rw [h] at hd; cases hd
    rw [← hold] at hd
    simp only [initThread, addChildProc, update_of_ne hdc]
    exact hr.exited d hd
  · intro d hd
    by_cases hdc : d = c
    · simp [initThread, addChildProc, hdc] at hd
    · simp only [initThread, addChildProc, update_of_ne hdc] at hd
      rw [hpoint d hdc]
      have hold := hr.ended d hd
      split
      · next h =>
          rw [h, hp] at hold
          rcases hold with h | h <;> cases h
      · exact hold
  · intro d v hd
    obtain ⟨hold, hdc⟩ := point_of_execute hd (by simp) (by simp)
    simp only [initThread, addChildProc, update_of_ne hdc]
    exact hr.passed d v hold

lemma Recording.startLoaded {n : Nat} (hc : s.point c = .starting) :
    Recording { s.setPoint c .running with
      semaLoad := update s.semaLoad c n
      executable := update s.executable c true } := by
  have hexec : Recording { s with executable := update s.executable c true } :=
    ⟨hr.stale.setExecutable (by simp [hc]), hr.exit, hr.status, hr.exited, hr.ended, hr.passed⟩
  exact hexec.moveEarly rfl (by constructor <;> rfl) (by constructor <;> rfl) (by simp [hc])
    (by simp [hc]) (by simp [hc]) (by simp [hc]) nofun nofun

lemma Recording.call (ht : s.point t = .running) :
    Recording { s.setPoint t (.exiting (.store v)) with
      passed := update s.passed t (some v) } := by
  have hpt : ∀ u, update s.point t (.exiting (.store v)) u =
      if u = t then .exiting (.store v) else s.point u := fun u => update_apply ..
  constructor
  · exact hr.stale.move rfl rfl rfl rfl rfl (by simp [ht])
  · exact hr.exit
  · intro p a ha hne
    have hat : s.pid a ≠ t := by
      rintro rfl
      exact hne v (update_self ..)
    simp only [setPoint, update_of_ne hat] at hne ⊢
    exact hr.status p a ha hne
  · intro c hc
    simp only [setPoint, hpt] at hc
    split at hc
    · cases hc
    · exact hr.exited c hc
  · intro c hc
    have hold := hr.ended c hc
    simp only [setPoint, hpt]
    split
    · next h =>
        rw [h, ht] at hold
        rcases hold with h | h <;> cases h
    · exact hold
  · intro c w hc
    simp only [setPoint, hpt, update_apply] at hc ⊢
    split at hc
    · next h =>
        cases hc
        exact if_pos h
    · next h =>
        rw [if_neg h]
        exact hr.passed c w hc

lemma Recording.own (ha : s.childProc t = some a)
    (ht : ¬ (s.point t).PastFlags (s.executable t)) : s.pid a = t :=
  ((hr.stale t a ha).resolve_right ht).2

lemma Recording.store (ok : s.Ok) (ht : s.point t = .exiting (.store v))
    (ha : s.childProc t = some a) :
    Recording { s.setPoint t (.exiting .print) with
      exitStatus := update s.exitStatus a v } := by
  have hown := hr.own ha (by simp [ht])
  have hstored : Recording { s with exitStatus := update s.exitStatus a v } := by
    refine ⟨hr.stale, hr.exit, fun p b hb hne => ?_, hr.exited, hr.ended, hr.passed⟩
    have hba : b ≠ a := by
      rintro rfl
      exact hne v (hown ▸ ht)
    exact (update_of_ne hba _ _).trans (hr.status p b hb hne)
  refine hstored.move rfl (by constructor <;> rfl) (by constructor <;> rfl) (by simp [ht])
    (fun w _ p b hb hbt => ?_) nofun (fun h => ?_) nofun
  · rw [ok.eq_of_childProc hb hbt ha, show s.passed t = some v from hr.passed t v ht]
    exact update_self ..
  · rcases hr.ended t h with h | h <;> rw [ht] at h <;> cases h

lemma Recording.storeSkipped (ok : s.Ok)
    (ht : s.point t = .exiting (.store v)) (ha : s.childProc t = none ∨ s.parentExists t = false) :
    (s.setPoint t (.exiting .print)).Recording := by
  refine hr.move rfl (by constructor <;> rfl) (by constructor <;> rfl) (by simp [ht])
    (fun w _ p b hb hbt => ?_) nofun (fun h => ?_) nofun
  · -- A child that is listed has both a record and a parent.
    have hown := ok.listed p b hb
    rw [hbt] at hown
    rcases ha with ha | ha
    · rw [ha] at hown
      cases hown.2.2
    · simp [parentExists, hown.2.1, threadExist, ok.parent t p hown.2.1] at ha
  · rcases hr.ended t h with h | h <;> rw [ht] at h <;> cases h

lemma Recording.notify (ok : s.Ok) (ht : s.point t = .exiting .notify)
    (ha : s.childProc t = some a) (he : s.executable t = true) :
    Recording { s.setPoint t (.exiting .test) with
      exit := update s.exit a true
      exited := update s.exited t true } := by
  have hown := hr.own ha (by simp [ht, he])
  have hpt : ∀ u, update s.point t (.exiting .test) u =
      if u = t then .exiting .test else s.point u := fun u => update_apply ..
  constructor
  · exact hr.stale.move rfl rfl rfl rfl rfl (by simp [ht, he])
  · intro p b hb
    simp only [setPoint, update_apply]
    by_cases hbt : s.pid b = t
    · rw [ok.eq_of_childProc hb hbt ha]
      simp [hown]
    · have hba : b ≠ a := by
        rintro rfl
        exact hbt hown
      simp only [hbt, hba, ↓reduceIte]
      exact hr.exit p b hb
  · intro p b hb hne
    refine hr.status p b hb fun v hv => hne v ?_
    simp only [setPoint, hpt]
    split
    · next h =>
        simp [h, ht] at hv
    · exact hv
  · intro c hc
    simp only [setPoint, hpt, update_apply] at hc ⊢
    split
    · rfl
    · next h =>
        rw [if_neg h] at hc
        exact hr.exited c hc
  · intro c hc
    simp only [setPoint, hpt, update_apply] at hc ⊢
    split
    · exact .inl trivial
    · next h =>
        rw [if_neg h] at hc
        exact hr.ended c hc
  · intro c v hc
    simp only [setPoint, hpt] at hc
    split at hc
    · cases hc
    · exact hr.passed c v hc

lemma Recording.removeChildProc (ha : (s.point (s.pid a)).PastFlags (s.executable (s.pid a))) :
    (s.removeChildProc p a).Recording := by
  have hlist : ∀ q, ∀ b ∈ (s.removeChildProc p a).childList q, b ∈ s.childList q := by
    intro q b hb
    simp only [Processes.removeChildProc, update_apply] at hb
    split at hb
    · next h => exact h ▸ List.mem_of_mem_erase hb
    · exact hb
  exact ⟨hr.stale.removeChildProc ha, fun q b hb => hr.exit q b (hlist q b hb),
    fun q b hb => hr.status q b (hlist q b hb), hr.exited, hr.ended, hr.passed⟩

lemma Recording.returned : (s.returned p c).Recording := by
  unfold Processes.returned
  split
  · exact ⟨hr.stale, hr.exit, hr.status, hr.exited, hr.ended, hr.passed⟩
  · exact hr

lemma Recording.reuse (ok : s.Ok) (ha : s.live a = false) :
    (s.reused a pid exit wait status zombi).Recording := by
  refine ⟨hr.stale.reuse ha, fun p b hb => ?_, fun p b hb hst => ?_, hr.exited, hr.ended, hr.passed⟩
  · simp only [reused, update_of_ne (ok.ne_of_listed ha hb)]
    exact hr.exit p b hb
  · simp only [reused, update_of_ne (ok.ne_of_listed ha hb)] at hst ⊢
    exact hr.status p b hb hst

lemma Recording.wake : (s.setPoint p (wakeParent (s.point p))).Recording := by
  rcases wakeParent_cases (s.point p) with ⟨h, -⟩ | ⟨c, a, hp, h⟩
  · rwa [h, setPoint, update_eq_self]
  · rw [h]
    exact hr.moveEarly rfl (by constructor <;> rfl) (by constructor <;> rfl) (by simp [hp])
      (by simp [hp]) (by simp [hp]) (by simp [hp]) (by simp) (by simp)

lemma Recording.step (ok : s.Ok) (h : Step s op s') (hg : s.FlagsApart op)
    (hremove : ∀ p c a r, s.point p = .waiting c a (.remove r) →
      (s.point c).PastFlags (s.executable c)) : s'.Recording := by
  cases h with
  | executeBare _ _ => exact absurd rfl hg
  | execute hp hc ha => exact hr.execute ok hp hc ha
  | startLoaded hc _ => exact hr.startLoaded hc
  | waitRefused _ _ => exact hr.returned
  | exit ht => exact hr.call ht
  | @waitRemove p c a r hp =>
    have hmove : (s.setPoint p .running).Recording :=
      hr.moveEarly rfl (by constructor <;> rfl) (by constructor <;> rfl) (by simp [hp])
        (by simp [hp]) (by simp [hp]) (by simp [hp]) (by simp) (by simp)
    refine (hmove.removeChildProc ?_).returned
    have hpast := hremove p c a r hp
    have hcp : c ≠ p := by
      rintro rfl
      simp [hp] at hpast
    simp only [setPoint]
    rwa [(ok.waiting p c a _ hp).2, update_of_ne hcp]
  | free ht ha => exact hr.removeChildProc (hg.2.2 ht _ ha)
  | @waitWake p c w a hp _ hw =>
    have hwake : (s.setPoint w (.exiting .down)).Recording :=
      hr.moveLate rfl (by constructor <;> rfl) (by constructor <;> rfl) (by simp [hw])
        (.inl ⟨trivial, (by simp)⟩)
    have hpw : p ≠ w := by
      rintro rfl
      simp [hp] at hw
    have hp' : (s.setPoint w (.exiting .down)).point p = .waiting c a .up := by
      simp [setPoint, hpw, hp]
    exact hwake.moveEarly rfl (by constructor <;> rfl) (by constructor <;> rfl)
      (by simp [hp']) (by simp [hp']) (by simp [hp']) (by simp [hp']) (by simp) (by simp)
  | store ht ha => exact hr.store ok ht ha
  | storeSkipped ht ha => exact hr.storeSkipped ok ht ha
  | notify ht ha he => exact hr.notify ok ht ha he
  | exitTest ht _ =>
    refine hr.moveLate rfl (by constructor <;> rfl) (by constructor <;> rfl) (by simp [ht]) ?_
    split <;> exact .inl ⟨trivial, (by simp)⟩
  | @exitUp t p ht hp =>
    refine (hr.wake (p := p)).moveLate rfl (by constructor <;> rfl) (by constructor <;> rfl) ?_
      (.inr rfl)
    simp only [setPoint, update_apply]
    split
    · next h =>
        rw [← h, ht]
        trivial
    · rw [ht]
      trivial
  | exitDown ht _ =>
    refine hr.moveLate rfl (by constructor <;> rfl) (by constructor <;> rfl) (by simp [ht]) ?_
    split
    · exact .inr rfl
    · exact .inl ⟨trivial, (by simp)⟩
  | startFailed ht _ | waitCalled ht _ _ | threadExit ht | loaded ht _ | waitSet ht
  | waitTest ht | waitSleep ht _ | waitDown ht _ | waitRead ht | waitUp ht _ | print ht
  | freed ht _ | notifySkipped ht _ =>
    exact hr.moveEarly rfl (by constructor <;> rfl) (by constructor <;> rfl) (by simp [ht])
      (by simp [ht]) (by simp [ht]) (by simp [ht]) (by simp) (by simp)
  | reuse ha => exact hr.reuse ok ha
  | reorder => exact ⟨hr.stale, hr.exit, hr.status, hr.exited, hr.ended, hr.passed⟩

end

end Processes

end Pintos.Userprog
