import Pintos.Userprog.ExitRecords

/-! # The status that a wait returns

Both sides may see each other's flag. The parent then wakes the child and returns, and the
child still ups `sema_wait`: the next wait, on whatever child, takes that credit and returns
early. Runs in which the two tests of the flags fall apart leave no such credit, and every
wait in them returns the status of its child.
-/

namespace Pintos.Userprog

open Foundation Threads Function

/-- Past the notification of the parent, but for the sleep on `sema_zombi`. -/
@[simp] def Point.Over : Point → Prop
  | .exiting .down | .exiting .sleep | .finished => True
  | _ => False

/-- Past the rendezvous with the child. -/
@[simp] def WaitPoint.Met : WaitPoint → Prop
  | .up | .read | .remove _ => True
  | _ => False

namespace Processes

variable {s s' : Processes} {op : Op}

/-- The parent, the child and the result when the step ends a `process_wait`. -/
def waitReturn (s : Processes) : Op → Option (Tid × Tid × Int)
  | .wait p c =>
      match s.getChildProc p c with
      | none => some (p, c, error)
      | some a => if s.wait a then some (p, c, error) else none
  | .next p =>
      match s.point p with
      | .waiting c _ (.remove r) => some (p, c, r)
      | _ => none
  | _ => none

/-- The first return for a loaded child gives the status it passed to `exit`, or `-1` without one,
after its flag was set; later ones give `-1`. -/
def ReturnsStatus (s : Processes) (op : Op) : Prop :=
  ∀ p c r, s.waitReturn op = some (p, c, r) → s.parent c = some p → s.executable c = true →
    if s.waited c then r = error else s.exited c = true ∧ r = (s.passed c).getD error

/-! ## Waits -/

/-- What `process_wait` knows past the rendezvous, and where credits on `sema_wait` come from. -/
structure Waits (s : Processes) : Prop where
  wait : ∀ p, ∀ a ∈ s.childList p, s.wait a = true →
    ∃ w, w ≠ .set ∧ s.point p = .waiting (s.pid a) a w
  seen : ∀ p c a w, s.point p = .waiting c a w → w.Met → s.exited c = true ∧ (s.point c).Over
  result : ∀ p c a r, s.point p = .waiting c a (.remove r) → r = (s.passed c).getD error
  up : ∀ c, s.point c = .exiting .up →
    ∃ p a w, s.parent c = some p ∧ s.point p = .waiting c a w ∧ w.Blocking
  credit : ∀ p, s.semaWait p ≠ 0 → s.semaWait p = 1 ∧
    ∃ c a, s.point p = .waiting c a .down ∧ s.exited c = true ∧ s.point c = .finished

lemma Start.waits (h : Start s) : s.Waits where
  wait p a ha := by
    simp [h.childList] at ha
  seen p c a w hp := by
    rcases h.point p with hq | hq <;> rw [hq] at hp <;> cases hp
  result p c a r hp := by
    rcases h.point p with hq | hq <;> rw [hq] at hp <;> cases hp
  up c hc := by
    rcases h.point c with hq | hq <;> rw [hq] at hc <;> cases hc
  credit p hp := absurd (h.semaWait p) hp

/-- What `Waits` is about, apart from the points. -/
structure SameWaits (s s' : Processes) : Prop where
  childList : s'.childList = s.childList
  pid : s'.pid = s.pid
  parent : s'.parent = s.parent
  wait : s'.wait = s.wait
  passed : s'.passed = s.passed
  exited : s'.exited = s.exited
  semaWait : s'.semaWait = s.semaWait

variable {t c p : Tid} {a : Addr}

section

variable (hw : s.Waits)
include hw

lemma Waits.move {pt : Point} (hpoint : s'.point = update s.point t pt) (hsame : SameWaits s s')
    (hfin : s.point t ≠ .finished) (hover : (s.point t).Over → pt.Over)
    (hchild : pt = .exiting .up →
      ∃ p a w, p ≠ t ∧ s.parent t = some p ∧ s.point p = .waiting t a w ∧ w.Blocking)
    (hwait : ∀ a ∈ s.childList t, s.wait a = true → ∃ w, w ≠ .set ∧ pt = .waiting (s.pid a) a w)
    (hseen : ∀ c a w, pt = .waiting c a w → w.Met → s.exited c = true ∧ (s.point c).Over)
    (hresult : ∀ c a r, pt = .waiting c a (.remove r) → r = (s.passed c).getD error)
    (hup : ∀ c a w, s.point t = .waiting c a w → w.Blocking → s.point c = .exiting .up →
      ∃ b v, pt = .waiting c b v ∧ v.Blocking) (hcredit : s.semaWait t ≠ 0 →
      ∃ c a, pt = .waiting c a .down ∧ s.exited c = true ∧ s.point c = .finished) :
    s'.Waits := by
  have hpt : ∀ u, s'.point u = if u = t then pt else s.point u := by
    intro u
    rw [hpoint, update_apply]
  -- A thread that is past its notification stays so.
  have hkeep : ∀ c, (s.point c).Over → (s'.point c).Over := by
    intro c hc
    rw [hpt]
    split
    · next h => exact hover (h ▸ hc)
    · exact hc
  have hstay : ∀ c, s.point c = .finished → s'.point c = .finished := by
    intro c hc
    rw [hpt, if_neg]
    · exact hc
    · rintro rfl
      exact hfin hc
  constructor
  · intro p a ha hflag
    rw [hsame.childList] at ha
    rw [hsame.wait] at hflag
    rw [hpt, hsame.pid]
    split
    · next h =>
        subst h
        exact hwait a ha hflag
    · exact hw.wait p a ha hflag
  · intro p c a w hp hmet
    rw [hsame.exited]
    rw [hpt] at hp
    have hold : s.exited c = true ∧ (s.point c).Over := by
      split at hp
      · exact hseen c a w hp hmet
      · exact hw.seen p c a w hp hmet
    exact ⟨hold.1, hkeep c hold.2⟩
  · intro p c a r hp
    rw [hsame.passed]
    rw [hpt] at hp
    split at hp
    · exact hresult c a r hp
    · exact hw.result p c a r hp
  · intro c hc
    rw [hsame.parent]
    rw [hpt] at hc
    split at hc
    · next h =>
        subst h
        obtain ⟨p, a, w, hne, hparent, hp, hblock⟩ := hchild hc
        exact ⟨p, a, w, hparent, by rw [hpt, if_neg hne]; exact hp, hblock⟩
    · obtain ⟨p, a, w, hparent, hp, hblock⟩ := hw.up c hc
      by_cases hpt' : p = t
      · subst hpt'
        obtain ⟨b, v, hb, hv⟩ := hup c a w hp hblock hc
        exact ⟨p, b, v, hparent, by rw [hpt, if_pos rfl]; exact hb, hv⟩
      · exact ⟨p, a, w, hparent, by rw [hpt, if_neg hpt']; exact hp, hblock⟩
  · intro p hp
    rw [hsame.semaWait] at hp ⊢
    obtain ⟨hone, c, a, hwaiting, hexited, hc⟩ := hw.credit p hp
    refine ⟨hone, ?_⟩
    rw [hsame.exited]
    by_cases hpt' : p = t
    · subst hpt'
      obtain ⟨d, b, hd, hexited, hfinished⟩ := hcredit hp
      exact ⟨d, b, by rw [hpt, if_pos rfl]; exact hd, hexited, hstay d hfinished⟩
    · exact ⟨c, a, by rw [hpt, if_neg hpt']; exact hwaiting, hexited, hstay c hc⟩

/-- A thread moves that is not in `process_wait`, and does not enter it past the first
assignment. -/
lemma Waits.moveChild {pt : Point} (hpoint : s'.point = update s.point t pt)
    (hsame : SameWaits s s') (hfin : s.point t ≠ .finished) (hover : (s.point t).Over → pt.Over)
    (hchild : pt = .exiting .up →
      ∃ p a w, p ≠ t ∧ s.parent t = some p ∧ s.point p = .waiting t a w ∧ w.Blocking)
    (ht : ∀ c a w, s.point t ≠ .waiting c a w) (hpt : ∀ c a w, pt = .waiting c a w → w = .set) :
    s'.Waits := by
  refine hw.move hpoint hsame hfin hover hchild (fun a ha hflag => ?_) (fun c a w h hmet => ?_)
    (fun c a r h => ?_) (fun c a w h => absurd h (ht c a w)) (fun h => ?_)
  · obtain ⟨w, -, hp⟩ := hw.wait t a ha hflag
    exact absurd hp (ht _ _ _)
  · simp [hpt c a w h] at hmet
  · cases hpt c a _ h
  · obtain ⟨-, c, a, hp, -⟩ := hw.credit t h
    exact absurd hp (ht _ _ _)

lemma Waits.moveParent {w v : WaitPoint} (hpoint : s'.point = update s.point t (.waiting c a v))
    (hsame : SameWaits s s') (ht : s.point t = .waiting c a w) (hv : v ≠ .set)
    (hseen : v.Met → s.exited c = true ∧ (s.point c).Over)
    (hresult : ∀ r, v = .remove r → r = (s.passed c).getD error)
    (hup : w.Blocking → s.point c = .exiting .up → v.Blocking) (hcredit : s.semaWait t = 0) :
    s'.Waits := by
  refine hw.move hpoint hsame (by simp [ht]) (by simp [ht]) nofun (fun b hb hflag => ?_) ?_ ?_ ?_
    (fun h => absurd hcredit h)
  · obtain ⟨w', -, hp⟩ := hw.wait t b hb hflag
    rw [ht] at hp
    cases hp
    exact ⟨v, hv, rfl⟩
  · rintro d b u ⟨⟩ hmet
    exact hseen hmet
  · rintro d b r ⟨⟩
    exact hresult r rfl
  · intro d b u hd hblock hup'
    rw [ht] at hd
    cases hd
    exact ⟨a, v, rfl, hup hblock hup'⟩

lemma Waits.zero_of_ne_down {w : WaitPoint} (hp : s.point p = .waiting c a w)
    (hne : w ≠ .down) : s.semaWait p = 0 := by
  by_contra h
  obtain ⟨-, d, b, hwaiting, -⟩ := hw.credit p h
  rw [hp] at hwaiting
  cases hwaiting
  exact hne rfl

lemma Waits.execute (ok : s.Ok) (hp : s.point p = .running)
    (hc : s.point c = .unborn) (ha : s.live a = false) :
    ((s.initThread p c a).addChildProc p c a).Waits := by
  have hlist := mem_childList_execute (a := a) (ok.unborn c hc).2 (ne_of_unborn hp hc)
  have hne : ∀ q, ∀ b ∈ s.childList q, b ≠ a := fun q b hb => ok.ne_of_listed ha hb
  -- Every thread that is in `process_wait` or in `process_exit` stays where it was.
  have hstay : ∀ d pt, s.point d = pt → pt ≠ .running → pt ≠ .unborn →
      ((s.initThread p c a).addChildProc p c a).point d = pt ∧ d ≠ c := by
    rintro d pt rfl hrun hborn
    have hdp : d ≠ p := by
      rintro rfl
      exact hrun hp
    have hdc : d ≠ c := by
      rintro rfl
      exact hborn hc
    exact ⟨by simp [initThread, addChildProc, hdp, hdc], hdc⟩
  have hchild : ∀ q d b w, s.point q = .waiting d b w → d ≠ c := by
    rintro q d b w hq rfl
    have hb := ok.waiting q d b w hq
    exact ok.pid_ne_of_unborn hc hb.1 hb.2
  constructor
  · intro q b hb hflag
    rcases (hlist q b).mp hb with hb | ⟨rfl, rfl⟩
    · simp only [initThread, addChildProc, update_of_ne (hne q b hb)] at hflag
      obtain ⟨w, hset, hq⟩ := hw.wait q b hb hflag
      refine ⟨w, hset, ?_⟩
      rw [show ((s.initThread p c a).addChildProc p c a).pid b = s.pid b from
        update_of_ne (hne q b hb) _ _]
      exact (hstay q _ hq (by simp) (by simp)).1
    · simp [initThread, addChildProc] at hflag
  · intro q d b w hq hmet
    have hold := (point_of_execute hq (by simp) (by simp)).1
    obtain ⟨hexited, hover⟩ := hw.seen q d b w hold hmet
    have hdc := hchild q d b w hold
    refine ⟨by simpa [initThread, addChildProc, hdc] using hexited, ?_⟩
    rw [(hstay d _ rfl (fun h => by simp [h] at hover) (fun h => by simp [h] at hover)).1]
    exact hover
  · intro q d b r hq
    have hold := (point_of_execute hq (by simp) (by simp)).1
    have hdc := hchild q d b _ hold
    rw [hw.result q d b r hold]
    simp [initThread, addChildProc, hdc]
  · intro d hd
    obtain ⟨hold, hdc⟩ := point_of_execute hd (by simp) (by simp)
    obtain ⟨q, b, w, hparent, hq, hblock⟩ := hw.up d hold
    refine ⟨q, b, w, ?_, (hstay q _ hq (by simp) (by simp)).1, hblock⟩
    simpa [initThread, addChildProc, hdc] using hparent
  · intro q hq
    have hqc : q ≠ c := by
      rintro rfl
      simp [initThread, addChildProc] at hq
    simp only [initThread, addChildProc, update_of_ne hqc] at hq
    obtain ⟨hone, d, b, hwaiting, hexited, hfinished⟩ := hw.credit q hq
    have hdc := hchild q d b _ hwaiting
    refine ⟨by simpa [initThread, addChildProc, hqc] using hone, d, b,
      (hstay q _ hwaiting (by simp) (by simp)).1, ?_, (hstay d _ hfinished (by simp) (by simp)).1⟩
    simpa [initThread, addChildProc, hdc] using hexited

lemma Waits.shrink : (s.removeChildProc p a).Waits := by
  refine ⟨fun q b hb => hw.wait q b ?_, hw.seen, hw.result, hw.up, hw.credit⟩
  simp only [removeChildProc, update_apply] at hb
  split at hb
  · next h => exact h ▸ List.mem_of_mem_erase hb
  · exact hb

lemma Waits.returned : (s.returned p c).Waits := by
  unfold Processes.returned
  split
  · exact ⟨hw.wait, hw.seen, hw.result, hw.up, hw.credit⟩
  · exact hw

lemma Waits.waitRemove {r : Int} (ok : s.Ok) (hp : s.point p = .waiting c a (.remove r)) :
    (((s.setPoint p .running).removeChildProc p a).returned p c).Waits := by
  have hmove : ((s.removeChildProc p a).setPoint p .running).Waits := by
    have hp' : (s.removeChildProc p a).point p = .waiting c a (.remove r) := hp
    refine (hw.shrink (p := p) (a := a)).move rfl (by constructor <;> rfl)
      (by simp [hp']) (by simp [hp']) nofun (fun b hb hflag => ?_) nofun nofun
      (fun d b w hd hblock => ?_) fun h => ?_
    · have hlisted := (ok.mem_childList_remove (ok.waiting p c a _ hp).1 p b).mp hb
      obtain ⟨w, -, hwaiting⟩ := hw.wait p b hlisted.1 hflag
      rw [hp] at hwaiting
      cases hwaiting
      exact absurd rfl hlisted.2
    · rw [hp'] at hd
      cases hd
      cases hblock
    · obtain ⟨-, d, b, hwaiting, -⟩ := hw.credit p h
      simp [hp] at hwaiting
  exact hmove.returned

lemma Waits.waitSet (ok : s.Ok) (hp : s.point p = .waiting c a .set) :
    Waits { s.setPoint p (.waiting c a .test) with wait := update s.wait a true } := by
  have hmove : (s.setPoint p (.waiting c a .test)).Waits :=
    hw.moveParent rfl (by constructor <;> rfl) hp nofun nofun nofun nofun
      (hw.zero_of_ne_down hp nofun)
  refine ⟨fun q b hb hflag => ?_, hmove.seen, hmove.result, hmove.up, hmove.credit⟩
  by_cases hba : b = a
  · have hlisted := ok.waiting p c a .set hp
    have hqp : q = p := ok.eq_of_listed hlisted.1 (hba ▸ hb)
    subst hqp hba
    refine ⟨.test, nofun, ?_⟩
    simp only [setPoint, update_self]
    rw [hlisted.2]
  · refine hmove.wait q b hb ?_
    exact (update_of_ne hba _ _).symm.trans hflag

lemma Waits.waitDown (hp : s.point p = .waiting c a .down) (hv : s.semaWait p ≠ 0) :
    Waits { s.setPoint p (.waiting c a .read) with
      semaWait := update s.semaWait p (s.semaWait p - 1) } := by
  obtain ⟨hone, d, b, hwaiting, hexited, hfinished⟩ := hw.credit p hv
  rw [hp] at hwaiting
  cases hwaiting
  have hspent : Waits { s with semaWait := update s.semaWait p (s.semaWait p - 1) } := by
    refine ⟨hw.wait, hw.seen, hw.result, hw.up, fun q hq => ?_⟩
    by_cases hqp : q = p
    · subst hqp
      simp [hone] at hq
    · simp only [update_of_ne hqp] at hq ⊢
      exact hw.credit q hq
  exact hspent.moveParent rfl (by constructor <;> rfl) hp nofun
    (fun _ => ⟨hexited, by rw [hfinished]; trivial⟩) nofun
    (fun _ h => by rw [hfinished] at h; cases h) (by simp [hone])

lemma Waits.upParent (hexited : s.exited t = true)
    (ht : s.point t = .exiting .up) (hp : s.parent t = some p) : (s.upParent t p).Waits := by
  obtain ⟨q, a, w, hq, hwaiting, hblock⟩ := hw.up t ht
  rw [hp] at hq
  cases hq
  have hpt : p ≠ t := by
    rintro rfl
    simp [ht] at hwaiting
  -- The only credit could come from the child itself, which has not given it yet.
  have hzero : s.semaWait p = 0 := by
    by_contra h
    obtain ⟨-, d, b, hd, -, hfinished⟩ := hw.credit p h
    rw [hwaiting] at hd
    cases hd
    simp [ht] at hfinished
  have hwoken : wakeParent (s.point p) = .waiting t a .down := by
    rw [hwaiting]
    cases w with
    | down | sleep => rfl
    | _ => cases hblock
  have hwake : (s.setPoint p (.waiting t a .down)).Waits :=
    hw.moveParent rfl (by constructor <;> rfl) hwaiting (by simp) (by simp) (by simp)
      (fun _ _ => trivial) hzero
  have ht' : (s.setPoint p (.waiting t a .down)).point t = .exiting .up := by
    simp [setPoint, hpt.symm, ht]
  have hdone : ((s.setPoint p (.waiting t a .down)).setPoint t .finished).Waits :=
    hwake.moveChild rfl (by constructor <;> rfl) (by simp [ht']) (by simp [ht']) (by simp)
      (by simp [ht']) (by simp)
  have heq : s.upParent t p = { (s.setPoint p (.waiting t a .down)).setPoint t .finished with
      semaWait := update s.semaWait p (s.semaWait p + 1) } := by
    simp only [Processes.upParent, hwoken, setPoint]
  rw [heq]
  refine ⟨hdone.wait, hdone.seen, hdone.result, hdone.up, fun q hq => ?_⟩
  by_cases hqp : q = p
  · subst hqp
    refine ⟨by simp [hzero], t, a, ?_, hexited, ?_⟩
    · simp [setPoint, hpt]
    · simp [setPoint]
  · simp only [update_of_ne hqp] at hq ⊢
    exact hdone.credit q hq

lemma Waits.reuse {pid : Tid} {exit wait : Bool} {status : Int} {zombi : Semaphore}
    (ok : s.Ok) (ha : s.live a = false) :
    (s.reused a pid exit wait status zombi).Waits := by
  refine ⟨fun p b hb hflag => ?_, hw.seen, hw.result, hw.up, hw.credit⟩
  simp only [reused, update_of_ne (ok.ne_of_listed ha hb)] at hflag ⊢
  exact hw.wait p b hb hflag

lemma Waits.exit {v : Int} (ht : s.point t = .running) :
    Waits { s.setPoint t (.exiting (.store v)) with
      passed := update s.passed t (some v) } := by
  have hpassed : Waits { s with passed := update s.passed t (some v) } := by
    refine ⟨hw.wait, hw.seen, fun p c a r hp => ?_, hw.up, hw.credit⟩
    have hct : c ≠ t := by
      rintro rfl
      have hover := (hw.seen p c a _ hp trivial).2
      simp [ht] at hover
    rw [hw.result p c a r hp]
    simp only [update_of_ne hct]
  exact hpassed.moveChild rfl (by constructor <;> rfl) (by simp [ht]) (by simp [ht]) nofun
    (by simp [ht]) nofun

/-- The parent tests the exit flag. If it is set, the child is at `sema_zombi`. -/
lemma Waits.waitTest (hr : s.Recording) (ok : s.Ok) (hp : s.point p = .waiting c a .test)
    (hzombi : s.exit a = true → s.point c = .exiting .down ∨ s.point c = .exiting .sleep) :
    (s.setPoint p (.waiting c a (if s.exit a then .up else .down))).Waits := by
  have hlisted := ok.waiting p c a .test hp
  refine hw.moveParent rfl (by constructor <;> rfl) hp ?_ (fun hmet => ?_) ?_ nofun
    (hw.zero_of_ne_down hp nofun)
  · split <;> exact nofun
  · cases he : s.exit a with
    | false =>
      simp [he] at hmet
    | true =>
      have hexited := hr.exit p a hlisted.1
      rw [hlisted.2, he] at hexited
      refine ⟨hexited.symm, ?_⟩
      rcases hzombi he with h | h <;> rw [h] <;> trivial
  · split <;> exact nofun

lemma Waits.waitRead (hr : s.Recording) (ok : s.Ok) (hp : s.point p = .waiting c a .read) :
    (s.setPoint p (.waiting c a (.remove (s.exitStatus a)))).Waits := by
  have hlisted := ok.waiting p c a .read hp
  have hseen := hw.seen p c a .read hp trivial
  refine hw.moveParent rfl (by constructor <;> rfl) hp nofun (fun _ => hseen)
    (fun r hr' => ?_) nofun (hw.zero_of_ne_down hp nofun)
  cases hr'
  rw [← hlisted.2]
  refine hr.status p a hlisted.1 fun v hv => ?_
  rw [hlisted.2] at hv
  rw [hv] at hseen
  cases hseen.2

lemma Waits.notify {a : Addr} (ht : s.point t = .exiting .notify) :
    Waits { s.setPoint t (.exiting .test) with
      exit := update s.exit a true
      exited := update s.exited t true } := by
  have hflag : ∀ c, s.exited c = true → update s.exited t true c = true := by
    intro c hc
    rw [update_apply, hc, ite_self]
  have hexited : Waits { s with exited := update s.exited t true } := by
    refine ⟨hw.wait, fun p c b w hp hmet => ?_, hw.result, hw.up, fun p hp => ?_⟩
    · exact (hw.seen p c b w hp hmet).imp (hflag c) id
    · obtain ⟨hone, c, b, hwaiting, hexited, hc⟩ := hw.credit p hp
      exact ⟨hone, c, b, hwaiting, hflag c hexited, hc⟩
  exact hexited.moveChild rfl (by constructor <;> rfl) (by simp [ht]) (by simp [ht]) nofun
    (by simp [ht]) nofun

/-- The child tests the wait flag. If it is set, the parent blocks in its `process_wait`. -/
lemma Waits.exitTest (ht : s.point t = .exiting .test) (hparent : s.wait a = true →
      ∃ p w, s.parent t = some p ∧ s.point p = .waiting t a w ∧ w.Blocking) :
    (s.setPoint t (.exiting (if s.wait a then .up else .down))).Waits := by
  refine hw.moveChild rfl (by constructor <;> rfl) (by simp [ht]) (by simp [ht]) (fun hup => ?_)
    (by simp [ht]) nofun
  cases hflag : s.wait a with
  | false =>
    simp [hflag] at hup
  | true =>
    obtain ⟨p, w, hpt, hp, hblock⟩ := hparent hflag
    refine ⟨p, a, w, ?_, hpt, hp, hblock⟩
    rintro rfl
    simp [ht] at hp

lemma Waits.step (hr : s.Recording) (ok : s.Ok) (h : Step s op s')
    (hg : s.FlagsApart op) : s'.Waits := by
  cases h with
  | executeBare _ _ => exact absurd rfl hg
  | execute hp hc ha => exact hw.execute ok hp hc ha
  | waitRefused _ _ => exact hw.returned
  | exit ht => exact hw.exit ht
  | waitRemove hp => exact hw.waitRemove ok hp
  | free _ _ => exact hw.shrink
  | waitSet hp => exact hw.waitSet ok hp
  | waitTest hp => exact hw.waitTest hr ok hp (hg.1 _ _ hp)
  | waitUp hp _ =>
    exact hw.moveParent rfl (by constructor <;> rfl) hp (by simp)
      (fun _ => hw.seen _ _ _ _ hp trivial) (by simp) (by simp) (hw.zero_of_ne_down hp (by simp))
  | @waitWake p c w a hp _ hs =>
    have hwake : (s.setPoint w (.exiting .down)).Waits :=
      hw.moveChild rfl (by constructor <;> rfl) (by simp [hs]) (fun _ => trivial) (by simp)
        (by simp [hs]) (by simp)
    have hpw : p ≠ w := by
      rintro rfl
      simp [hp] at hs
    have hp' : (s.setPoint w (.exiting .down)).point p = .waiting c a .up := by
      simp [setPoint, hpw, hp]
    exact hwake.moveParent rfl (by constructor <;> rfl) hp' (by simp)
      (fun _ => hwake.seen _ _ _ _ hp' trivial) (by simp) (by simp)
      (hwake.zero_of_ne_down hp' (by simp))
  | waitSleep hp hv =>
    exact hw.moveParent rfl (by constructor <;> rfl) hp (by simp) (by simp) (by simp)
      (fun _ _ => trivial) hv
  | waitDown hp hv => exact hw.waitDown hp hv
  | waitRead hp => exact hw.waitRead hr ok hp
  | notify ht _ _ => exact hw.notify ht
  | exitTest ht ha => exact hw.exitTest ht (hg.2.1 _ ht ha)
  | exitUp ht hp => exact hw.upParent (hr.exited _ (by rw [ht]; trivial)) ht hp
  | exitDown ht _ =>
    refine hw.moveChild rfl (by constructor <;> rfl) (by simp [ht]) (fun _ => ?_)
      (fun h => ?_) (by simp [ht]) (fun c a w h => ?_)
    · split <;> trivial
    · split at h <;> cases h
    · split at h <;> cases h
  | startFailed ht _ | startLoaded ht _ | threadExit ht | loaded ht _ | store ht _
  | storeSkipped ht _ | print ht | freed ht _ | notifySkipped ht _ =>
    exact hw.moveChild rfl (by constructor <;> rfl) (by simp [ht]) (by simp [ht]) (by simp)
      (by simp [ht]) (by simp)
  | waitCalled ht _ _ =>
    refine hw.moveChild rfl (by constructor <;> rfl) (by simp [ht]) (by simp [ht]) (by simp)
      (by simp [ht]) ?_
    rintro c a w ⟨⟩
    rfl
  | reuse ha => exact hw.reuse ok ha
  | reorder => exact ⟨hw.wait, hw.seen, hw.result, hw.up, hw.credit⟩

end

/-! ## Runs -/

/-- What holds before every step of a run that meets the condition. -/
structure Orderly (s : Processes) : Prop where
  ok : s.Ok
  recorded : s.Recorded
  recording : s.Recording
  waits : s.Waits

lemma Start.orderly (h : Start s) : s.Orderly :=
  ⟨h.ok, h.recorded, h.recording, h.waits⟩

lemma Waits.not_wait (hw : s.Waits) (hp : s.point p = .running) :
    ∀ a ∈ s.childList p, s.wait a = false := by
  intro a ha
  rw [Bool.eq_false_iff]
  intro hflag
  obtain ⟨w, -, hwaiting⟩ := hw.wait p a ha hflag
  simp [hp] at hwaiting

lemma Orderly.step (ho : s.Orderly) (h : Step s op s') (hg : s.FlagsApart op) : s'.Orderly where
  ok := ho.ok.step h
  recorded := ho.recorded.step ho.ok h hg fun _ hp => ho.waits.not_wait hp
  recording := by
    refine ho.recording.step ho.ok h hg fun p c a r hp => ?_
    have hover := (ho.waits.seen p c a _ hp trivial).2
    cases hc : s.point c with
    | exiting e =>
      rw [hc] at hover
      cases e with
      | down | sleep => trivial
      | _ => cases hover
    | finished => trivial
    | _ =>
      simp [hc] at hover
  waits := ho.waits.step ho.recording ho.ok h hg

/-- A child whose record is gone is one its parent has waited for, as long as the parent
runs. -/
lemma Orderly.waited_of_not_listed (ho : s.Orderly) (hp : s.point p = .running)
    (hparent : s.parent c = some p) (hc : s.getChildProc p c = none) : s.waited c = true := by
  cases ha : s.childProc c with
  | none => exact absurd ha (ho.recorded.record c p hparent)
  | some a =>
    rcases ho.recorded.freed c p a hparent ha with hheld | hwaited | hleaving
    · obtain ⟨q, hq, hlisted⟩ := ho.ok.held c a ha hheld.1 hheld.2
      rw [hparent] at hq
      cases hq
      exact absurd (decide_eq_true hheld.2) (List.find?_eq_none.mp hc a hlisted)
    · exact hwaited
    · simp [hp] at hleaving

lemma Orderly.returnsStatus (ho : s.Orderly) (h : Step s op s') : s.ReturnsStatus op := by
  intro p c r hreturn hparent _
  cases op with
  | wait q d =>
    have hp : s.point q = .running := by cases h <;> assumption
    cases hfind : s.getChildProc q d with
    | none =>
      simp only [waitReturn, hfind, Option.some.injEq, Prod.mk.injEq] at hreturn
      obtain ⟨rfl, rfl, rfl⟩ := hreturn
      rw [ho.waited_of_not_listed hp hparent hfind]
      rfl
    | some a =>
      have hflag := ho.waits.not_wait hp a (mem_of_getChildProc hfind).1
      simp [waitReturn, hfind, hflag] at hreturn
  | next q =>
    simp only [waitReturn] at hreturn
    split at hreturn
    · next d a v hq =>
        simp only [Option.some.injEq, Prod.mk.injEq] at hreturn
        obtain ⟨rfl, rfl, rfl⟩ := hreturn
        have hwaited : s.waited d = false := by
          rw [Bool.eq_false_iff]
          intro hwaited
          have hlisted := ho.ok.waiting q d a _ hq
          refine ho.recorded.waited d a hwaited ?_ (ho.ok.waiting_held hq)
          rw [← hlisted.2]
          exact (ho.ok.listed q a hlisted.1).2.2
        rw [hwaited]
        exact ⟨(ho.waits.seen q d a _ hq trivial).1, ho.waits.result q d a v hq⟩
    · cases hreturn
  | _ => cases hreturn

/-- In every run in which the tests of the flags fall apart, every wait returns the status
of its child. -/
theorem returnsStatus_throughout {ops : List Op} (h : machine.start s)
    (hmeets : machine.Meets FlagsApart s ops) :
    machine.EachStep (fun s op _ => s.ReturnsStatus op) s ops := by
  refine Machine.EachStep.imp (I := Orderly) ?_ (Start.orderly h) hmeets
  intro s op s' ho hstep hg
  have hS := Step.of_step hstep
  exact ⟨ho.returnsStatus hS, ho.step hS hg⟩

instance (executable : Bool) : (pt : Point) → Decidable (pt.PastFlags executable)
  | .exiting .print | .exiting .free | .exiting .notify =>
    inferInstanceAs (Decidable (executable = false))
  | .exiting .up | .exiting .down | .exiting .sleep | .finished => isTrue trivial
  | .exiting (.store _) | .exiting .test | .unborn | .starting | .running
  | .loading _ | .waiting .. => isFalse id

/-- The parent of `t` is at its `sema_down`, in a wait for the record at `a`. -/
def parentBlocks (s : Processes) (t : Tid) (a : Addr) : Bool :=
  match s.parent t with
  | some p => s.point p = .waiting t a .down ∨ s.point p = .waiting t a .sleep
  | none => false

lemma parentBlocks_iff : s.parentBlocks t a = true ↔
    ∃ p w, s.parent t = some p ∧ s.point p = .waiting t a w ∧ w.Blocking := by
  unfold parentBlocks
  cases s.parent t with
  | none => simp
  | some p =>
    simp only [decide_eq_true_eq, Option.some.injEq]
    constructor
    · rintro (h | h)
      · exact ⟨p, .down, rfl, h, trivial⟩
      · exact ⟨p, .sleep, rfl, h, trivial⟩
    · rintro ⟨q, w, rfl, h, hblock⟩
      cases w with
      | down => exact .inl h
      | sleep => exact .inr h
      | _ => cases hblock

instance (s : Processes) : (op : Op) → Decidable (s.FlagsApart op)
  | .next t =>
    match h : s.point t with
    | .waiting c a .test =>
      decidable_of_iff (s.exit a = true → s.point c = .exiting .down ∨
        s.point c = .exiting .sleep) (by simp [FlagsApart, h])
    | .exiting .test =>
      decidable_of_iff (∀ a ∈ s.childProc t, s.wait a = true → s.parentBlocks t a = true)
        (by simp [FlagsApart, h, parentBlocks_iff])
    | .exiting .free =>
      decidable_of_iff (∀ a ∈ (s.childList t).head?,
        (s.point (s.pid a)).PastFlags (s.executable (s.pid a))) (by simp [FlagsApart, h])
    | .waiting _ _ .set | .waiting _ _ .up | .waiting _ _ .down | .waiting _ _ .sleep
    | .waiting _ _ .read | .waiting _ _ (.remove _) | .exiting (.store _) | .exiting .print
    | .exiting .notify | .exiting .up | .exiting .down | .exiting .sleep | .unborn | .starting
    | .running | .loading _ | .finished => isTrue (by simp [FlagsApart, h])
  | .execute _ _ a => inferInstanceAs (Decidable (a ≠ none))
  | .start .. | .wait .. | .exit .. | .threadExit .. | .reuse .. | .reorder .. => isTrue trivial

/-- The child exits with status 7 first and sleeps; the parent waits for it twice. -/
theorem returnsStatus_throughout_booted :
    machine.start booted ∧ machine.EachStep (fun s op _ => s.ReturnsStatus op) booted
      ([Op.execute 0 1 (some ⟨0⟩), .start 1 .loaded, .next 0, .exit 1 7] ++
        List.replicate 6 (Op.next 1) ++ [Op.wait 0 1] ++ List.replicate 5 (Op.next 0) ++
        [Op.wait 0 1]) :=
  ⟨booted_start, returnsStatus_throughout booted_start (by decide +kernel)⟩

/-- Child 1 tests the parent's flag before the parent returns and waits for child 2. -/
def strayCredit : List Op :=
  [Op.execute 0 1 (some ⟨0⟩), .start 1 .loaded, .next 0,
    .execute 0 2 (some ⟨1⟩), .start 2 .loaded, .next 0, .exit 1 7] ++
    List.replicate 4 (Op.next 1) ++ [Op.wait 0 1, .next 0, .next 0, .next 1] ++
    List.replicate 3 (Op.next 0) ++ [Op.next 1, .wait 0 2] ++ List.replicate 4 (Op.next 0)

/-- The credit that child 1 leaves ends the wait for child 2, which still runs. -/
theorem processWait_returns_early :
    machine.start booted ∧ ∃ s, machine.run booted strayCredit = some s ∧
      s.waitReturn (.next 0) = some (0, 2, -1) ∧ (s.step (.next 0)).isSome ∧
      s.parent 2 = some 0 ∧ s.executable 2 = true ∧ s.waited 2 = false ∧
      s.exited 2 = false ∧ s.point 2 = .running ∧ ¬ s.ReturnsStatus (.next 0) := by
  have hrun : (machine.run booted strayCredit).map
      (fun s => decide (s.waitReturn (.next 0) = some (0, 2, -1) ∧ (s.step (.next 0)).isSome ∧
        s.parent 2 = some 0 ∧ s.executable 2 = true ∧ s.waited 2 = false ∧
        s.exited 2 = false ∧ s.point 2 = .running)) = some true := by
    decide +kernel
  obtain ⟨s, hs, heq⟩ := Option.map_eq_some_iff.mp hrun
  obtain ⟨hreturn, hstep, hparent, hexec, hwaited, hexited, hpoint⟩ := of_decide_eq_true heq
  refine ⟨booted_start, s, hs, hreturn, hstep, hparent, hexec, hwaited, hexited, hpoint, ?_⟩
  intro h
  have hstatus := h 0 2 (-1) hreturn hparent hexec
  rw [hwaited, hexited] at hstatus
  cases hstatus.1

end Processes

end Pintos.Userprog
