import Pintos.Userprog.ChildOwnership

/-! # A finished child has told its parent

`process_wait` sets a flag and tests the child's, `process_exit` sets its flag and tests
the parent's, so that at least one side sees the other. What follows holds for every
interleaving, also when both sides see each other and a credit is left on `sema_wait`.
-/

namespace Pintos.Userprog

open Foundation Threads Function List Processes

/-- Between the assignment of the exit flag and the end of the notification. -/
@[simp] def Point.Notifying : Point → Prop
  | .exiting .test | .exiting .up | .exiting .down | .exiting .sleep => True
  | _ => False

@[simp] def WaitPoint.Blocking : WaitPoint → Prop
  | .down | .sleep => True
  | _ => False

namespace Processes

variable {s s' : Processes} {op : Op}

/-- The child `c` is past the assignment of its exit flag. -/
def Told (s : Processes) (c : Tid) : Prop :=
  (s.point c).Notifying ∨ (s.point c = .finished ∧ s.executable c = true)

/-- What a `process_wait` that is about to block, or blocks, knows of the child. -/
structure Expects (s : Processes) (p c : Tid) (w : WaitPoint) : Prop where
  executable : s.executable c = true
  down : s.point c ≠ .exiting .down
  sleep : s.point c ≠ .exiting .sleep
  credit : s.point c = .finished → w = .down ∧ s.semaWait p ≠ 0

/-- The flags as the two sides leave them. -/
structure Heard (s : Processes) : Prop where
  exit : ∀ p, ∀ a ∈ s.childList p, s.Told (s.pid a) → s.exit a = true
  wait : ∀ p c a w, s.point p = .waiting c a w → w ≠ .set → s.wait a = true
  blocked : ∀ p c a w, s.point p = .waiting c a w → w.Blocking → s.Expects p c w

/-- What `Heard` is about, apart from the points. -/
structure SameFlags (s s' : Processes) : Prop where
  childList : s'.childList = s.childList
  pid : s'.pid = s.pid
  exit : s'.exit = s.exit
  wait : s'.wait = s.wait
  executable : s'.executable = s.executable
  semaWait : s'.semaWait = s.semaWait

variable {t p c : Tid} {a : Addr}

section

variable (hh : s.Heard)
include hh

/-- A thread moves: a parent knows what its new point asks for, a child has set its flag. -/
lemma Heard.move {pt : Point} (hpoint : s'.point = update s.point t pt) (hsame : SameFlags s s')
    (htold : pt.Notifying ∨ (pt = .finished ∧ s.executable t = true) →
      ∀ p, ∀ a ∈ s.childList p, s.pid a = t → s.exit a = true)
    (hparent : ∀ c a w, pt = .waiting c a w →
      (w ≠ .set → s.wait a = true) ∧ (w.Blocking → s.Expects t c w))
    (hchild : ∀ p a w, s.point p = .waiting t a w → w.Blocking →
      pt ≠ .exiting .down ∧ pt ≠ .exiting .sleep ∧
        (pt = .finished → w = .down ∧ s.semaWait p ≠ 0)) : s'.Heard := by
  have hpt : ∀ u, s'.point u = if u = t then pt else s.point u := by
    intro u
    rw [hpoint, update_apply]
  -- What was expected of a child before the move is expected of it afterwards.
  have hexpects : ∀ p c w, s.Expects p c w → (c = t → pt ≠ .exiting .down ∧
      pt ≠ .exiting .sleep ∧ (pt = .finished → w = .down ∧ s.semaWait p ≠ 0)) →
      s'.Expects p c w := by
    intro p c w he hc
    by_cases hct : c = t
    · have hc := hc hct
      have hpc : s'.point c = pt := by rw [hpt, if_pos hct]
      refine ⟨?_, hpc ▸ hc.1, hpc ▸ hc.2.1, ?_⟩
      · rw [hsame.executable]
        exact he.executable
      · rw [hpc, hsame.semaWait]
        exact hc.2.2
    · have hpc : s'.point c = s.point c := by rw [hpt, if_neg hct]
      refine ⟨?_, hpc ▸ he.down, hpc ▸ he.sleep, ?_⟩
      · rw [hsame.executable]
        exact he.executable
      · rw [hpc, hsame.semaWait]
        exact he.credit
  constructor
  · intro p a ha h
    rw [hsame.childList] at ha
    rw [hsame.exit]
    unfold Told at h
    rw [hsame.pid, hsame.executable, hpt] at h
    by_cases hat : s.pid a = t
    · rw [if_pos hat, hat] at h
      exact htold h p a ha hat
    · rw [if_neg hat] at h
      exact hh.exit p a ha h
  · intro p c a w hp hw
    rw [hsame.wait]
    rw [hpt] at hp
    split at hp
    · exact (hparent c a w hp).1 hw
    · exact hh.wait p c a w hp hw
  · intro p c a w hp hw
    rw [hpt] at hp
    split at hp
    · next hpt =>
        subst hpt
        refine hexpects p c w ((hparent c a w hp).2 hw) fun _ => ?_
        rw [hp]
        exact ⟨nofun, nofun, nofun⟩
    · refine hexpects p c w (hh.blocked p c a w hp hw) fun hct => ?_
      subst hct
      exact hchild p a w hp hw

lemma Heard.moveQuiet {pt : Point} (hpoint : s'.point = update s.point t pt)
    (hsame : SameFlags s s') (hn : ¬ pt.Notifying) (hf : pt ≠ .finished)
    (hw : ∀ c a w, pt = .waiting c a w →
      (w ≠ .set → s.wait a = true) ∧ (w.Blocking → s.Expects t c w)) : s'.Heard := by
  refine hh.move hpoint hsame ?_ hw ?_
  · rintro (h | h)
    · exact absurd h hn
    · exact absurd h.1 hf
  · intro p a w _ _
    refine ⟨fun h => hn (h ▸ trivial), fun h => hn (h ▸ trivial), fun h => absurd h hf⟩

lemma Heard.shrink (hpoint : s'.point = s.point)
    (hlist : ∀ p, ∀ a ∈ s'.childList p, a ∈ s.childList p) (hpid : s'.pid = s.pid)
    (hexit : s'.exit = s.exit) (hwait : s'.wait = s.wait)
    (hexec : s'.executable = s.executable) (hsema : s'.semaWait = s.semaWait) : s'.Heard := by
  constructor
  · intro p a ha h
    unfold Told at h
    rw [hpoint, hpid, hexec] at h
    rw [hexit]
    exact hh.exit p a (hlist p a ha) h
  · rw [hpoint, hwait]
    exact hh.wait
  · intro p c a w hp hw
    rw [hpoint] at hp
    have he := hh.blocked p c a w hp hw
    refine ⟨?_, ?_, ?_, ?_⟩
    · rw [hexec]
      exact he.executable
    · rw [hpoint]
      exact he.down
    · rw [hpoint]
      exact he.sleep
    · rw [hpoint, hsema]
      exact he.credit

lemma Heard.returned : (s.returned p c).Heard := by
  unfold Processes.returned
  split
  · exact hh.shrink rfl (fun _ _ h => h) rfl rfl rfl rfl rfl
  · exact hh

lemma Heard.removeChildProc : (s.removeChildProc p a).Heard := by
  refine hh.shrink rfl (fun q b hb => ?_) rfl rfl rfl rfl rfl
  simp only [Processes.removeChildProc, update_apply] at hb
  split at hb
  · next h =>
      rw [h]
      exact mem_of_mem_erase hb
  · exact hb

lemma Heard.flags {exit wait : Addr → Bool}
    (hexit : ∀ p, ∀ a ∈ s.childList p, s.exit a = true → exit a = true)
    (hwait : ∀ p, ∀ a ∈ s.childList p, s.wait a = true → wait a = true) (ok : s.Ok) :
    Heard { s with exit := exit, wait := wait } where
  exit p a ha h := hexit p a ha (hh.exit p a ha h)
  wait p c a w hp hw := hwait p a (ok.waiting p c a w hp).1 (hh.wait p c a w hp hw)
  blocked p c a w hp hw :=
    have he := hh.blocked p c a w hp hw
    ⟨he.executable, he.down, he.sleep, he.credit⟩

lemma Heard.setExecutable (hc : s.point c ≠ .finished) :
    Heard { s with executable := update s.executable c true } where
  exit p a ha h := by
    refine hh.exit p a ha (h.imp id fun h => ⟨h.1, ?_⟩)
    rw [← h.2]
    refine (update_of_ne (fun heq => hc ?_) _ _).symm
    rw [← heq]
    exact h.1
  wait := hh.wait
  blocked p d a w hp hw := by
    have he := hh.blocked p d a w hp hw
    refine ⟨?_, he.down, he.sleep, he.credit⟩
    dsimp only
    rw [update_apply]
    split
    · rfl
    · exact he.executable

lemma Heard.setSemaWait {n : Nat} (hn : ∀ c a w, s.point p = .waiting c a w → w.Blocking → n ≠ 0) :
    Heard { s with semaWait := update s.semaWait p n } where
  exit := hh.exit
  wait := hh.wait
  blocked q c a w hq hw := by
    have he := hh.blocked q c a w hq hw
    refine ⟨he.executable, he.down, he.sleep, fun hc => ⟨(he.credit hc).1, ?_⟩⟩
    dsimp only
    rw [update_apply]
    split
    · next heq => exact hn c a w (heq ▸ hq) hw
    · exact (he.credit hc).2

lemma Heard.initThread (ok : s.Ok) (hc : s.point c = .unborn) (a : Option Addr) :
    (s.initThread p c a).Heard := by
  have hpid := fun q b hb => ok.pid_ne_of_unborn (p := q) (a := b) hc hb
  have hwaiting := ok.waiting
  obtain ⟨hexit, hwait, hblocked⟩ := hh
  constructor
  · intro q b hb h
    simp only [Processes.initThread, Told, update_apply] at hb h ⊢
    grind [Told, Point.Notifying]
  · intro q d b w hq hw
    simp only [Processes.initThread, update_apply] at hq ⊢
    grind
  · intro q d b w hq hw
    have hold : s.point q = .waiting d b w ∧ q ≠ c := by
      simp only [Processes.initThread, update_apply] at hq
      grind
    have he := hblocked q d b w hold.1 hw
    obtain ⟨h1, h2, h3, h4⟩ := he
    constructor <;> simp only [Processes.initThread, update_apply] <;> grind

lemma Heard.execute (ok : s.Ok) (hp : s.point p = .running)
    (hc : s.point c = .unborn) (ha : s.live a = false) :
    ((s.initThread p c a).addChildProc p c a).Heard := by
  have hpc := ne_of_unborn hp hc
  have hne : ∀ q, ∀ b ∈ s.childList q, b ≠ a := fun q b hb => ok.ne_of_listed ha hb
  have hinit := hh.initThread (p := p) ok hc (some a)
  have hpoint : (s.initThread p c (some a)).point c = .starting := by
    simp [Processes.initThread, hpc.symm]
  constructor
  · intro q b hb h
    by_cases hba : b = a
    · -- The new child has not even started.
      subst hba
      simp [Told, addChildProc, hpoint] at h
    · have hb' : b ∈ (s.initThread p c (some a)).childList q := by
        simp only [addChildProc, update_apply] at hb
        split at hb
        · next heq =>
            rw [heq]
            simpa [hba] using hb
        · exact hb
      simp only [addChildProc, Told, update_of_ne hba] at h ⊢
      exact hinit.exit q b hb' h
  · intro q d b w hq hw
    have hold := hinit.wait q d b w hq hw
    have hq' : s.point q = .waiting d b w := by
      simp only [addChildProc, Processes.initThread, update_apply] at hq
      grind
    simp only [addChildProc, update_of_ne (hne q b (ok.waiting q d b w hq').1)]
    exact hold
  · intro q d b w hq hw
    have he := hinit.blocked q d b w hq hw
    exact ⟨he.executable, he.down, he.sleep, he.credit⟩

lemma Heard.reuse {pid : Tid} {exit wait : Bool} {status : Int} {zombi : Semaphore}
    (ok : s.Ok) (ha : s.live a = false) :
    (s.reused a pid exit wait status zombi).Heard := by
  refine ⟨fun p b hb h => ?_, fun p c b w hp hw => ?_, fun p c b w hp hw => ?_⟩
  · simp only [Told, reused, update_of_ne (ok.ne_of_listed ha hb)] at h ⊢
    exact hh.exit p b hb h
  · simp only [reused, update_of_ne (ok.ne_of_listed ha (ok.waiting p c b w hp).1)]
    exact hh.wait p c b w hp hw
  · have he := hh.blocked p c b w hp hw
    exact ⟨he.executable, he.down, he.sleep, he.credit⟩

lemma Heard.wake : (s.setPoint p (wakeParent (s.point p))).Heard := by
  rcases wakeParent_cases (s.point p) with ⟨h, -⟩ | ⟨c, a, hp, h⟩
  · rwa [h, setPoint, update_eq_self]
  · rw [h]
    refine hh.moveQuiet rfl (by constructor <;> rfl) (by simp) (by simp) ?_
    rintro d b w ⟨⟩
    have he := hh.blocked p c a .sleep hp trivial
    exact ⟨fun _ => hh.wait p c a .sleep hp (by simp),
      fun _ => ⟨he.executable, he.down, he.sleep, fun hf => absurd (he.credit hf).1 (by simp)⟩⟩

lemma Heard.upParent (ok : s.Ok) (ht : s.point t = .exiting .up)
    (hp : s.parent t = some p) : (s.upParent t p).Heard := by
  -- First the value, then the parent wakes, then the child is past the block.
  have hvalue := hh.setSemaWait (p := p) (n := s.semaWait p + 1) fun _ _ _ _ _ => by omega
  refine (hvalue.wake (p := p)).move rfl (by constructor <;> rfl) ?_ (by simp) ?_
  · rintro - q a ha hat
    have hat : s.pid a = t := hat
    exact hh.exit q a ha (.inl (by rw [hat, ht]; trivial))
  · intro q a w hq hw
    have hwait : ∃ w', s.point q = .waiting t a w' := by
      simp only [setPoint, update_apply] at hq
      split at hq
      · next heq => exact heq ▸ wakeParent_eq_waiting hq
      · exact ⟨w, hq⟩
    rcases hwait with ⟨w', hw'⟩
    have hlisted := ok.waiting q t a w' hw'
    have hqp : q = p := by
      have hparent := (ok.listed q a hlisted.1).2.1
      rw [hlisted.2, hp] at hparent
      exact (Option.some.inj hparent).symm
    subst hqp
    refine ⟨(by simp), (by simp), fun _ => ⟨?_, ?_⟩⟩
    · simp only [setPoint, update_self] at hq
      rcases wakeParent_cases (s.point q) with ⟨h, hne⟩ | ⟨c, b, -, h⟩
      · rw [h] at hq
        cases w with
        | down => rfl
        | sleep => exact absurd hq (hne t a)
        | _ => cases hw
      · rw [h] at hq
        cases hq
        rfl
    · simp [setPoint]

end

lemma Start.heard (h : Start s) : s.Heard where
  exit p a ha := by
    simp [h.childList] at ha
  wait p c a w hp := by
    rcases h.point p with hq | hq <;> rw [hq] at hp <;> cases hp
  blocked p c a w hp := by
    rcases h.point p with hq | hq <;> rw [hq] at hp <;> cases hp

/-- The condition on a step: `process_wait` goes on to block only for a child that has its
executable recorded. -/
def WaitsLoaded (s : Processes) : Op → Prop
  | .next p => ∀ c a, s.point p = .waiting c a .test → s.exit a = false →
      s.executable c = true
  | _ => True

section

variable (hh : s.Heard) (ok : s.Ok)
include hh ok

/-- The parent tests the exit flag. It goes on to block only if the child was not told to. -/
lemma Heard.waitTest (hp : s.point p = .waiting c a .test)
    (hloaded : s.exit a = false → s.executable c = true) :
    (s.setPoint p (.waiting c a (if s.exit a then .up else .down))).Heard := by
  have hw := hh.wait p c a .test hp nofun
  have ha := ok.waiting p c a .test hp
  refine hh.moveQuiet rfl (by constructor <;> rfl) nofun nofun ?_
  rintro d b w ⟨⟩
  refine ⟨fun _ => hw, fun hblock => ?_⟩
  cases he : s.exit a with
  | true =>
    simp [he] at hblock
  | false =>
    have hnot : ¬ s.Told c := by
      intro h
      have hexit := hh.exit p a ha.1 (ha.2 ▸ h)
      simp [he] at hexit
    have hexec := hloaded he
    refine ⟨hexec, fun h => ?_, fun h => ?_, fun h => ?_⟩
    · exact hnot (.inl (by rw [h]; trivial))
    · exact hnot (.inl (by rw [h]; trivial))
    · exact absurd (.inr ⟨h, hexec⟩) hnot

lemma Heard.notify (ha : s.childProc t = some a) :
    Heard { s.setPoint t (.exiting .test) with
      exit := update s.exit a true
      exited := update s.exited t true } := by
  have hflag : Heard { s with exit := update s.exit a true } :=
    hh.flags (fun _ b _ h => by rw [update_apply, h, ite_self]) (fun _ _ _ h => h) ok
  refine hflag.move rfl (by constructor <;> rfl) ?_ nofun ?_
  · rintro - p b hb hbt
    rw [ok.eq_of_childProc hb hbt ha]
    exact update_self _ _ _
  · exact fun _ _ _ _ _ => ⟨nofun, nofun, nofun⟩

lemma Heard.notifySkipped
    (hn : s.childProc t = none ∨ s.parentExists t = false ∨ s.executable t = false) :
    (s.setPoint t .finished).Heard := by
  -- A listed child with an executable does not skip the block.
  have hskip : ∀ p, ∀ b ∈ s.childList p, s.pid b = t → s.executable t = false := by
    intro p b hb hbt
    have hown := ok.listed p b hb
    rw [hbt] at hown
    rcases hn with hn | hn | hn
    · simp [hown.2.2] at hn
    · simp [parentExists, hown.2.1, threadExist, ok.parent t p hown.2.1] at hn
    · exact hn
  refine hh.move rfl (by constructor <;> rfl) ?_ nofun ?_
  · rintro (h | ⟨-, h⟩) p b hb hbt
    · cases h
    · simp [hskip p b hb hbt] at h
  · intro p b w hp hw
    have hb := ok.waiting p t b w hp
    have he := (hh.blocked p t b w hp hw).executable
    simp [hskip p b hb.1 hb.2] at he

/-- The child tests the wait flag, which a parent that blocks has set. -/
lemma Heard.exitTest (ht : s.point t = .exiting .test) (ha : s.childProc t = some a) :
    (s.setPoint t (.exiting (if s.wait a then .up else .down))).Heard := by
  refine hh.move rfl (by constructor <;> rfl) ?_ nofun ?_
  · rintro - p b hb hbt
    exact hh.exit p b hb (.inl (by rw [hbt, ht]; trivial))
  · intro p b w hp hw
    have hb := ok.waiting p t b w hp
    have hset : s.wait a = true := by
      rw [← ok.eq_of_childProc hb.1 hb.2 ha]
      refine hh.wait p t b w hp fun h => ?_
      simp [h] at hw
    rw [hset]
    exact ⟨nofun, nofun, nofun⟩

lemma Heard.step (h : Step s op s') (hg : s.WaitsLoaded op) : s'.Heard := by
  cases h with
  | executeBare hp hc => exact hh.initThread ok hc none
  | execute hp hc ha => exact hh.execute ok hp hc ha
  | startLoaded hc n =>
    have hexec := hh.setExecutable (c := _) (by rw [hc]; simp)
    exact hexec.moveQuiet rfl (by constructor <;> rfl) (by simp) (by simp) (by simp)
  | waitRefused hp hc => exact hh.returned
  | waitCalled hp ha hw =>
    refine hh.moveQuiet rfl (by constructor <;> rfl) (by simp) (by simp) ?_
    rintro c a w ⟨⟩
    exact ⟨fun h => absurd rfl h, (by simp)⟩
  | @waitRemove p c a r hp =>
    have hmove : (s.setPoint p .running).Heard :=
      hh.moveQuiet rfl (by constructor <;> rfl) (by simp) (by simp) (by simp)
    exact hmove.removeChildProc.returned
  | free ht ha => exact hh.removeChildProc
  | @waitSet p c a hp =>
    have hflag : Heard { s with wait := update s.wait a true } :=
      hh.flags (fun _ _ _ h => h) (fun _ b _ h => by rw [update_apply, h, ite_self]) ok
    refine hflag.moveQuiet rfl (by constructor <;> rfl) (by simp) (by simp) ?_
    rintro c b w ⟨⟩
    exact ⟨fun _ => update_self _ _ _, (by simp)⟩
  | waitTest hp => exact hh.waitTest ok hp (hg _ _ hp)
  | waitUp hp _ | waitRead hp =>
    refine hh.moveQuiet rfl (by constructor <;> rfl) (by simp) (by simp) ?_
    rintro c a w ⟨⟩
    exact ⟨fun _ => hh.wait _ _ _ _ hp (by simp), (by simp)⟩
  | @waitWake p c w a hp hw hs =>
    have hwake : (s.setPoint w (.exiting .down)).Heard := by
      refine hh.move rfl (by constructor <;> rfl) ?_ (by simp) ?_
      · rintro - q b hb hbw
        exact hh.exit q b hb (.inl (by rw [hbw, hs]; trivial))
      · intro q b v hq hv
        exact absurd hs (hh.blocked q w b v hq hv).sleep
    refine hwake.moveQuiet rfl (by constructor <;> rfl) (by simp) (by simp) ?_
    rintro d b v ⟨⟩
    exact ⟨fun _ => hh.wait p c a .up hp (by simp), (by simp)⟩
  | @waitSleep p c a hp hv =>
    refine hh.moveQuiet rfl (by constructor <;> rfl) (by simp) (by simp) ?_
    rintro d b v ⟨⟩
    have he := hh.blocked p c a .down hp trivial
    exact ⟨fun _ => hh.wait p c a .down hp (by simp),
      fun _ => ⟨he.executable, he.down, he.sleep, fun h => absurd hv (he.credit h).2⟩⟩
  | @waitDown p c a hp hv =>
    have hmove : (s.setPoint p (.waiting c a .read)).Heard := by
      refine hh.moveQuiet rfl (by constructor <;> rfl) (by simp) (by simp) ?_
      rintro d b v ⟨⟩
      exact ⟨fun _ => hh.wait p c a .down hp (by simp), (by simp)⟩
    refine hmove.setSemaWait fun d b v hq hblock => ?_
    simp only [setPoint, update_self] at hq
    cases hq
    cases hblock
  | startFailed _ _ | exit _ | threadExit _ | loaded _ _ | store _ _ | storeSkipped _ _ | print _
  | freed _ _ => exact hh.moveQuiet rfl (by constructor <;> rfl) (by simp) (by simp) (by simp)
  | notify ht ha he => exact hh.notify ok ha
  | notifySkipped ht hn => exact hh.notifySkipped ok hn
  | exitTest ht ha => exact hh.exitTest ok ht ha
  | exitUp ht hp => exact hh.upParent ok ht hp
  | @exitDown t a ht ha =>
    refine hh.move rfl (by constructor <;> rfl) ?_ ?_ ?_
    · rintro - p b hb hbt
      exact hh.exit p b hb (.inl (by rw [hbt, ht]; trivial))
    · intro c b w h
      split at h <;> cases h
    · intro p b w hp hw
      exact absurd ht (hh.blocked p t b w hp hw).down
  | reuse ha => exact hh.reuse ok ha
  | reorder => exact hh.shrink rfl (fun _ _ h => h) rfl rfl rfl rfl rfl

end

/-- The parent is not asleep in a `process_wait` on a child that is past the block. -/
def NoHang (s : Processes) : Prop :=
  ∀ p c a, s.point p = .waiting c a .sleep → s.point c ≠ .finished

lemma Heard.noHang (hh : s.Heard) : s.NoHang := by
  intro p c a hp hc
  exact absurd ((hh.blocked p c a .sleep hp trivial).credit hc).1 nofun

theorem noHang_throughout {ops : List Op} (h : machine.start s)
    (hmeets : machine.Meets WaitsLoaded s ops) : machine.Throughout NoHang s ops := by
  refine ⟨(Start.heard h).noHang, ?_⟩
  refine Machine.EachStep.imp (I := fun s => s.Ok ∧ s.Heard) ?_ ⟨Start.ok h, Start.heard h⟩ hmeets
  intro s op s' hs hstep hg
  have hS := Step.of_step hstep
  have hheard := hs.2.step hs.1 hS hg
  exact ⟨hheard.noHang, hs.1.step hS, hheard⟩

instance (s : Processes) : (op : Op) → Decidable (s.WaitsLoaded op)
  | .next p =>
    match h : s.point p with
    | .waiting c a .test =>
      decidable_of_iff (s.exit a = false → s.executable c = true) (by simp [WaitsLoaded, h])
    | .waiting _ _ .set | .waiting _ _ .up | .waiting _ _ .down | .waiting _ _ .sleep
    | .waiting _ _ .read | .waiting _ _ (.remove _) | .unborn | .starting | .running
    | .loading _ | .exiting _ | .finished => isTrue (by simp [WaitsLoaded, h])
  | .execute .. | .start .. | .wait .. | .exit .. | .threadExit .. | .reuse .. | .reorder .. =>
    isTrue trivial

/-- The initial thread executes a program, which loads and exits with status 7, and waits
for it. -/
theorem noHang_throughout_booted :
    machine.start booted ∧ machine.Throughout NoHang booted
      ([Op.execute 0 1 (some ⟨0⟩), .start 1 .loaded, .next 0, .wait 0 1] ++
        List.replicate 3 (Op.next 0) ++ [Op.exit 1 7] ++ List.replicate 6 (Op.next 1) ++
        List.replicate 3 (Op.next 0)) :=
  ⟨booted_start, noHang_throughout booted_start (by decide +kernel)⟩

/-- A program that cannot be loaded: its parent waits for it and sleeps for ever. -/
theorem processWait_hangs_on_failed_load :
    machine.start booted ∧ ∃ s, machine.run booted
        ([Op.execute 0 1 (some ⟨0⟩), .start 1 .failed, .next 0, .wait 0 1] ++
          List.replicate 3 (Op.next 0) ++ List.replicate 3 (Op.next 1)) = some s ∧
      s.point 0 = .waiting 1 ⟨0⟩ .sleep ∧ s.point 1 = .finished ∧ ¬ s.NoHang := by
  have hrun : (machine.run booted
      ([Op.execute 0 1 (some ⟨0⟩), .start 1 .failed, .next 0, .wait 0 1] ++
        replicate 3 (Op.next 0) ++ replicate 3 (Op.next 1))).map
      (fun s => (s.point 0, s.point 1)) = some (.waiting 1 ⟨0⟩ .sleep, .finished) := by
    decide +kernel
  obtain ⟨s, hs, heq⟩ := Option.map_eq_some_iff.mp hrun
  rw [Prod.mk.injEq] at heq
  exact ⟨booted_start, s, hs, heq.1, heq.2, fun h => h 0 1 ⟨0⟩ heq.1 heq.2⟩

end Processes

end Pintos.Userprog
