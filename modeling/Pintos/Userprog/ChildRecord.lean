import Pintos.Userprog.ChildOwnership

/-! # The lifetime of child records

A parent frees the record of a child in `process_wait` and in its own `process_exit`; the
child goes on using it through `child_proc`. The steps that use a record are listed here,
and every run in which records are freed late enough is shown to use no freed one.
-/

namespace Pintos.Userprog

open Foundation Lib Threads Function List

/-- A thread here does not use its own record again unless it is woken. -/
@[simp] def Point.Quiet (executable : Bool) : Point → Prop
  | .exiting .print | .exiting .free | .exiting .notify => executable = false
  | .exiting .up | .exiting .sleep | .finished => True
  | _ => False

namespace Processes

variable {s s' : Processes} {op : Op}

/-- The record that `t` reaches through `child_proc`, taken for its own. -/
def ownRecord (s : Processes) (t : Tid) : List (Tid × Addr) :=
  (s.childProc t).toList.map fun a => (t, a)

/-- The records on the child list of `p`, each with the child it is for. -/
def listedRecords (s : Processes) (p : Tid) : List (Tid × Addr) :=
  (s.childList p).map fun a => (s.pid a, a)

/-- The records that a step uses, each with the child it is taken for. A change of a child list uses
all on it. -/
def recordsUsed (s : Processes) : Op → List (Tid × Addr)
  | .execute p _ _ => s.listedRecords p
  | .wait p _ => s.listedRecords p
  | .next t =>
      match s.point t with
      | .waiting c a .set | .waiting c a .test | .waiting c a .up | .waiting c a .read =>
          [(c, a)]
      | .waiting c a (.remove _) => (c, a) :: s.listedRecords t
      | .exiting (.store _) => if s.parentExists t then s.ownRecord t else []
      | .exiting .print => if s.executable t then s.ownRecord t else []
      | .exiting .free => s.listedRecords t
      | .exiting .notify => if s.parentExists t ∧ s.executable t then s.ownRecord t else []
      | .exiting .test | .exiting .down => s.ownRecord t
      | _ => []
  | _ => []

def UsesHeld (s : Processes) (op : Op) : Prop :=
  ∀ r ∈ s.recordsUsed op, s.Holds r.1 r.2

/-- The condition on a step: a record is freed only when its child is quiet. -/
def FreesQuiet (s : Processes) : Op → Prop
  | .next t =>
      (∀ c a r, s.point t = .waiting c a (.remove r) → (s.point c).Quiet (s.executable c)) ∧
      (s.point t = .exiting .free → ∀ a, (s.childList t).head? = some a →
        (s.point (s.pid a)).Quiet (s.executable (s.pid a)))
  | _ => True

/-! ## Freed records are left alone -/

structure Settled (s : Processes) : Prop where
  stale : s.StaleAt Point.Quiet
  waiters : ∀ a, s.live a = true → ∀ w ∈ (s.semaZombi a).waiters, w = s.pid a

lemma Start.settled (h : Start s) : s.Settled where
  stale c a hc := by
    simp [h.childProc] at hc
  waiters a ha := by
    simp [h.live] at ha

variable {p t c : Tid} {a : Addr}

lemma Ok.listedRecords_held (ok : s.Ok) : ∀ r ∈ s.listedRecords p, s.Holds r.1 r.2 := by
  intro r hr
  obtain ⟨a, ha, rfl⟩ := mem_map.mp hr
  exact ⟨(ok.listed p a ha).1, rfl⟩

section

variable (hs : s.Settled)
include hs

lemma Settled.ownRecord_held (ht : ¬ (s.point t).Quiet (s.executable t)) :
    ∀ r ∈ s.ownRecord t, s.Holds r.1 r.2 := by
  intro r hr
  obtain ⟨a, ha, rfl⟩ := mem_map.mp hr
  exact (hs.stale t a (Option.mem_toList.mp ha)).resolve_right ht

lemma Settled.usesHeld (ok : s.Ok) (op : Op) : s.UsesHeld op := by
  intro r hr
  cases op with
  | execute p c a => exact ok.listedRecords_held r hr
  | wait p c => exact ok.listedRecords_held r hr
  | next t =>
    cases hp : s.point t with
    | waiting c a w =>
      have hheld := ok.waiting_held hp
      cases w <;> simp [recordsUsed, hp] at hr
      case remove v =>
        rcases hr with rfl | hr
        · exact hheld
        · exact ok.listedRecords_held r hr
      all_goals
        rwa [hr]
    | exiting e =>
      have hown := fun h : ¬ (Point.exiting e).Quiet (s.executable t) =>
        hs.ownRecord_held (hp ▸ h) r
      cases e <;> simp [recordsUsed, hp] at hr
      case store v => exact hown id hr.2
      case print => exact hown (by simp [hr.1]) hr.2
      case free => exact ok.listedRecords_held r hr
      case notify => exact hown (by simp [hr.1]) hr.2
      case test => exact hown id hr
      case down => exact hown id hr
    | _ => simp [recordsUsed, hp] at hr
  | _ => cases hr

lemma Settled.move {pt : Point} (hpoint : s'.point = update s.point t pt)
    (hproc : s'.childProc = s.childProc) (hlive : s'.live = s.live) (hpid : s'.pid = s.pid)
    (hexec : s'.executable = s.executable)
    (hzombi : ∀ a, s.live a = true → ∀ w ∈ (s'.semaZombi a).waiters, w = s.pid a)
    (hquiet : (s.point t).Quiet (s.executable t) →
      (∀ a, s.childProc t = some a → s.Holds t a) ∨ pt.Quiet (s.executable t)) :
    s'.Settled := by
  refine ⟨hs.stale.move hproc hlive hpid hexec hpoint hquiet, ?_⟩
  rwa [hlive, hpid]

lemma Settled.moveBusy {pt : Point} (ht : ¬ (s.point t).Quiet (s.executable t))
    (hpoint : s'.point = update s.point t pt) (hproc : s'.childProc = s.childProc)
    (hlive : s'.live = s.live) (hpid : s'.pid = s.pid) (hexec : s'.executable = s.executable)
    (hzombi : ∀ a, s.live a = true → ∀ w ∈ (s'.semaZombi a).waiters, w = s.pid a) :
    s'.Settled :=
  hs.move hpoint hproc hlive hpid hexec hzombi fun h => absurd h ht

lemma Settled.removeChildProc (ha : (s.point (s.pid a)).Quiet (s.executable (s.pid a))) :
    (s.removeChildProc p a).Settled := by
  refine ⟨hs.stale.removeChildProc ha, fun b hb => hs.waiters b ?_⟩
  simp only [Processes.removeChildProc, update_apply] at hb
  split at hb
  · cases hb
  · exact hb

lemma Settled.returned : (s.returned p c).Settled := by
  unfold Processes.returned
  split
  · exact ⟨hs.stale, hs.waiters⟩
  · exact hs

lemma Settled.execute (hp : s.point p = .running) (ha : s.live a = false) :
    ((s.initThread p c a).addChildProc p c a).Settled := by
  refine ⟨hs.stale.execute (fun _ => id) hp ha, fun b hb w hw => ?_⟩
  simp only [Processes.initThread, addChildProc, update_apply] at hb hw ⊢
  by_cases hba : b = a
  · simp [hba] at hw
  · simp only [hba, ↓reduceIte] at hb hw ⊢
    exact hs.waiters b hb w hw

lemma Settled.up_waiters (a : Addr) :
    ∀ b, s.live b = true → ∀ w ∈ (update s.semaZombi a
      ((s.semaZombi a).up s.less).1 b).waiters, w = s.pid b := by
  intro b hb w hw
  refine hs.waiters b hb w ?_
  rw [update_apply] at hw
  split at hw
  · next h =>
      rw [h]
      exact ((s.semaZombi a).up_waiters_perm s.less).subset (mem_append_right _ hw)
  · exact hw

/-- The child that the parent wakes has its record still. -/
lemma Settled.waitWake {w : Tid} (ok : s.Ok)
    (hp : s.point p = .waiting c a .up) (hw : ((s.semaZombi a).up s.less).2 = some w) :
    (({ s with semaZombi := update s.semaZombi a ((s.semaZombi a).up s.less).1
      }.setPoint w (.exiting .down)).setPoint p (.waiting c a .read)).Settled := by
  have hlisted := ok.listed p a (ok.waiting p c a .up hp).1
  have hwa : w = s.pid a := by
    refine hs.waiters a hlisted.1 w (((s.semaZombi a).up_waiters_perm s.less).subset ?_)
    rw [hw]
    exact mem_cons_self
  have hwake : ({ s with semaZombi := update s.semaZombi a ((s.semaZombi a).up s.less).1
      }.setPoint w (.exiting .down)).Settled := by
    refine hs.move rfl rfl rfl rfl rfl (hs.up_waiters a) fun _ => .inl fun b hb => ?_
    rw [hwa, hlisted.2.2] at hb
    cases hb
    exact ⟨hlisted.1, hwa.symm⟩
  refine hwake.move rfl rfl rfl rfl rfl hwake.waiters fun hquiet => .inl fun b hb => ?_
  -- The parent is in `process_wait`, so that it is not quiet unless it woke itself.
  simp only [Processes.setPoint, update_apply] at hquiet
  split at hquiet
  · cases hquiet
  · simp [hp] at hquiet

lemma Settled.downZombi (ht : s.point t = .exiting .down)
    (ha : s.childProc t = some a) : (s.downZombi t a).Settled := by
  have hbusy : ¬ (s.point t).Quiet (s.executable t) := by simp [ht]
  have hheld := (hs.stale t a ha).resolve_right hbusy
  refine hs.moveBusy hbusy rfl rfl rfl rfl rfl fun b hb w hw => ?_
  simp only [Processes.downZombi, Processes.setPoint, update_apply] at hw
  split at hw
  · next hba =>
      rw [hba]
      by_cases hv : (s.semaZombi a).value = 0
      · rw [Semaphore.down_of_zero hv, mem_listInsertOrdered] at hw
        rcases hw with rfl | hw
        · exact hheld.2.symm
        · exact hs.waiters a hheld.1 w hw
      · rw [Semaphore.down_of_pos hv] at hw
        exact hs.waiters a hheld.1 w hw
  · exact hs.waiters b hb w hw

lemma Settled.reuse {pid : Tid} {exit wait : Bool} {status : Int} {zombi : Semaphore}
    (ha : s.live a = false) : (s.reused a pid exit wait status zombi).Settled := by
  refine ⟨hs.stale.reuse ha, fun b hb w hw => ?_⟩
  simp only [reused, update_of_ne (ne_of_live ha hb)] at hw ⊢
  exact hs.waiters b hb w hw

lemma Settled.upParent : (s.upParent t p).Settled := by
  have hwake : (s.setPoint p (wakeParent (s.point p))).Settled := by
    refine hs.move rfl rfl rfl rfl rfl hs.waiters fun h => .inr ?_
    rcases wakeParent_cases (s.point p) with ⟨heq, -⟩ | ⟨c, a, heq, -⟩
    · rwa [heq]
    · simp [heq] at h
  exact hwake.move rfl rfl rfl rfl rfl hwake.waiters fun _ => .inr trivial

lemma Settled.step (ok : s.Ok) (h : Step s op s') (hg : s.FreesQuiet op) : s'.Settled := by
  cases h with
  | executeBare hp _ => exact ⟨hs.stale.initThread (fun _ => id) hp, hs.waiters⟩
  | execute hp _ ha => exact hs.execute hp ha
  | @startLoaded c hc _ =>
    have hexec : Settled { s with executable := update s.executable c true } :=
      ⟨hs.stale.setExecutable (by simp [hc]), hs.waiters⟩
    exact hexec.moveBusy (by simp [hc]) rfl rfl rfl rfl rfl hexec.waiters
  | waitRefused _ _ => exact hs.returned
  | @waitRemove p c a r hp =>
    have hmove : (s.setPoint p .running).Settled :=
      hs.moveBusy (by simp [hp]) rfl rfl rfl rfl rfl hs.waiters
    refine (hmove.removeChildProc ?_).returned
    have hquiet := hg.1 c a r hp
    have hca : s.pid a = c := (ok.waiting p c a _ hp).2
    have hne : c ≠ p := by
      rintro rfl
      simp [hp] at hquiet
    simp only [Processes.setPoint]
    rwa [hca, update_of_ne hne]
  | free ht ha => exact hs.removeChildProc (hg.2 ht _ ha)
  | waitUp hp _ => exact hs.moveBusy (by simp [hp]) rfl rfl rfl rfl rfl (hs.up_waiters _)
  | waitWake hp hw _ => exact hs.waitWake ok hp hw
  | startFailed ht _ | waitCalled ht _ _ | exit ht | threadExit ht | loaded ht _ | waitSet ht
  | waitTest ht | waitSleep ht _ | waitDown ht _ | waitRead ht | store ht _ | storeSkipped ht _
  | exitTest ht _ => exact hs.moveBusy (by simp [ht]) rfl rfl rfl rfl rfl hs.waiters
  | notify ht _ he => exact hs.moveBusy (by simp [ht, he]) rfl rfl rfl rfl rfl hs.waiters
  | print ht | freed ht _ | notifySkipped ht _ =>
    refine hs.move rfl rfl rfl rfl rfl hs.waiters fun h => .inr ?_
    rw [ht] at h
    first | exact h | trivial
  | exitUp _ _ => exact hs.upParent
  | exitDown ht ha => exact hs.downZombi ht ha
  | reuse ha => exact hs.reuse ha
  | reorder => exact ⟨hs.stale, hs.waiters⟩

end

/-- In every run that frees records only of quiet children, no freed record is used. -/
theorem usesHeld_throughout {ops : List Op} (h : machine.start s)
    (hmeets : machine.Meets FreesQuiet s ops) :
    machine.EachStep (fun s op _ => s.UsesHeld op) s ops := by
  refine Machine.EachStep.imp (I := fun s => s.Ok ∧ s.Settled) ?_
    ⟨Start.ok h, Start.settled h⟩ hmeets
  intro s op s' hs hstep hg
  have hS := Step.of_step hstep
  exact ⟨hs.2.usesHeld hs.1 op, hs.1.step hS, hs.2.step hs.1 hS hg⟩

instance (executable : Bool) : (pt : Point) → Decidable (pt.Quiet executable)
  | .exiting .print | .exiting .free | .exiting .notify =>
    inferInstanceAs (Decidable (executable = false))
  | .exiting .up | .exiting .sleep | .finished => isTrue trivial
  | .exiting (.store _) | .exiting .test | .exiting .down | .unborn | .starting | .running
  | .loading _ | .waiting .. => isFalse id

instance (s : Processes) : (op : Op) → Decidable (s.FreesQuiet op)
  | .next t =>
    match h : s.point t with
    | .waiting c _ (.remove _) =>
      decidable_of_iff ((s.point c).Quiet (s.executable c)) (by simp [FreesQuiet, h])
    | .exiting .free =>
      match hl : (s.childList t).head? with
      | none => isTrue (by simp [FreesQuiet, h, hl])
      | some a =>
        decidable_of_iff ((s.point (s.pid a)).Quiet (s.executable (s.pid a)))
          (by simp [FreesQuiet, h, hl])
    | .waiting _ _ .set | .waiting _ _ .test | .waiting _ _ .up | .waiting _ _ .down
    | .waiting _ _ .sleep | .waiting _ _ .read | .exiting (.store _) | .exiting .print
    | .exiting .notify | .exiting .test | .exiting .up | .exiting .down | .exiting .sleep
    | .unborn | .starting | .running | .loading _ | .finished =>
      isTrue (by simp [FreesQuiet, h])
  | .execute .. | .start .. | .wait .. | .exit .. | .threadExit .. | .reuse .. | .reorder .. =>
    isTrue trivial

/-- The parent waits first, and frees the record of a child that has woken it. -/
theorem usesHeld_throughout_booted :
    machine.start booted ∧ machine.EachStep (fun s op _ => s.UsesHeld op) booted
      ([Op.execute 0 1 (some ⟨0⟩), .start 1 .loaded, .next 0, .wait 0 1] ++
        List.replicate 3 (Op.next 0) ++ [Op.exit 1 7] ++ List.replicate 6 (Op.next 1) ++
        List.replicate 3 (Op.next 0)) :=
  ⟨booted_start, usesHeld_throughout booted_start (by decide +kernel)⟩

/-- The parent wakes the child and frees the record before the child tests its semaphore. -/
theorem processWait_frees_used_record :
    machine.start booted ∧ ∃ s, machine.run booted
        ([Op.execute 0 1 (some ⟨0⟩), .start 1 .loaded, .next 0, .exit 1 7] ++
          List.replicate 6 (Op.next 1) ++ [Op.wait 0 1] ++ List.replicate 5 (Op.next 0)) = some s ∧
      s.live ⟨0⟩ = false ∧ (1, ⟨0⟩) ∈ s.recordsUsed (.next 1) ∧
      (s.step (.next 1)).isSome ∧ ¬ s.UsesHeld (.next 1) := by
  have hrun : (machine.run booted
      ([Op.execute 0 1 (some ⟨0⟩), .start 1 .loaded, .next 0, .exit 1 7] ++
        replicate 6 (Op.next 1) ++ [Op.wait 0 1] ++ replicate 5 (Op.next 0))).map
      (fun s => (s.live ⟨0⟩, s.recordsUsed (.next 1), (s.step (.next 1)).isSome)) =
      some (false, [(1, ⟨0⟩)], true) := by
    decide +kernel
  obtain ⟨s, hs, heq⟩ := Option.map_eq_some_iff.mp hrun
  simp only [Prod.mk.injEq] at heq
  obtain ⟨hlive, hused, hstep⟩ := heq
  have hmem : (1, ⟨0⟩) ∈ s.recordsUsed (.next 1) := by
    rw [hused]
    exact mem_cons_self
  refine ⟨booted_start, s, hs, hlive, hmem, hstep, fun h => ?_⟩
  have hheld := (h _ hmem).1
  rw [hlive] at hheld
  cases hheld

end Processes

end Pintos.Userprog
