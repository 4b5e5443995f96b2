import Pintos.Foundation.Transition
import Pintos.Threads.Synch

/-! # Runs of one semaphore

Any number of threads use one semaphore. The sections of `sema_down`, `sema_try_down` and
`sema_up` that run with interrupts off are single steps; a thread that `sema_up` has
unblocked tests the value again in a step of its own, and until then others may take the
unit. Priorities, which order the waiters, may change at any time.
-/

namespace Pintos.Threads

open Foundation Lib List Semaphore

/-- A semaphore, the unblocked threads that have not tested it, and the completed ups and downs. -/
structure SemaRun where
  initial : Nat
  thread : ThreadRef → Thread
  sema : Semaphore
  woken : List ThreadRef
  ups : Nat
  downs : Nat

inductive SemaOp where
  | down (t : ThreadRef)
  | resume (t : ThreadRef)
  | tryDown
  | up
  | setPriority (t : ThreadRef) (p : Int)

namespace SemaRun

def less (s : SemaRun) (a b : ThreadRef) : Bool :=
  comparePriority elemOfs (s.thread a) (s.thread b)

/-- A test of the loop of `sema_down` by `t`. -/
def test (s : SemaRun) (t : ThreadRef) : SemaRun :=
  let out := s.sema.down s.less t
  { s with sema := out.1, downs := if out.2 then s.downs + 1 else s.downs }

def tryDown (s : SemaRun) : SemaRun :=
  let out := s.sema.tryDown
  { s with sema := out.1, downs := if out.2 then s.downs + 1 else s.downs }

def up (s : SemaRun) : SemaRun :=
  let out := s.sema.up s.less
  { s with sema := out.1, woken := out.2.toList ++ s.woken, ups := s.ups + 1 }

def step (s : SemaRun) : SemaOp → Option SemaRun
  | .down t => if t ∈ s.woken ++ s.sema.waiters then none else some (s.test t)
  | .resume t =>
      if t ∈ s.woken then some ({ s with woken := s.woken.erase t }.test t) else none
  | .tryDown => some s.tryDown
  | .up => some s.up
  | .setPriority t p =>
      some { s with thread := Function.update s.thread t { s.thread t with priority := p } }

structure Start (s : SemaRun) : Prop where
  value : s.sema.value = s.initial
  unsigned : s.initial < 2 ^ 32
  waiters : s.sema.waiters = []
  woken : s.woken = []
  counts : s.ups = 0 ∧ s.downs = 0

def machine : Machine SemaRun SemaOp := ⟨Start, step⟩

/-- `credit` keeps wake-ups from getting lost: while threads queue, every unit has a thread on its
way. -/
structure Ok (s : SemaRun) : Prop where
  count : s.downs ≤ s.initial + s.ups
  value : s.sema.value = (s.initial + s.ups - s.downs) % 2 ^ 32
  nodup : (s.woken ++ s.sema.waiters).Nodup
  credit : s.sema.waiters ≠ [] → s.sema.value ≤ s.woken.length

lemma Start.ok {s : SemaRun} (h : s.Start) : s.Ok := by
  refine ⟨by rw [h.counts.2]; exact Nat.zero_le _, ?_, ?_, fun hne => absurd h.waiters hne⟩
  · rw [h.value, h.counts.1, h.counts.2, Nat.add_zero, Nat.sub_zero, Nat.mod_eq_of_lt h.unsigned]
  · rw [h.woken, h.waiters]
    exact nodup_nil

namespace Ok

variable {s : SemaRun} {t : ThreadRef}

lemma take (ok : s.Ok) (h : s.sema.value ≠ 0) :
    s.downs + 1 ≤ s.initial + s.ups ∧
      s.sema.value - 1 = (s.initial + s.ups - (s.downs + 1)) % 2 ^ 32 := by
  have hvalue := ok.value
  omega

/-- A test by `t`, which is not queued; `woken` are the others on their way. -/
lemma test {woken : List ThreadRef} (ok : s.Ok) (hnodup : (woken ++ t :: s.sema.waiters).Nodup)
    (hlen : s.woken.length ≤ woken.length + 1) : ({ s with woken := woken }.test t).Ok := by
  unfold SemaRun.test
  by_cases hv : s.sema.value = 0
  · rw [down_of_zero hv]
    refine ⟨ok.count, ok.value, ?_, fun _ => ?_⟩
    · have hperm := (listInsertOrdered_perm (SemaRun.less { s with woken := woken }) t
        s.sema.waiters).append_left woken
      exact hperm.nodup_iff.mpr hnodup
    · show s.sema.value ≤ woken.length
      omega
  · rw [down_of_pos hv]
    obtain ⟨hcount, hvalue⟩ := ok.take hv
    refine ⟨hcount, hvalue, hnodup.sublist ?_, fun hne => ?_⟩
    · exact (sublist_cons_self t _).append_left woken
    · have hcredit := ok.credit hne
      show s.sema.value - 1 ≤ woken.length
      omega

lemma tryDown (ok : s.Ok) : s.tryDown.Ok := by
  unfold SemaRun.tryDown Semaphore.tryDown
  by_cases hv : s.sema.value = 0
  · rwa [if_neg (by omega)]
  · rw [if_pos (by omega)]
    obtain ⟨hcount, hvalue⟩ := ok.take hv
    refine ⟨hcount, hvalue, ok.nodup, ?_⟩
    intro hne
    have hcredit := ok.credit hne
    dsimp only
    omega

lemma up (ok : s.Ok) : s.up.Ok := by
  have hcount := ok.count
  have hvalue := ok.value
  have hperm := up_waiters_perm s.less s.sema
  have hnew := up_value s.less s.sema
  have hnone := up_eq_none_iff s.less s.sema
  unfold SemaRun.up
  generalize s.sema.up s.less = out at hperm hnew hnone ⊢
  obtain ⟨⟨value, waiters⟩, woken⟩ := out
  dsimp only at hperm hnew hnone ⊢
  refine ⟨?_, ?_, ?_, fun hne => ?_⟩
  · show s.downs ≤ s.initial + (s.ups + 1)
    omega
  · show value = (s.initial + (s.ups + 1) - s.downs) % 2 ^ 32
    omega
  · show (woken.toList ++ s.woken ++ waiters).Nodup
    have hswap : (woken.toList ++ s.woken ++ waiters).Perm (s.woken ++ s.sema.waiters) := by
      refine (perm_append_comm.append_right waiters).trans ?_
      rw [append_assoc]
      exact hperm.append_left s.woken
    exact hswap.nodup_iff.mpr ok.nodup
  · show value ≤ (woken.toList ++ s.woken).length
    cases woken with
    | none =>
      -- a thread that stays queued was queued before, so one was woken
      have hnil := hnone.mp rfl
      rw [hnil] at hperm
      exact absurd hperm.eq_nil hne
    | some w =>
      have hcredit := ok.credit fun h => by simpa using hnone.mpr h
      have hlen : ((some w).toList ++ s.woken).length = s.woken.length + 1 := by simp
      omega

lemma step {s' : SemaRun} {op : SemaOp} (ok : s.Ok) (hs : s.step op = some s') : s'.Ok := by
  cases op with
  | down t =>
    simp only [SemaRun.step, Option.ite_none_left_eq_some, Option.some.injEq] at hs
    rcases hs with ⟨hout, rfl⟩
    refine ok.test ?_ (Nat.le_succ _)
    exact perm_middle.nodup_iff.mpr (nodup_cons.mpr ⟨hout, ok.nodup⟩)
  | resume t =>
    simp only [SemaRun.step, Option.ite_none_right_eq_some, Option.some.injEq] at hs
    rcases hs with ⟨hmem, rfl⟩
    refine ok.test ?_ (by rw [length_erase_of_mem hmem]; omega)
    have hperm : (s.woken.erase t ++ t :: s.sema.waiters).Perm (s.woken ++ s.sema.waiters) :=
      perm_middle.trans ((perm_cons_erase hmem).symm.append_right _)
    exact hperm.nodup_iff.mpr ok.nodup
  | tryDown =>
    cases hs
    exact ok.tryDown
  | up =>
    cases hs
    exact ok.up
  | setPriority t p =>
    cases hs
    exact ⟨ok.count, ok.value, ok.nodup, ok.credit⟩

end Ok

/-- The value is initial plus ups minus downs, modulo `2 ^ 32`; downs never exceed what there was;
while threads queue, the value is at most the number of threads on their way to test it. -/
theorem reachable_value {s : SemaRun} (h : machine.Reachable s) :
    s.downs ≤ s.initial + s.ups ∧
      s.sema.value = (s.initial + s.ups - s.downs) % 2 ^ 32 ∧
      (s.initial + s.ups - s.downs < 2 ^ 32 → s.sema.value + s.downs = s.initial + s.ups) ∧
      s.woken.Nodup ∧ (s.sema.waiters ≠ [] → s.sema.value ≤ s.woken.length) := by
  have ok : s.Ok := h.invariant (fun _ => Start.ok) fun _ _ _ ok hs => ok.step hs
  refine ⟨ok.count, ok.value, fun hlt => ?_, (nodup_append.mp ok.nodup).1, ok.credit⟩
  have hcount := ok.count
  rw [ok.value, Nat.mod_eq_of_lt hlt]
  omega

def unused (value : Nat) : SemaRun where
  initial := value
  thread := fun _ => ⟨[], 31, 31, [], none⟩
  sema := ⟨value, []⟩
  woken := []
  ups := 0
  downs := 0

lemma unused_start {value : Nat} (h : value < 2 ^ 32) : machine.start (unused value) :=
  ⟨rfl, h, rfl, rfl, rfl, rfl⟩

/-- Two threads queue and one is woken. -/
theorem reachable_value_unused :
    ∃ s, machine.run (unused 0) [.down 1, .down 2, .up] = some s ∧ machine.Reachable s ∧
      s.sema.waiters = [2] ∧ s.sema.value ≤ s.woken.length := by
  obtain ⟨s, hs, hw⟩ : ∃ s, machine.run (unused 0) [.down 1, .down 2, .up] = some s ∧
      s.sema.waiters = [2] := ⟨_, rfl, rfl⟩
  have hreach := Machine.reachable_run (.start (unused_start (by decide))) hs
  exact ⟨s, hs, hreach, hw, (reachable_value hreach).2.2.2.2 (by rw [hw]; decide)⟩

/-- One up on a semaphore of value 4294967295 makes the value 0. -/
theorem up_wraps_value :
    machine.start (unused 4294967295) ∧
      ∃ s, machine.run (unused 4294967295) [.up] = some s ∧ s.initial = 4294967295 ∧
        s.ups = 1 ∧ s.downs = 0 ∧ s.sema.value = 0 :=
  ⟨unused_start (by decide), _, rfl, rfl, rfl, rfl, rfl⟩

end SemaRun

end Pintos.Threads
