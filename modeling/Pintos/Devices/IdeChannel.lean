import Pintos.Foundation.Transition
import Pintos.Threads.Synch

/-!
# Commands and completions of a disk channel (devices/ide.c)

Reads and writes on one channel by any number of threads, with interrupts of the channel at any
time. `completion_wait` is upped by the handler and downed once by every transfer. The lock of
the channel is taken and released in single steps; what happens inside of these is the subject
of the mutual exclusion of locks. The hardware is not modelled: an interrupt may come at any
time, and `wait_while_busy` may find the disk ready or not.
-/

namespace Pintos.Devices

open Foundation Threads Function

namespace IdeChannel

/-! ## Transfers -/

structure Request where
  write : Bool
  sector : UInt32
  deriving DecidableEq

inductive Point where
  | outside
  | locking (r : Request)
  /-- Before `select_sector`. -/
  | selecting (r : Request)
  /-- Before `issue_pio_command`. -/
  | issuing (r : Request)
  /-- Before a test of `completion_wait`. -/
  | downing (r : Request)
  /-- Blocked on `completion_wait`. -/
  | asleep (r : Request)
  /-- Before `wait_while_busy` and the transfer of the sector. -/
  | transferring (r : Request)
  | releasing
  deriving DecidableEq

namespace Point

/-- Between `lock_acquire` and `lock_release`. -/
@[simp] def InSection : Point → Prop
  | outside | locking _ => False
  | _ => True

/-- A command is issued and its completion not yet consumed. -/
@[simp] def Pending : Point → Prop
  | downing _ | asleep _ => True
  | transferring r => r.write = true
  | _ => False

end Point

/-- `struct channel` and its callers. The last four fields are history: commands issued, `ups k` for
the ups while `k` was the last, and the ups not yet and already consumed. -/
structure State where
  holder : Option ThreadRef
  expectingInterrupt : Bool
  completionWait : Semaphore
  priority : ThreadRef → Int
  point : ThreadRef → Point
  issued : Nat
  ups : Nat → Nat
  credits : List Nat
  consumed : List (Nat × Nat)

inductive Label where
  | call (t : ThreadRef) (r : Request)
  | acquire (t : ThreadRef)
  | select (t : ThreadRef)
  | issue (t : ThreadRef)
  | down (t : ThreadRef)
  /-- `ready` is what `wait_while_busy` returns. -/
  | transfer (t : ThreadRef) (ready : Bool)
  | release (t : ThreadRef)
  | interrupt
  | setPriority (t : ThreadRef) (p : Int)

namespace State

def elemLess (s : State) (a b : ThreadRef) : Bool := decide (s.priority a > s.priority b)

def goto (s : State) (t : ThreadRef) (p : Point) : State :=
  { s with point := Function.update s.point t p }

def issuePioCommand (s : State) : State :=
  { s with expectingInterrupt := true, issued := s.issued + 1 }

/-- One test of the loop of `sema_down (&c->completion_wait)`. -/
def semaDown (s : State) (t : ThreadRef) (r : Request) : State :=
  let out := s.completionWait.down s.elemLess t
  if out.2 then
    { s with
      completionWait := out.1
      credits := s.credits.tail
      consumed := s.consumed ++ [(s.credits.headD 0, s.issued)] }.goto t
        (if r.write then .releasing else .transferring r)
  else { s with completionWait := out.1 }.goto t (.asleep r)

/-- `sema_up (&c->completion_wait)`; a thread that is blocked there is to test again. -/
def semaUp (s : State) : Option State :=
  let out := s.completionWait.up s.elemLess
  let s := { s with
    completionWait := out.1
    ups := Function.update s.ups s.issued (s.ups s.issued + 1)
    credits := s.credits ++ [s.issued] }
  match out.2 with
  | none => some s
  | some w =>
      match s.point w with
      | .asleep r => some (s.goto w (.downing r))
      | _ => none

def interruptHandler (s : State) : Option State :=
  if s.expectingInterrupt then s.semaUp else some s

/-- A failed assertion and `PANIC` are the end of the run. -/
def step (s : State) : Label → Option State
  | .call t r => if s.point t = .outside then some (s.goto t (.locking r)) else none
  | .acquire t =>
      match s.point t with
      | .locking r =>
          if s.holder = none then some ({ s with holder := some t }.goto t (.selecting r)) else none
      | _ => none
  | .select t =>
      match s.point t with
      | .selecting r => if r.sector < 0x10000000 then some (s.goto t (.issuing r)) else none
      | _ => none
  | .issue t =>
      match s.point t with
      | .issuing r =>
          some (s.issuePioCommand.goto t (if r.write then .transferring r else .downing r))
      | _ => none
  | .down t =>
      match s.point t with
      | .downing r => some (s.semaDown t r)
      | _ => none
  | .transfer t ready =>
      match s.point t with
      | .transferring r =>
          if ready then some (s.goto t (if r.write then .downing r else .releasing)) else none
      | _ => none
  | .release t =>
      match s.point t with
      | .releasing => some ({ s with holder := none }.goto t .outside)
      | _ => none
  | .interrupt => s.interruptHandler
  | .setPriority t p => some { s with priority := Function.update s.priority t p }

end State

/-- No transfer has begun. Disks may have been identified, so that an interrupt may be
expected. -/
structure Start (s : State) : Prop where
  holder : s.holder = none
  completionWait : s.completionWait = ⟨0, []⟩
  outside : ∀ t, s.point t = .outside
  issued : s.issued = 0
  ups : ∀ k, s.ups k = 0
  credits : s.credits = []
  consumed : s.consumed = []

def machine : Machine State Label := ⟨Start, State.step⟩

/-! ## Counting completions -/

/-- One up for each command at most, and no transfer consumes the completion of another. -/
structure Counted (s : State) : Prop where
  once : s.ups 0 = 0 ∧ ∀ k, s.ups k ≤ 1
  free : s.holder = none → s.completionWait.value = 0
  own : ∀ p ∈ s.consumed, p.1 = p.2

/-- An interrupt that is handled as an expected one is the first since the last command. -/
def FirstInterrupt (s : State) : Label → Prop
  | .interrupt => s.expectingInterrupt = true → 0 < s.issued ∧ s.ups s.issued = 0
  | _ => True

instance (s : State) : ∀ label, Decidable (FirstInterrupt s label)
  | .interrupt => inferInstanceAs (Decidable (_ → _))
  | .call .. | .acquire _ | .select _ | .issue _ | .down _ | .transfer .. | .release _
  | .setPriority .. => isTrue trivial

/-- The lock and the semaphore know where a thread is. -/
structure Placed (s : State) (t : ThreadRef) : Prop where
  holder : s.holder = some t ↔ (s.point t).InSection
  asleep : t ∈ s.completionWait.waiters ↔ ∃ r, s.point t = .asleep r

/-- The last command has at most one completion, from its interrupt until it is consumed. -/
structure Ok (s : State) : Prop where
  placed : ∀ t, Placed s t
  nodup : s.completionWait.waiters.Nodup
  value : s.completionWait.value = s.credits.length
  once : s.ups 0 = 0 ∧ ∀ k, s.ups k ≤ 1
  fresh : ∀ k, s.issued < k → s.ups k = 0
  own : ∀ p ∈ s.consumed, p.1 = p.2
  pending : ∀ t, (s.point t).Pending →
    0 < s.issued ∧ (s.credits = [] ∧ s.ups s.issued = 0 ∨
      s.credits = [s.issued] ∧ s.ups s.issued = 1)
  settled : (∀ t, ¬ (s.point t).Pending) →
    s.credits = [] ∧ (s.issued = 0 ∨ s.ups s.issued = 1)

variable {s s' : State} {t u : ThreadRef}

@[simp] lemma goto_point_self (s : State) (t : ThreadRef) (p : Point) :
    (s.goto t p).point t = p := update_self ..

lemma goto_point_of_ne (s : State) (p : Point) (h : u ≠ t) :
    (s.goto t p).point u = s.point u := update_of_ne h ..

lemma Start.ok (h : Start s) : Ok s where
  placed t := by constructor <;> simp [h.holder, h.completionWait, h.outside]
  nodup := by simp [h.completionWait]
  value := by simp [h.completionWait, h.credits]
  once := ⟨h.ups 0, fun k => by simp [h.ups]⟩
  fresh k _ := h.ups k
  own := by simp [h.consumed]
  pending t ht := by simp [h.outside] at ht
  settled _ := ⟨h.credits, .inl h.issued⟩

lemma Point.Pending.inSection {p : Point} (h : p.Pending) : p.InSection := by
  cases p <;> simp at h ⊢

lemma Placed.of_same (h : Placed s u) (hpoint : s'.point u = s.point u)
    (hholder : s'.holder = some u ↔ s.holder = some u)
    (hasleep : u ∈ s'.completionWait.waiters ↔ u ∈ s.completionWait.waiters) : Placed s' u where
  holder := by rw [hholder, hpoint, h.holder]
  asleep := by rw [hasleep, hpoint, h.asleep]

namespace Ok

section

variable (hs : Ok s)
include hs

lemma eq_of_inSection (ht : (s.point t).InSection) (hu : (s.point u).InSection) : u = t := by
  have hholder := ((hs.placed t).holder.mpr ht).symm.trans ((hs.placed u).holder.mpr hu)
  exact (Option.some.inj hholder).symm

lemma counted : Counted s := by
  refine ⟨hs.once, fun hfree => ?_, hs.own⟩
  have hnone : ∀ t, ¬ (s.point t).Pending := by
    intro t ht
    have hholder := (hs.placed t).holder.mpr ht.inSection
    simp [hfree] at hholder
  rw [hs.value, (hs.settled hnone).1]
  rfl

lemma of_move (hplaced : ∀ u, Placed s' u) (hnodup : s'.completionWait.waiters.Nodup)
    (hpending : ∀ u, (s'.point u).Pending ↔ (s.point u).Pending)
    (hvalue : s'.completionWait.value = s.completionWait.value) (hissued : s'.issued = s.issued)
    (hups : s'.ups = s.ups) (hcredits : s'.credits = s.credits)
    (hconsumed : s'.consumed = s.consumed) : Ok s' where
  placed := hplaced
  nodup := hnodup
  value := by rw [hvalue, hcredits, hs.value]
  once := by rw [hups]; exact hs.once
  fresh := by rw [hups, hissued]; exact hs.fresh
  own := by rw [hconsumed]; exact hs.own
  pending u hu := by
    rw [hissued, hups, hcredits]
    exact hs.pending u ((hpending u).mp hu)
  settled hnone := by
    rw [hissued, hups, hcredits]
    exact hs.settled fun u => mt (hpending u).mpr (hnone u)

lemma goto {p : Point} (hsection : p.InSection ↔ (s.point t).InSection)
    (hpending : p.Pending ↔ (s.point t).Pending) (hp : ∀ r, p ≠ .asleep r)
    (ht : ∀ r, s.point t ≠ .asleep r) : Ok (s.goto t p) := by
  refine hs.of_move (fun u => ?_) hs.nodup (fun u => ?_) rfl rfl rfl rfl rfl
  · by_cases hut : u = t
    · have hplaced := hs.placed t
      rw [hut]
      refine ⟨hplaced.holder.trans (by rw [goto_point_self, hsection]), ?_⟩
      refine hplaced.asleep.trans (iff_of_false ?_ ?_)
      · rintro ⟨r, hr⟩
        exact ht r hr
      · rintro ⟨r, hr⟩
        rw [goto_point_self] at hr
        exact hp r hr
    · exact (hs.placed u).of_same (goto_point_of_ne s p hut) .rfl .rfl
  · by_cases hut : u = t
    · rw [hut, goto_point_self, hpending]
    · rw [goto_point_of_ne s p hut]

lemma acquire {r : Request} (ht : s.point t = .locking r) (hfree : s.holder = none) :
    Ok ({ s with holder := some t }.goto t (.selecting r)) := by
  refine hs.of_move (fun u => ?_) hs.nodup (fun u => ?_) rfl rfl rfl rfl rfl
  · by_cases hut : u = t
    · rw [hut]
      exact ⟨by simp [State.goto], (hs.placed t).asleep.trans (by simp [ht])⟩
    · refine (hs.placed u).of_same (goto_point_of_ne _ _ hut) ?_ .rfl
      simpa [State.goto, hfree] using Ne.symm hut
  · by_cases hut : u = t
    · simp [hut, ht]
    · rw [goto_point_of_ne _ _ hut]

lemma release (ht : s.point t = .releasing) : Ok ({ s with holder := none }.goto t .outside) := by
  have hholder := (hs.placed t).holder.mpr (by simp [ht])
  refine hs.of_move (fun u => ?_) hs.nodup (fun u => ?_) rfl rfl rfl rfl rfl
  · by_cases hut : u = t
    · rw [hut]
      exact ⟨by simp [State.goto], (hs.placed t).asleep.trans (by simp [ht])⟩
    · refine (hs.placed u).of_same (goto_point_of_ne _ _ hut) ?_ .rfl
      simpa [State.goto, hholder] using Ne.symm hut
  · by_cases hut : u = t
    · simp [hut, ht]
    · rw [goto_point_of_ne _ _ hut]

lemma not_pending (ht : (s.point t).InSection) (hp : ¬ (s.point t).Pending) :
    ∀ u, ¬ (s.point u).Pending := by
  intro u hu
  rw [hs.eq_of_inSection ht hu.inSection] at hu
  exact hp hu

lemma issue {r : Request} (ht : s.point t = .issuing r) :
    Ok (s.issuePioCommand.goto t (if r.write then .transferring r else .downing r)) := by
  have hnone := hs.not_pending (t := t) (by simp [ht]) (by simp [ht])
  have hcredits := (hs.settled hnone).1
  have hfresh := hs.fresh (s.issued + 1) (Nat.lt_succ_self _)
  have hpoint : (if r.write then Point.transferring r else .downing r).Pending := by
    cases hw : r.write <;> simp [hw]
  refine ⟨fun u => ?_, hs.nodup, hs.value, hs.once, fun k hk => hs.fresh k (Nat.lt_of_succ_lt hk),
    hs.own, fun u _ => ⟨Nat.succ_pos _, .inl ⟨hcredits, hfresh⟩⟩, fun hall => ?_⟩
  · by_cases hut : u = t
    · have hplaced := hs.placed t
      rw [hut]
      refine ⟨hplaced.holder.trans ?_, hplaced.asleep.trans ?_⟩
      · rw [goto_point_self]
        exact iff_of_true (by simp [ht]) hpoint.inSection
      · rw [goto_point_self, ht]
        cases hw : r.write <;> simp
    · exact (hs.placed u).of_same (goto_point_of_ne _ _ hut) .rfl .rfl
  · refine absurd ?_ (hall t)
    rwa [goto_point_self]

lemma sleep {r : Request} (ht : s.point t = .downing r)
    (hvalue : s.completionWait.value = 0) : Ok (s.semaDown t r) := by
  have hout : t ∉ s.completionWait.waiters := mt (hs.placed t).asleep.mp (by simp [ht])
  have hperm := Lib.listInsertOrdered_perm s.elemLess t s.completionWait.waiters
  have hnodup := hperm.nodup_iff.mpr (List.nodup_cons.mpr ⟨hout, hs.nodup⟩)
  rw [State.semaDown, Semaphore.down_of_zero hvalue]
  refine hs.of_move (fun u => ?_) hnodup (fun u => ?_) rfl rfl rfl rfl rfl
  · by_cases hut : u = t
    · rw [hut]
      refine ⟨(hs.placed t).holder.trans (by simp [ht]), ?_⟩
      exact iff_of_true (Lib.mem_listInsertOrdered.mpr (.inl rfl)) ⟨r, goto_point_self ..⟩
    · refine (hs.placed u).of_same (goto_point_of_ne _ _ hut) .rfl ?_
      exact Lib.mem_listInsertOrdered.trans (or_iff_right hut)
  · by_cases hut : u = t
    · simp [hut, ht]
    · rw [if_neg (by simp), goto_point_of_ne _ _ hut]

lemma consume {r : Request} (ht : s.point t = .downing r)
    (hvalue : s.completionWait.value ≠ 0) : Ok (s.semaDown t r) := by
  obtain ⟨-, ⟨hnil, -⟩ | ⟨hcredits, hups⟩⟩ := hs.pending t (by simp [ht])
  · rw [hs.value, hnil] at hvalue
    exact absurd rfl hvalue
  have hpoint : (if r.write then Point.releasing else .transferring r).InSection ∧
      ¬ (if r.write then Point.releasing else .transferring r).Pending ∧
      ∀ r', (if r.write then Point.releasing else .transferring r) ≠ .asleep r' := by
    cases hw : r.write <;> simp [hw]
  have hothers : ∀ u, u ≠ t → ¬ (s.point u).Pending := by
    intro u hut hu
    exact hut (hs.eq_of_inSection (by simp [ht]) hu.inSection)
  rw [State.semaDown, Semaphore.down_of_pos hvalue, if_pos rfl]
  refine ⟨fun u => ?_, hs.nodup, ?_, hs.once, hs.fresh, ?_, fun u hu => ?_,
    fun _ => ⟨?_, .inr hups⟩⟩
  · by_cases hut : u = t
    · have hplaced := hs.placed t
      rw [hut]
      refine ⟨hplaced.holder.trans ?_, hplaced.asleep.trans ?_⟩
      · rw [goto_point_self]
        exact iff_of_true (by simp [ht]) hpoint.1
      · rw [goto_point_self, ht]
        exact iff_of_false (by simp) fun ⟨r', hr'⟩ => hpoint.2.2 r' hr'
    · exact (hs.placed u).of_same (goto_point_of_ne _ _ hut) .rfl .rfl
  · simp [State.goto, hs.value]
  · intro q hq
    rcases List.mem_append.mp hq with hq | hq
    · exact hs.own q hq
    · rw [List.mem_singleton.mp hq, hcredits]
      rfl
  · by_cases hut : u = t
    · rw [hut, goto_point_self] at hu
      exact absurd hu hpoint.2.1
    · rw [goto_point_of_ne _ _ hut] at hu
      exact absurd hu (hothers u hut)
  · simp [State.goto, hcredits]

lemma of_up (hissued : 0 < s.issued) (hups : s.ups s.issued = 0)
    (hplaced : ∀ u, Placed s' u) (hnodup : s'.completionWait.waiters.Nodup)
    (hpending : ∀ u, (s'.point u).Pending ↔ (s.point u).Pending)
    (hvalue : s'.completionWait.value = (s.completionWait.value + 1) % 4294967296)
    (hissued' : s'.issued = s.issued) (hups' : s'.ups = update s.ups s.issued (s.ups s.issued + 1))
    (hcredits' : s'.credits = s.credits ++ [s.issued]) (hconsumed : s'.consumed = s.consumed) :
    Ok s' := by
  have hone : s'.ups s'.issued = 1 := by rw [hups', hissued', update_self, hups]
  have hother : ∀ k, k ≠ s.issued → s'.ups k = s.ups k := by
    intro k hk
    rw [hups', update_of_ne hk]
  -- Some thread waits for a completion, as the last command has had none.
  have hexists : ∃ t, (s.point t).Pending := by
    by_contra hnone
    rcases (hs.settled fun t ht => hnone ⟨t, ht⟩).2 with hzero | hdone
    · omega
    · omega
  obtain ⟨t, ht⟩ := hexists
  have hcredits : s.credits = [] := by
    obtain ⟨-, ⟨hnil, -⟩ | ⟨-, hdone⟩⟩ := hs.pending t ht
    · exact hnil
    · omega
  rw [hcredits, List.nil_append, ← hissued'] at hcredits'
  refine ⟨hplaced, hnodup, ?_, ⟨?_, fun k => ?_⟩, fun k hk => ?_, ?_, fun u _ => ?_, fun hall => ?_⟩
  · rw [hvalue, hs.value, hcredits, hcredits']
    rfl
  · rw [hother 0 (by omega)]
    exact hs.once.1
  · by_cases hk : k = s.issued
    · rw [hk, ← hissued']
      exact Nat.le_of_eq hone
    · rw [hother k hk]
      exact hs.once.2 k
  · rw [hissued'] at hk
    rw [hother k (by omega)]
    exact hs.fresh k hk
  · rw [hconsumed]
    exact hs.own
  · exact ⟨by omega, .inr ⟨hcredits', hone⟩⟩
  · exact absurd ((hpending t).mpr ht) (hall t)

lemma semaUp (hissued : 0 < s.issued) (hups : s.ups s.issued = 0)
    (hup : s.semaUp = some s') : Ok s' := by
  have hvalue := s.completionWait.up_value s.elemLess
  have hperm := s.completionWait.up_waiters_perm s.elemLess
  unfold State.semaUp at hup
  generalize s.completionWait.up s.elemLess = out at hvalue hperm hup
  obtain ⟨sema, woken⟩ := out
  dsimp only at hvalue hperm hup
  have hnodup := List.nodup_append.mp (hperm.nodup_iff.mpr hs.nodup)
  cases woken with
  | none =>
    cases hup
    refine hs.of_up hissued hups (fun u => ?_) hnodup.2.1 (fun _ => .rfl) hvalue rfl rfl rfl rfl
    exact (hs.placed u).of_same rfl .rfl hperm.mem_iff
  | some w =>
    obtain ⟨r, hr⟩ := (hs.placed w).asleep.mp (hperm.mem_iff.mp (by simp))
    simp only [hr, Option.some.injEq] at hup
    subst hup
    refine hs.of_up hissued hups (fun u => ?_) hnodup.2.1 (fun u => ?_) hvalue rfl rfl rfl rfl
    · by_cases huw : u = w
      · rw [huw]
        refine ⟨(hs.placed w).holder.trans (by simp [hr]), iff_of_false (fun hin => ?_) (by simp)⟩
        exact hnodup.2.2 w (by simp) w hin rfl
      · refine (hs.placed u).of_same (goto_point_of_ne _ _ huw) .rfl (.trans ?_ hperm.mem_iff)
        simp [State.goto, huw]
    · by_cases huw : u = w
      · simp [huw, hr]
      · rw [goto_point_of_ne _ _ huw]

lemma step {label : Label} (hfirst : FirstInterrupt s label)
    (hstep : s.step label = some s') : Ok s' := by
  cases label with
  | call t r =>
    simp only [State.step] at hstep
    split at hstep
    next ht =>
      cases hstep
      exact hs.goto (by simp [ht]) (by simp [ht]) (by simp) (by simp [ht])
    next => cases hstep
  | acquire t =>
    simp only [State.step] at hstep
    split at hstep
    next r ht =>
      split at hstep
      next hfree =>
        cases hstep
        exact hs.acquire ht hfree
      next => cases hstep
    next => cases hstep
  | select t =>
    simp only [State.step] at hstep
    split at hstep
    next r ht =>
      split at hstep
      next =>
        cases hstep
        exact hs.goto (by simp [ht]) (by simp [ht]) (by simp) (by simp [ht])
      next => cases hstep
    next => cases hstep
  | issue t =>
    simp only [State.step] at hstep
    split at hstep
    next r ht =>
      cases hstep
      exact hs.issue ht
    next => cases hstep
  | down t =>
    simp only [State.step] at hstep
    split at hstep
    next r ht =>
      cases hstep
      by_cases hvalue : s.completionWait.value = 0
      · exact hs.sleep ht hvalue
      · exact hs.consume ht hvalue
    next => cases hstep
  | transfer t ready =>
    simp only [State.step] at hstep
    split at hstep
    next r ht =>
      split at hstep
      next =>
        cases hstep
        cases hw : r.write <;>
          exact hs.goto (by simp [ht]) (by simp [ht, hw]) (by simp) (by simp [ht])
      next => cases hstep
    next => cases hstep
  | release t =>
    simp only [State.step] at hstep
    split at hstep
    next ht =>
      cases hstep
      exact hs.release ht
    next => cases hstep
  | interrupt =>
    simp only [State.step, State.interruptHandler] at hstep
    split at hstep
    next hexpecting =>
      obtain ⟨hissued, hups⟩ := hfirst hexpecting
      exact hs.semaUp hissued hups hstep
    next =>
      cases hstep
      exact hs
  | setPriority t p =>
    cases hstep
    refine hs.of_move (fun u => ?_) hs.nodup (fun _ => .rfl) rfl rfl rfl rfl rfl
    exact ⟨(hs.placed u).holder, (hs.placed u).asleep⟩

end

end Ok

lemma semaUp_ups (hup : s.semaUp = some s') :
    s'.ups = update s.ups s.issued (s.ups s.issued + 1) := by
  unfold State.semaUp at hup
  dsimp only at hup
  split at hup
  · cases hup
    rfl
  · split at hup
    · cases hup
      rfl
    · cases hup

/-- Another interrupt for a command is one up too many. -/
lemma firstInterrupt_of_counted {label : Label} (hstep : s.step label = some s')
    (hs' : Counted s') : FirstInterrupt s label := by
  cases label with
  | interrupt =>
    intro hexpecting
    simp only [State.step, State.interruptHandler, hexpecting, if_true] at hstep
    have hups := semaUp_ups hstep
    have hself : s'.ups s.issued = s.ups s.issued + 1 := by rw [hups, update_self]
    have hle := hs'.once.2 s.issued
    refine ⟨Nat.pos_of_ne_zero fun hzero => ?_, by omega⟩
    have hnone := hs'.once.1
    rw [hzero] at hself
    omega
  | _ => trivial

/-- The completions are counted right throughout exactly if every handled interrupt that is expected
is the first since the last command. -/
theorem counted_throughout_iff (hs : Start s) (labels : List Label) :
    machine.Throughout Counted s labels ↔ machine.Meets FirstInterrupt s labels := by
  constructor
  · rintro ⟨-, hrun⟩
    refine Machine.EachStep.imp (I := Ok) (fun s label s' hok hstep hcounted => ?_) hs.ok hrun
    have hfirst := firstInterrupt_of_counted hstep hcounted
    exact ⟨hfirst, hok.step hfirst hstep⟩
  · intro hrun
    refine ⟨hs.ok.counted, Machine.EachStep.imp (I := Ok) ?_ hs.ok hrun⟩
    intro s label s' hok hstep hfirst
    have hok' := hok.step hfirst hstep
    exact ⟨hok'.counted, hok'⟩

def idle : State where
  holder := none
  expectingInterrupt := false
  completionWait := ⟨0, []⟩
  priority := fun _ => 31
  point := fun _ => .outside
  issued := 0
  ups := fun _ => 0
  credits := []
  consumed := []

lemma idle_start : Start idle :=
  ⟨rfl, rfl, fun _ => rfl, rfl, fun _ => rfl, rfl, rfl⟩

/-- One thread reads a sector; `interrupts` come after the command was issued. -/
def oneRead (interrupts : List Label) : List Label :=
  [.call 1 ⟨false, 7⟩, .acquire 1, .select 1, .issue 1] ++ interrupts ++
    [.down 1, .transfer 1 true, .release 1]

theorem counted_throughout_iff_oneRead :
    machine.Throughout Counted idle (oneRead [.interrupt]) := by
  refine (counted_throughout_iff idle_start _).mpr ?_
  decide

/-- A spurious interrupt after a read ups the semaphore again, and the next read does not wait. -/
theorem spurious_interrupt :
    Start idle ∧
      (∃ s, machine.run idle (oneRead [.interrupt] ++ [.interrupt]) = some s ∧
        s.ups 1 = 2 ∧ s.holder = none ∧ s.completionWait.value = 1) ∧
      ∃ s, machine.run idle (oneRead [.interrupt] ++ [.interrupt] ++ oneRead []) = some s ∧
        s.consumed = [(1, 1), (1, 2)] :=
  ⟨idle_start, ⟨_, rfl, rfl, rfl, rfl⟩, _, rfl, rfl⟩

end IdeChannel

end Pintos.Devices
