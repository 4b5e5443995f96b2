import Pintos.Threads.Dispatch

/-! # Preemption

When a call or an interrupt handler is over, no ready thread should be above the running
one. Routines that make a thread ready end with `check_priority`, but an interrupt handler
does not ask for a yield unless the time slice is over, `thread_unblock` never does, and
`thread_create` compares with `thread_get_priority`, which is not the priority the thread
runs at. Between these, and with donations that keep the ready list ordered, preemption
works.
-/

namespace Pintos.Threads

open Foundation Lib Function List Option Kernel

namespace Kernel

/-- No ready thread is above the running one. -/
def Dominates (k : Kernel) : Prop := ∀ t ∈ k.readyList, k.prio t ≤ k.prio k.current

variable {k k' : Kernel} {ps : List Piece} {p : Piece}

lemma Ordered.dominates_schedule (h : k.Ordered) : k.schedule.Dominates := by
  unfold Ordered at h
  unfold Dominates Kernel.schedule nextThreadToRun
  cases hr : k.readyList with
  | nil =>
    intro t ht
    cases ht
  | cons u us =>
    rw [hr] at h
    exact (pairwise_cons.mp h).1

lemma Ordered.dominates_threadBlock (h : k.Ordered) : k.threadBlock.Dominates :=
  dominates_schedule (k := k.setStatus k.current .blocked) h

lemma Ordered.dominates_threadYield (h : k.Ordered) : k.threadYield.Dominates := by
  unfold Kernel.threadYield
  apply dominates_schedule
  by_cases hidle : k.current = k.idleThread
  · rwa [if_neg (not_not.mpr hidle)]
  · rw [if_pos hidle]
    exact h.insertReady k.current

lemma Ordered.dominates_checkPriority (h : k.Ordered) : k.checkPriority.Dominates := by
  have hnext := h.le_next
  unfold nextThreadToRun at hnext
  unfold Kernel.checkPriority
  cases hr : k.readyList with
  | nil =>
    intro t ht
    simp [hr] at ht
  | cons u us =>
    rw [hr] at hnext
    dsimp only at hnext ⊢
    split
    next => exact h.dominates_threadYield
    next hle =>
      intro t ht
      rw [hr] at ht
      exact Int.le_trans (hnext t ht) (Int.not_lt.mp hle)

/-- A thread of priority `q` may be above the running one while the pieces `ps` to come check the
ready list. -/
def Covered (ps : List Piece) (q : Int) : Prop :=
  .check ∈ ps ∨ ∃ p, ps.head? = some (.compare p) ∧ q ≤ p

/-- Pieces that lower the running thread or wake one are followed by a check. -/
def Checked : List Piece → Prop
  | [] => True
  | p :: ps => Checked ps ∧
      match p with
      | .giveBack _ => .check ∈ ps
      | .up _ => .check ∈ ps
      | .start _ _ q => ps.head? = some (.compare q)
      | _ => True

lemma Checked.append {qs : List Piece} (hp : Checked ps) (hq : Checked qs) :
    Checked (ps ++ qs) := by
  induction ps with
  | nil => exact hq
  | cons p ps ih =>
    refine ⟨ih hp.1, ?_⟩
    have hhead := hp.2
    cases p with
    | giveBack l => exact mem_append_left _ hhead
    | up r => exact mem_append_left _ hhead
    | start t name q =>
      show (ps ++ qs).head? = _
      rw [head?_append, show ps.head? = _ from hhead]
      rfl
    | _ => trivial

lemma checked_lockPieces (l : LockRef) :
    Checked (lockAcquirePieces l) ∧ Checked (lockReleasePieces l) := by
  simp [Checked, lockAcquirePieces, lockReleasePieces]

lemma checked_pieces (c : Call) (cur : ThreadRef) : Checked (c.pieces cur) := by
  have hlock := fun l => (checked_lockPieces l).1.append (checked_lockPieces l).2
  cases c with
  | threadCreate locks t name p =>
    refine Checked.append ?_ ⟨⟨trivial, trivial⟩, rfl⟩
    induction locks with
    | nil => trivial
    | cons l ls ih => exact (hlock l).append ih
  | condWait c l =>
    exact ⟨(checked_lockPieces l).2.append ⟨(checked_lockPieces l).1, trivial⟩, trivial⟩
  | lockAcquire l => exact (checked_lockPieces l).1
  | lockRelease l => exact (checked_lockPieces l).2
  | semaUp r => exact ⟨⟨trivial, trivial⟩, mem_cons_self⟩
  | _ => exact ⟨trivial, trivial⟩

lemma Covered.tail {q : Int} (h : Covered (p :: ps) q) (hcheck : p ≠ .check)
    (hcompare : ∀ c, p ≠ .compare c) : Covered ps q := by
  rcases h with h | ⟨c, h, -⟩
  · exact .inl ((mem_cons.mp h).resolve_left hcheck.symm)
  · exact absurd (some.inj h) (hcompare c)

/-- Every ready thread that is above the running one is covered. -/
def Preempting (k : Kernel) : Prop :=
  ∀ t ∈ k.readyList, k.prio t ≤ k.prio k.current ∨ Covered (k.pending k.current) (k.prio t)

lemma Dominates.preempting (h : k.Dominates) : k.Preempting :=
  fun t ht => .inl (h t ht)

lemma Preempting.dominates (h : k.Preempting) (hp : k.pending k.current = []) : k.Dominates := by
  intro t ht
  rcases h t ht with hle | hcov | ⟨c, hcov, -⟩
  · exact hle
  · simp [hp] at hcov
  · simp [hp] at hcov

lemma preempting_of_check (h : .check ∈ k.pending k.current) : k.Preempting :=
  fun _ _ => .inr (.inl h)

/-! ## Pieces -/

/-- The condition on a piece that the running thread is about to run. -/
def PieceOk (k : Kernel) : Piece → Prop
  | .request l => k.RaisesInOrder l
  | .compare p => ¬ (k.prio k.current < p ∧ p < k.threadGetPriority)
  | .unblock t => k.prio t ≤ k.prio k.current
  | _ => True

lemma Preempting.semaDown (h : k.Preempting) (hord : k.Ordered) (r : SemaRef) :
    (k.semaDown r).Preempting := by
  unfold Kernel.semaDown
  dsimp only
  split
  · exact h
  · apply Dominates.preempting
    apply Ordered.dominates_threadBlock
    exact hord

lemma semaUp_frame (k : Kernel) (r : SemaRef) :
    (k.semaUp r).thread = k.thread ∧ (k.semaUp r).current = k.current ∧
      (k.semaUp r).pending = k.pending ∧ (k.semaUp r).threadTicks = k.threadTicks := by
  unfold semaUp
  dsimp only
  split <;> exact ⟨rfl, rfl, rfl, rfl⟩

lemma preempting_donate (h : k.Preempting) (ok : k.Ok) (l : LockRef) :
    Preempting { k with toSync := k.toSync.donate k.current l } := by
  have hcur : prio { k with toSync := k.toSync.donate k.current l } k.current =
      k.prio k.current := by
    rw [prio_donate ok]
    split <;> rfl
  intro t ht
  dsimp only at ht ⊢
  rw [hcur, prio_donate ok]
  split
  · exact .inl (Int.le_refl _)
  · exact h t ht

lemma preempting_startThread (ok : k.Ok) {t : ThreadRef} {q : Int} (h : k.Preempting)
    (ht : t ∉ k.allList) (name : List UInt8)
    (hq : (k.pending k.current).head? = some (.compare q)) :
    (k.startThread t name q).Preempting := by
  have hne : k.current ≠ t := by
    rintro rfl
    exact ht ok.member
  have hprio : ∀ u, (k.startThread t name q).prio u = if u = t then q else k.prio u := by
    intro u
    by_cases hu : u = t
    · simp [prio, startThread, threadUnblock, insertReady, setStatus, initThread, hu]
    · simp [prio, startThread, threadUnblock, insertReady, setStatus, initThread, hu]
  have hpending : (k.startThread t name q).pending k.current = k.pending k.current :=
    update_of_ne hne _ _
  intro u hu
  show _ ≤ (k.startThread t name q).prio k.current ∨
    Covered ((k.startThread t name q).pending k.current) _
  rw [hpending, hprio, hprio, if_neg hne]
  rcases mem_listInsertOrdered.mp hu with rfl | hmem
  · rw [if_pos rfl]
    exact .inr (.inr ⟨q, hq, Int.le_refl _⟩)
  · have hut : u ≠ t := by
      rintro rfl
      exact ht (ok.ready u hmem).2.1
    rw [if_neg hut]
    exact h u hmem

lemma threadYield_pending (k : Kernel) : k.threadYield.pending = k.pending := by
  unfold threadYield
  dsimp only
  split <;> rfl

lemma checkPriority_pending (k : Kernel) : k.checkPriority.pending = k.pending := by
  unfold checkPriority
  split
  · rfl
  · split
    · exact threadYield_pending k
    · rfl

lemma checked_update {pending : ThreadRef → List Piece} (h : ∀ t, Checked (pending t))
    (t : ThreadRef) (hps : Checked ps) : ∀ u, Checked (update pending t ps u) :=
  (forall_update_iff pending fun _ ps => Checked ps).mpr ⟨hps, fun u _ => h u⟩

lemma checked_semaDown (h : ∀ t, Checked (k.pending t)) (r : SemaRef) :
    ∀ t, Checked ((k.semaDown r).pending t) := by
  unfold semaDown
  dsimp only
  split
  · exact h
  · exact checked_update h k.current ⟨h k.current, trivial⟩

lemma checked_exec (h : ∀ t, Checked (k.pending t)) (hs : k.exec p = some k') :
    ∀ t, Checked (k'.pending t) := by
  have hsame : k'.pending = k.pending → ∀ t, Checked (k'.pending t) := by
    intro heq t
    rw [heq]
    exact h t
  cases p <;>
    simp only [exec, ite_none_left_eq_some, ite_none_right_eq_some, some.injEq] at hs
  case down r => exact hs ▸ checked_semaDown h r
  case sleep ticks =>
    subst hs
    apply checked_semaDown
    exact h
  case start t name p => exact hs.2 ▸ checked_update h t trivial
  case signal c l =>
    obtain rfl | ⟨w, ws, rfl⟩ := condSignal_cases hs.2
    · exact h
    · exact checked_update h k.current ⟨⟨h k.current, trivial⟩, mem_cons_self⟩
  case up r => exact hsame (hs ▸ (semaUp_frame k r).2.2.1)
  case check => exact hsame (hs ▸ checkPriority_pending k)
  case setPriority p => exact hsame (hs ▸ checkPriority_pending _)
  case compare p =>
    subst hs
    refine hsame ?_
    split
    · exact threadYield_pending k
    · rfl
  case yield => exact hsame (hs ▸ threadYield_pending k)
  case request | tryTake | giveBack | unblock => exact hs.2 ▸ h
  case take | tryDown | clear | block | push => exact hs ▸ h

/-- A piece leaves only covered threads above the running one. -/
lemma preempting_exec (ok : k.Ok) (hord : k.Ordered)
    (hcov : ∀ t ∈ k.readyList, k.prio t ≤ k.prio k.current ∨
      Covered (p :: k.pending k.current) (k.prio t))
    (hchecked : Checked (p :: k.pending k.current)) (hp : k.PieceOk p) (hs : k.exec p = some k') :
    k'.Preempting := by
  have hpass : p ≠ .check → (∀ c, p ≠ .compare c) → k.Preempting :=
    fun h₁ h₂ t ht => (hcov t ht).imp id fun h => h.tail h₁ h₂
  cases p <;>
    simp only [exec, ite_none_left_eq_some, ite_none_right_eq_some, some.injEq] at hs
  case request l => exact hs.2 ▸ preempting_donate (hpass (by simp) (by simp)) ok l
  case down r => exact hs ▸ (hpass (by simp) (by simp)).semaDown hord r
  case take l =>
    subst hs
    intro t ht
    simpa [prio] using hpass (by simp) (by simp) t ht
  case tryTake l =>
    obtain ⟨-, rfl⟩ := hs
    split <;> exact hpass (by simp) (by simp)
  case giveBack l => exact hs.2 ▸ preempting_of_check hchecked.2
  case up r =>
    subst hs
    apply preempting_of_check
    rw [(semaUp_frame k r).2.1, (semaUp_frame k r).2.2.1]
    exact hchecked.2
  case check => exact hs ▸ hord.dominates_checkPriority.preempting
  case setPriority p =>
    exact hs ▸ (hord.setThread_current ok _).dominates_checkPriority.preempting
  case start t name q =>
    obtain ⟨hnew, rfl⟩ := hs
    exact preempting_startThread ok (hpass (by simp) (by simp)) (fun h => hnew (.inl h)) name
      hchecked.2
  case compare q =>
    subst hs
    split
    next => exact hord.dominates_threadYield.preempting
    next hlt =>
      intro t ht
      rcases hcov t ht with hle | hcheck | ⟨c, hc, hle⟩
      · exact .inl hle
      · exact .inr (.inl ((mem_cons.mp hcheck).resolve_left (by simp)))
      · obtain rfl : q = c := by simpa using hc
        refine .inl (Int.le_trans hle ?_)
        by_contra hcur
        exact hp ⟨Int.not_le.mp hcur, Int.not_le.mp hlt⟩
  case block => exact hs ▸ hord.dominates_threadBlock.preempting
  case yield => exact hs ▸ hord.dominates_threadYield.preempting
  case unblock t =>
    obtain ⟨-, rfl⟩ := hs
    intro u hu
    rcases mem_listInsertOrdered.mp hu with rfl | hu
    · exact .inl hp
    · exact hpass (by simp) (by simp) u hu
  case signal c l =>
    obtain rfl | ⟨w, ws, rfl⟩ := condSignal_cases hs.2
    · exact hpass (by simp) (by simp)
    · apply preempting_of_check
      show .check ∈ update k.pending k.current _ k.current
      rw [update_self]
      simp
  case sleep ticks =>
    subst hs
    apply Preempting.semaDown
    · exact hpass (by simp) (by simp)
    · exact hord
  case tryDown | clear | push => exact hs ▸ hpass (by simp) (by simp)

/-! ## Interrupts -/

lemma timerWakeup_frame (k : Kernel) (ts : List ThreadRef) :
    (k.timerWakeup ts).thread = k.thread ∧ (k.timerWakeup ts).current = k.current ∧
      (k.timerWakeup ts).pending = k.pending ∧
      (k.timerWakeup ts).threadTicks = k.threadTicks := by
  induction ts generalizing k with
  | nil => exact ⟨rfl, rfl, rfl, rfl⟩
  | cons t ts ih =>
    unfold timerWakeup
    split
    · obtain ⟨h₁, h₂, h₃, h₄⟩ := semaUp_frame k (.sleep t)
      obtain ⟨g₁, g₂, g₃, g₄⟩ := ih (k.semaUp (.sleep t))
      exact ⟨g₁.trans h₁, g₂.trans h₂, g₃.trans h₃, g₄.trans h₄⟩
    · exact ⟨rfl, rfl, rfl, rfl⟩

lemma wake_frame {ws : List Wake} (hs : k.wake ws = some k') :
    k'.thread = k.thread ∧ k'.current = k.current ∧ k'.pending = k.pending := by
  induction ws generalizing k with
  | nil =>
    cases hs
    exact ⟨rfl, rfl, rfl⟩
  | cons w ws ih =>
    cases w with
    | sema r =>
      obtain ⟨h₁, h₂, h₃, -⟩ := semaUp_frame k r
      obtain ⟨g₁, g₂, g₃⟩ := ih hs
      exact ⟨g₁.trans h₁, g₂.trans h₂, g₃.trans h₃⟩
    | thread t =>
      simp only [wake, ite_none_right_eq_some] at hs
      obtain ⟨g₁, g₂, g₃⟩ := ih hs.2
      exact ⟨g₁, g₂, g₃⟩

/-- Donations raise in order, `thread_create` compares right, `thread_unblock` wakes no higher
thread, and a handler within the time slice leaves none ready. -/
def Preempts (k : Kernel) : Event → Prop
  | .call _ => True
  | .next => ∀ p ps, k.pending k.current = p :: ps → k.PieceOk p
  | .timer => timeSlice ≤ k.threadTicks + 1 ∨
      ∀ t ∈ k.tick.readyList, k.prio t ≤ k.prio k.current
  | .device ws => ∀ k', k.wake ws = some k' → ∀ t ∈ k'.readyList, k.prio t ≤ k.prio k.current

/-- A step that ends a call of the running thread, or a handler, leaves no ready thread
above the running one. -/
def Completes (_ : Kernel) (ev : Event) (k' : Kernel) : Prop :=
  (ev = .timer ∨ (∃ ws, ev = .device ws) ∨ k'.pending k'.current = []) → k'.Dominates

/-- What holds before every step of a run that meets the condition. -/
structure Steady (k : Kernel) : Prop where
  ok : k.Ok
  ordered : k.Ordered
  checked : ∀ t, Checked (k.pending t)
  preempting : k.Preempting

lemma dominates_timerInterrupt (hord : k.Ordered) (hk : k.Preempts .timer) :
    k.timerInterrupt.Dominates := by
  obtain ⟨hthread, hcur, -, hticks⟩ :=
    timerWakeup_frame { k with ticks := k.ticks + 1 } k.sleepList
  have htick : ({ k.tick with threadTicks := k.tick.threadTicks + 1 } : Kernel).Ordered :=
    Ordered.timerWakeup (k := { k with ticks := k.ticks + 1 }) hord k.sleepList
  unfold timerInterrupt
  dsimp only
  split
  next => exact htick.dominates_threadYield
  next hslice =>
    have hslice : ¬ timeSlice ≤ k.threadTicks + 1 := by
      rwa [tick, hticks] at hslice
    intro t ht
    have hle := hk.resolve_left hslice t ht
    simp only [prio, tick, hthread, hcur] at hle ⊢
    exact hle

lemma timerInterrupt_pending (k : Kernel) : k.timerInterrupt.pending = k.pending := by
  have hpending := (timerWakeup_frame { k with ticks := k.ticks + 1 } k.sleepList).2.2.1
  unfold timerInterrupt
  dsimp only
  split
  · rwa [threadYield_pending]
  · exact hpending

lemma Steady.interrupt {ev : Event} (h : k.Steady) (hs : k.step ev = some k')
    (hord : k'.Ordered) (hpending : k'.pending = k.pending) (hdom : k'.Dominates) :
    Completes k ev k' ∧ k'.Steady := by
  refine ⟨fun _ => hdom, h.ok.step hs, hord, ?_, hdom.preempting⟩
  rw [hpending]
  exact h.checked

lemma Steady.call {c : Call} (h : k.Steady) (hidle : k.pending k.current = [])
    (hs : k.step (.call c) = some (k.setPending k.current (c.pieces k.current))) :
    Completes k (.call c) (k.setPending k.current (c.pieces k.current)) ∧
      (k.setPending k.current (c.pieces k.current)).Steady := by
  have hdom : (k.setPending k.current (c.pieces k.current)).Dominates :=
    h.preempting.dominates hidle
  exact ⟨fun _ => hdom, h.ok.step hs, h.ordered,
    checked_update h.checked k.current (checked_pieces c k.current), hdom.preempting⟩

lemma Steady.next (h : k.Steady) (hp : k.pending k.current = p :: ps) (hk : k.PieceOk p)
    (hs : (k.setPending k.current ps).exec p = some k') : Completes k .next k' ∧ k'.Steady := by
  have hstep : k.step .next = some k' := by simp only [step, hp, hs]
  have hself : (k.setPending k.current ps).pending k.current = ps := update_self _ _ _
  have hchecked := h.checked k.current
  rw [hp] at hchecked
  have hord : k'.Ordered := by
    refine (ordered_step_iff h.ok h.ordered hstep).mpr ?_
    intro l ps' hp'
    rw [hp] at hp'
    cases hp'
    exact hk
  have hpre : k'.Preempting := by
    refine preempting_exec (k := k.setPending k.current ps) (h.ok.advance hp).1 h.ordered
      ?_ ?_ ?_ hs
    · intro t ht
      show _ ∨ Covered (p :: (k.setPending k.current ps).pending k.current) _
      rw [hself, ← hp]
      exact h.preempting t ht
    · show Checked (p :: (k.setPending k.current ps).pending k.current)
      rwa [hself]
    · exact hk
  have hchecked' := checked_exec (k := k.setPending k.current ps)
    (checked_update h.checked k.current hchecked.1) hs
  refine ⟨?_, h.ok.step hstep, hord, hchecked', hpre⟩
  rintro (h' | ⟨ws, h'⟩ | hend)
  · cases h'
  · cases h'
  · exact hpre.dominates hend

lemma Steady.step {ev : Event} (h : k.Steady) (hs : k.step ev = some k') (hk : k.Preempts ev) :
    Completes k ev k' ∧ k'.Steady := by
  cases ev with
  | call c =>
    have hs' := hs
    simp only [Kernel.step, ite_none_right_eq_some, some.injEq] at hs'
    rcases hs' with ⟨⟨hidle, -⟩, rfl⟩
    exact h.call hidle hs
  | next =>
    cases hp : k.pending k.current with
    | nil => simp [Kernel.step, hp] at hs
    | cons p ps =>
      simp only [Kernel.step, hp] at hs
      exact h.next hp (hk p ps hp) hs
  | timer =>
    have hdom := dominates_timerInterrupt h.ordered hk
    have hord := h.ordered.timerInterrupt
    have hpending := timerInterrupt_pending k
    obtain rfl : k.timerInterrupt = k' := some.inj hs
    exact h.interrupt hs hord hpending hdom
  | device ws =>
    obtain ⟨hthread, hcur, hpending⟩ := wake_frame hs
    refine h.interrupt hs (h.ordered.wake hs) hpending ?_
    intro t ht
    have hle := hk k' hs t ht
    simp only [prio, hthread, hcur] at hle ⊢
    exact hle

lemma Start.steady (h : k.Start) : k.Steady := by
  refine ⟨h.ok, by simp [Ordered, h.ready], ?_, ?_⟩
  · intro t
    rw [h.pending t]
    trivial
  · intro t ht
    simp [h.ready] at ht

end Kernel

end Pintos.Threads
