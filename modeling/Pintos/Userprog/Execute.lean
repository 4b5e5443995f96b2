import Pintos.Userprog.ArgumentPassing
import Pintos.Userprog.Process

/-!
# Starting a program (userprog/process.c)

`process_execute` creates a thread and waits on its `sema_load` for the outcome of `load`,
while the new thread runs `start_process`. Memory can run out at every allocation on either
side. The two threads take their steps in any order; a failed `ASSERT` and a page fault in
the kernel stop both.
-/

namespace Pintos.Userprog

open Foundation Lib Option

/-! ## The call -/

/-- What the allocations return, in the order of the source. `rest` is the rest of `load`, none for
a page fault, and `executable` the open of the executable after it. -/
structure Answers where
  fnCopy : Bool
  thread : Bool
  record : Bool
  fnCopy2 : Bool
  argv : Bool
  loadPage : Bool
  rest : Option Bool
  executable : Bool

/-- A call: the command line, the answers, the new tid, and the caller's lists. -/
structure ExecCall where
  line : List UInt8
  answers : Answers
  tid : Tid
  childList : List Tid
  allList : List Tid

namespace ExecCall

def fileName (c : ExecCall) : Option (List UInt8) := (words Parser.delimiters c.line).head?

/-- `load`. The array is written to without a check, but not before the page is there. -/
def load (c : ExecCall) : Option Bool :=
  if c.answers.loadPage then if c.answers.argv then c.answers.rest else none
  else some false

/-- `strtok_r` returns a null pointer exactly if there is no name. -/
lemma strtokR_fileName (c : ExecCall) {mem : Bytes} {p fuel : Nat} (hline : StringAt mem p c.line)
    (hfuel : c.line.length < fuel) :
    ∃ token mem' savePt, strtokR Parser.delimiters fuel mem (some p) 0 =
      some (token, mem', savePt) ∧ (token = none ↔ c.fileName = none) := by
  cases hcut : cut Parser.delimiters c.line with
  | blank hblank =>
    have hnone := words_delimiters hblank []
    rw [List.append_nil] at hnone
    have hname : c.fileName = none := by
      rw [fileName, hnone]
      rfl
    exact ⟨none, mem, _, strtokR_blank (some p) 0 rfl hline hblank hfuel, by simp [hname]⟩
  | @token pre token rest heq hpre hne htok hrest =>
    have hname : c.fileName = some token := by
      rw [fileName, heq, words_token hpre hne htok hrest]
      rfl
    rw [heq] at hline hfuel
    obtain ⟨mem', hstrtok, -⟩ := strtokR_token (some p) 0 rfl hline hpre hne htok hrest hfuel
    exact ⟨_, mem', _, hstrtok, by simp [hname]⟩

end ExecCall

namespace Loader

/-- The rest of `load` once the executable is open. -/
def loadRest (fuel : Nat) (s : Loader) (argv : List (List UInt8)) : Option Bool :=
  match s.load fuel with
  | none => none
  | some (false, _) => some false
  | some (true, s) => (s.setupStack argv).1

/-- A page fault in `load` is one in `setup_stack`, on arguments that do not fit. -/
lemma Ready.loadRest_isSome {s : Loader} (hr : Ready s) {fuel : Nat} (hfuel : 786432 < fuel)
    {argv : List (List UInt8)} (hfits : StackSetup.layoutSize argv ≤ 4096) :
    (s.loadRest fuel argv).isSome = true := by
  obtain ⟨b, s', hload, hgood, -⟩ := hr.load
  have hpointers := StackSetup.length_pointerBytes argv
  have hsize := StackSetup.length_pointerBytes_eq argv
  unfold loadRest
  rw [hload fuel hfuel]
  cases b with
  | false => rfl
  | true =>
    rcases hgood.setupStack (show (StackSetup.argBytes argv).length ≤ 4096 by omega) with
      ⟨-, hout⟩ | ⟨kpage, t, -, hrun, hplaced, -⟩
    · dsimp only
      rw [hout]
      rfl
    · have hfault := (hplaced.inside (by rw [StackSetup.length_stackBytes]; exact hfits)).1
      dsimp only
      rw [hrun, hfault]
      rfl

end Loader

/-- Where `process_execute` is; `none` is `TID_ERROR`, or a null pointer. -/
inductive CallerPoint where
  | entry
  | copied
  | created (tid : Option Tid)
  | waiting (child : Option Tid)
  | woken
  | returned (tid : Option Tid)
  deriving DecidableEq

/-- Where the new thread is. `left` is a return for want of memory, `exited` after a failed load. -/
inductive ChildPoint where
  | unborn
  | ready
  | named
  | loaded (success : Bool)
  | freed (success : Bool)
  | marked (success : Bool)
  | running
  | exited
  | left
  deriving DecidableEq

inductive LoadStatus where
  | notLoaded
  | success
  | fail
  deriving DecidableEq

inductive Crash where
  | assertion
  | nullThread
  | pageFault
  deriving DecidableEq

/-- Both threads, the page with the command line, and what they share. `loadResult` is history. -/
structure Exec where
  caller : CallerPoint
  child : ChildPoint
  crash : Option Crash
  page : Bool
  childList : List Tid
  allList : List Tid
  semaLoad : Nat
  loadStatus : LoadStatus
  loadResult : Option Bool
  deriving DecidableEq

namespace Exec

/-- `get_thread`; no thread has the tid `TID_ERROR`. -/
def getThread (s : Exec) (tid : Option Tid) : Option Tid :=
  tid.bind fun t => s.allList.find? fun u => u = t

/-- `thread_create`; the name is tested in `init_thread`. -/
def threadCreate (c : ExecCall) (s : Exec) : Exec :=
  if c.answers.thread then
    match c.fileName with
    | none => { s with crash := some .assertion }
    | some _ =>
        { s with
          caller := .created (some c.tid)
          child := .ready
          allList := s.allList ++ [c.tid]
          childList := if c.answers.record then s.childList ++ [c.tid] else s.childList }
  else { s with caller := .created none }

def callerStep (c : ExecCall) (s : Exec) : Option Exec :=
  match s.caller with
  | .entry =>
      if c.answers.fnCopy then some { s with caller := .copied, page := true }
      else some { s with caller := .returned none }
  | .copied => some (threadCreate c s)
  | .created tid =>
      some { s with caller := .waiting (s.getThread tid), page := s.page && tid.isSome }
  | .waiting none => some { s with crash := some .nullThread }
  | .waiting (some _) =>
      if s.semaLoad = 0 then none
      else some { s with caller := .woken, semaLoad := s.semaLoad - 1 }
  | .woken =>
      some { s with caller := .returned (if s.loadStatus = .fail then none else some c.tid) }
  | .returned _ => none

/-- A step of `start_process`. `file_deny_write` asserts that the executable is open. -/
def childStep (c : ExecCall) (s : Exec) : Option Exec :=
  match s.child with
  | .unborn => none
  | .ready => some { s with child := if c.answers.fnCopy2 then .named else .left }
  | .named =>
      match c.load with
      | none => some { s with crash := some .pageFault }
      | some b => some { s with child := .loaded b, loadResult := some b }
  | .loaded b => some { s with child := .freed b, page := false }
  | .freed true =>
      if c.answers.executable then some { s with child := .marked true, loadStatus := .success }
      else some { s with loadStatus := .success, crash := some .assertion }
  | .freed false => some { s with child := .marked false, loadStatus := .fail }
  | .marked b =>
      some { s with child := if b then .running else .exited, semaLoad := s.semaLoad + 1 }
  | .running => none
  | .exited => none
  | .left => none

inductive Party where
  | caller
  | child
  deriving DecidableEq

def step (c : ExecCall) (s : Exec) : Party → Option Exec
  | .caller => if s.crash = none then callerStep c s else none
  | .child => if s.crash = none then childStep c s else none

def start (c : ExecCall) : Exec where
  caller := .entry
  child := .unborn
  crash := none
  page := false
  childList := c.childList
  allList := c.allList
  semaLoad := 0
  loadStatus := .notLoaded
  loadResult := none

def machine (c : ExecCall) : Machine Exec Party where
  start s := s = start c
  step := step c

def Final (c : ExecCall) (s : Exec) : Prop := ∀ p, step c s p = none

/-- What is asked of `process_execute`. -/
structure Reports (c : ExecCall) (s : Exec) : Prop where
  noCrash : s.crash = none
  notBlocked : (s.child = .exited ∨ s.child = .left) → ∀ t, s.caller ≠ .waiting t
  tid : s.caller = .returned (some c.tid) ↔ s.loadResult = some true
  error : s.loadResult ≠ some true →
    s.caller = .returned none ∧ s.page = false ∧ s.childList = c.childList

/-! ## The states of a call -/

/-- Once there is a new thread, its position says what has become of the page, of the load
and of the semaphore. -/
def pageAt : ChildPoint → Bool
  | .freed _ | .marked _ | .running | .exited => false
  | _ => true

def resultAt : ChildPoint → Option Bool
  | .loaded b | .freed b | .marked b => some b
  | .running => some true
  | .exited => some false
  | _ => none

def statusAt : ChildPoint → LoadStatus
  | .marked true | .running => .success
  | .marked false | .exited => .fail
  | _ => .notLoaded

def signalled : ChildPoint → Bool
  | .running | .exited => true
  | _ => false

def passed : CallerPoint → Bool
  | .woken | .returned _ => true
  | _ => false

/-- The state with the caller at `k` and the new thread at `d`. -/
def both (c : ExecCall) (k : CallerPoint) (d : ChildPoint) : Exec where
  caller := k
  child := d
  crash := none
  page := pageAt d
  childList := if c.answers.record then c.childList ++ [c.tid] else c.childList
  allList := c.allList ++ [c.tid]
  semaLoad := if signalled d && !passed k then 1 else 0
  loadStatus := statusAt d
  loadResult := resultAt d

def Born (c : ExecCall) : Prop :=
  c.answers.fnCopy = true ∧ c.answers.thread = true ∧ c.fileName ≠ none

/-- The points that the new thread comes to. -/
def Comes (c : ExecCall) : ChildPoint → Prop
  | .unborn => False
  | .ready => True
  | .named => c.answers.fnCopy2 = true
  | .loaded b | .freed b => c.answers.fnCopy2 = true ∧ c.load = some b
  | .marked b =>
      c.answers.fnCopy2 = true ∧ c.load = some b ∧ (b = true → c.answers.executable = true)
  | .running => c.answers.fnCopy2 = true ∧ c.load = some true ∧ c.answers.executable = true
  | .exited => c.answers.fnCopy2 = true ∧ c.load = some false
  | .left => c.answers.fnCopy2 = false

/-- The points of the caller while the new thread is at `d`. -/
inductive Meanwhile (c : ExecCall) (d : ChildPoint) : CallerPoint → Prop
  | created : Meanwhile c d (.created (some c.tid))
  | waiting : Meanwhile c d (.waiting (some c.tid))
  | woken (h : signalled d = true) : Meanwhile c d .woken
  | returned (h : signalled d = true) :
      Meanwhile c d (.returned (if statusAt d = .fail then none else some c.tid))

/-- All states of a call. -/
inductive Seen (c : ExecCall) : Exec → Prop
  | entry : Seen c (start c)
  | noPage (h : c.answers.fnCopy = false) : Seen c { start c with caller := .returned none }
  | copied (h : c.answers.fnCopy = true) : Seen c { start c with caller := .copied, page := true }
  | noName (h : c.answers.fnCopy = true) (hthread : c.answers.thread = true)
      (hname : c.fileName = none) :
      Seen c { start c with caller := .copied, page := true, crash := some .assertion }
  | noThread (h : c.answers.fnCopy = true) (hthread : c.answers.thread = false) :
      Seen c { start c with caller := .created none, page := true }
  | noChild (h : c.answers.fnCopy = true) (hthread : c.answers.thread = false) :
      Seen c { start c with caller := .waiting none }
  | nullThread (h : c.answers.fnCopy = true) (hthread : c.answers.thread = false) :
      Seen c { start c with caller := .waiting none, crash := some .nullThread }
  | both {k : CallerPoint} {d : ChildPoint} (hborn : Born c) (hd : Comes c d)
      (hk : Meanwhile c d k) : Seen c (both c k d)
  | pageFault {k : CallerPoint} (hborn : Born c) (hload : c.load = none) :
      Seen c { both c k .named with crash := some .pageFault }
  | noExecutable {k : CallerPoint} (hborn : Born c) (hload : c.load = some true)
      (hexec : c.answers.executable = false) :
      Seen c { both c k (.freed true) with loadStatus := .success, crash := some .assertion }

variable {c : ExecCall} {s s' : Exec}

lemma find_tid (c : ExecCall) : ((c.allList ++ [c.tid]).find? fun u => u = c.tid) = some c.tid := by
  have hfind : ((c.allList ++ [c.tid]).find? fun u => u = c.tid).isSome := by
    simp
  obtain ⟨t, ht⟩ := isSome_iff_exists.mp hfind
  have heq := List.find?_some ht
  rw [decide_eq_true_eq] at heq
  rw [ht, heq]

variable {k : CallerPoint} {d : ChildPoint}

lemma Seen.callerStep_both (hborn : Born c) (hd : Comes c d) (hk : Meanwhile c d k)
    (h : callerStep c (Exec.both c k d) = some s') : Seen c s' := by
  cases hk with
  | created =>
    have hthread : (Exec.both c (.created (some c.tid)) d).getThread (some c.tid) =
        some c.tid := find_tid c
    have hs' : callerStep c (Exec.both c (.created (some c.tid)) d) =
        some { Exec.both c (.created (some c.tid)) d with
          caller := .waiting ((Exec.both c (.created (some c.tid)) d).getThread (some c.tid))
          page := pageAt d && true } := rfl
    rw [hthread, Bool.and_true] at hs'
    rw [← some.inj (hs'.symm.trans h)]
    exact .both hborn hd .waiting
  | waiting =>
    cases hsig : signalled d with
    | false => simp [callerStep, Exec.both, hsig] at h
    | true =>
      have hs' : callerStep c (Exec.both c (.waiting (some c.tid)) d) =
          some (Exec.both c .woken d) := by
        simp [callerStep, Exec.both, hsig, passed]
      rw [← some.inj (hs'.symm.trans h)]
      exact .both hborn hd (.woken hsig)
  | woken hsig =>
    rw [← some.inj h]
    exact .both hborn hd (.returned hsig)
  | returned => cases h

/-- The new thread goes on. The caller is not past its `sema_down` before the semaphore is
upped. -/
lemma Seen.childStep_both (hborn : Born c) (hd : Comes c d) (hk : Meanwhile c d k)
    (h : childStep c (Exec.both c k d) = some s') : Seen c s' := by
  have hearly : ∀ d', signalled d = false → Meanwhile c d' k := by
    intro d' hsig
    cases hk with
    | created => exact .created
    | waiting => exact .waiting
    | woken hsig' => exact absurd (hsig.symm.trans hsig') Bool.false_ne_true
    | returned hsig' => exact absurd (hsig.symm.trans hsig') Bool.false_ne_true
  cases d with
  | unborn => exact hd.elim
  | ready =>
    cases hmem : c.answers.fnCopy2 with
    | true =>
      simp only [childStep, Exec.both, hmem, if_true, some.injEq] at h
      rw [← h]
      exact .both hborn hmem (hearly .named rfl)
    | false =>
      simp only [childStep, Exec.both, hmem, Bool.false_eq_true, if_false, some.injEq] at h
      rw [← h]
      exact .both hborn hmem (hearly .left rfl)
  | named =>
    cases hload : c.load with
    | none =>
      simp only [childStep, Exec.both, hload, some.injEq] at h
      rw [← h]
      exact .pageFault hborn hload
    | some b =>
      simp only [childStep, Exec.both, hload, some.injEq] at h
      rw [← h]
      exact .both hborn ⟨hd, hload⟩ (hearly (.loaded b) rfl)
  | loaded b =>
    rw [← some.inj h]
    exact .both hborn hd (hearly (.freed b) rfl)
  | freed b =>
    cases b with
    | false =>
      rw [← some.inj h]
      exact .both hborn ⟨hd.1, hd.2, nofun⟩ (hearly (.marked false) rfl)
    | true =>
      cases hexec : c.answers.executable with
      | true =>
        simp only [childStep, Exec.both, hexec, if_true, some.injEq] at h
        rw [← h]
        exact .both hborn ⟨hd.1, hd.2, fun _ => hexec⟩ (hearly (.marked true) rfl)
      | false =>
        simp only [childStep, Exec.both, hexec, Bool.false_eq_true, if_false, some.injEq] at h
        rw [← h]
        exact .noExecutable hborn hd.2 hexec
  | marked b =>
    have hpass : passed k = false := by
      cases hearly .ready rfl with
      | created => rfl
      | waiting => rfl
      | woken hsig => cases hsig
      | returned hsig => cases hsig
    cases b with
    | true =>
      have hs' : childStep c (Exec.both c k (.marked true)) = some (Exec.both c k .running) := by
        simp [childStep, Exec.both, signalled, hpass, pageAt, statusAt, resultAt]
      rw [← some.inj (hs'.symm.trans h)]
      exact .both hborn ⟨hd.1, hd.2.1, hd.2.2 rfl⟩ (hearly .running rfl)
    | false =>
      have hs' : childStep c (Exec.both c k (.marked false)) = some (Exec.both c k .exited) := by
        simp [childStep, Exec.both, signalled, hpass, pageAt, statusAt, resultAt]
      rw [← some.inj (hs'.symm.trans h)]
      exact .both hborn ⟨hd.1, hd.2.1⟩ (hearly .exited rfl)
  | running => cases h
  | exited => cases h
  | left => cases h

lemma Seen.threadCreate (h : c.answers.fnCopy = true) :
    Seen c (threadCreate c { start c with caller := .copied, page := true }) := by
  unfold Exec.threadCreate
  cases hthread : c.answers.thread with
  | false => exact .noThread h hthread
  | true =>
    cases hname : c.fileName with
    | none => exact .noName h hthread hname
    | some w =>
      exact .both ⟨h, hthread, by rw [hname]; exact nofun⟩ (show Comes c .ready from trivial)
        .created

lemma Seen.step {p : Party} (hs : Seen c s) (h : step c s p = some s') : Seen c s' := by
  cases hs with
  | entry =>
    cases p with
    | caller =>
      cases hpage : c.answers.fnCopy with
      | true =>
        simp only [Exec.step, callerStep, start, hpage, if_true, some.injEq] at h
        rw [← h]
        exact .copied hpage
      | false =>
        simp only [Exec.step, callerStep, start, hpage, Bool.false_eq_true, if_false, if_true,
          some.injEq] at h
        rw [← h]
        exact .noPage hpage
    | child => cases h
  | noPage => cases p <;> cases h
  | copied hpage =>
    cases p with
    | caller =>
      rw [← some.inj h]
      exact .threadCreate hpage
    | child => cases h
  | noName => cases p <;> cases h
  | noThread hpage hthread =>
    cases p with
    | caller =>
      rw [← some.inj h]
      exact .noChild hpage hthread
    | child => cases h
  | noChild hpage hthread =>
    cases p with
    | caller =>
      rw [← some.inj h]
      exact .nullThread hpage hthread
    | child => cases h
  | nullThread => cases p <;> cases h
  | both hborn hd hk =>
    cases p with
    | caller => exact .callerStep_both hborn hd hk h
    | child => exact .childStep_both hborn hd hk h
  | pageFault => cases p <;> cases h
  | noExecutable => cases p <;> cases h

lemma Seen.of_reachable (h : (machine c).Reachable s) : Seen c s :=
  h.invariant (fun _ hs => by rw [hs]; exact .entry) fun _ _ _ hs hstep => hs.step hstep

/-- Steps that are left at most, those of the new thread included until it is there. -/
def callerRank : CallerPoint → Nat
  | .entry => 10
  | .copied => 9
  | .created _ => 3
  | .waiting _ => 2
  | .woken => 1
  | .returned _ => 0

def childRank : ChildPoint → Nat
  | .unborn => 0
  | .ready => 5
  | .named => 4
  | .loaded _ => 3
  | .freed _ => 2
  | .marked _ => 1
  | .running | .exited | .left => 0

def rank (s : Exec) : Nat :=
  callerRank s.caller + childRank s.child + if s.crash = none then 1 else 0

lemma rank_callerStep (hcrash : s.crash = none) (h : callerStep c s = some s') :
    rank s' < rank s := by
  unfold callerStep at h
  cases hk : s.caller with
  | entry =>
    simp only [hk] at h
    split at h <;> cases h <;> simp [rank, hk, hcrash, callerRank]
  | copied =>
    simp only [hk, threadCreate, some.injEq] at h
    subst h
    split
    · split
      · simp [rank, hk, hcrash]
      · simp only [rank, hk, hcrash, callerRank, childRank, if_true]
        omega
    · simp [rank, hk, hcrash, callerRank]
  | created tid =>
    simp only [hk, some.injEq] at h
    subst h
    simp [rank, hk, hcrash, callerRank]
  | waiting t =>
    cases t with
    | none =>
      simp only [hk, some.injEq] at h
      subst h
      simp [rank, hk, hcrash]
    | some t =>
      simp only [hk] at h
      split at h <;> cases h
      simp [rank, hk, hcrash, callerRank]
  | woken =>
    simp only [hk, some.injEq] at h
    subst h
    simp [rank, hk, hcrash, callerRank]
  | returned tid =>
    simp only [hk] at h
    cases h

lemma rank_childStep (hcrash : s.crash = none) (h : childStep c s = some s') :
    rank s' < rank s := by
  unfold childStep at h
  cases hd : s.child with
  | ready =>
    simp only [hd, some.injEq] at h
    subst h
    split <;> simp [rank, hd, hcrash, childRank]
  | named =>
    simp only [hd] at h
    split at h <;> cases h <;> simp [rank, hd, hcrash, childRank]
  | freed b =>
    cases b with
    | false =>
      simp only [hd, some.injEq] at h
      subst h
      simp [rank, hd, hcrash, childRank]
    | true =>
      simp only [hd] at h
      split at h <;> cases h <;> simp [rank, hd, hcrash, childRank]
  | loaded b =>
    simp only [hd, some.injEq] at h
    subst h
    simp [rank, hd, hcrash, childRank]
  | marked b =>
    simp only [hd, some.injEq] at h
    subst h
    split <;> simp [rank, hd, hcrash, childRank]
  | unborn | running | exited | left =>
    simp only [hd] at h
    cases h

lemma rank_step {p : Party} (h : step c s p = some s') : rank s' < rank s := by
  cases p with
  | caller =>
    simp only [step] at h
    split at h
    next hcrash => exact rank_callerStep hcrash h
    next => cases h
  | child =>
    simp only [step] at h
    split at h
    next hcrash => exact rank_childStep hcrash h
    next => cases h

/-- Every run can be continued until neither thread can go on. -/
lemma exists_final (c : ExecCall) (s : Exec) :
    ∃ ops s', (machine c).run s ops = some s' ∧ Final c s' := by
  induction hn : rank s using Nat.strong_induction_on generalizing s with
  | _ n ih =>
    by_cases hfinal : Final c s
    · exact ⟨[], s, rfl, hfinal⟩
    · obtain ⟨p, hp⟩ := not_forall.mp hfinal
      obtain ⟨s₁, hs₁⟩ := ne_none_iff_exists'.mp hp
      obtain ⟨ops, s', hrun, hlast⟩ := ih (rank s₁) (hn ▸ rank_step hs₁) s₁ rfl
      exact ⟨p :: ops, s', (Machine.run_cons_of_step (m := machine c) hs₁).trans hrun, hlast⟩

/-! ## The outcome -/

/-- When `process_execute` reports what happened: a failed load only if there was no memory for the
child record either. -/
def Harmless (c : ExecCall) : Prop :=
  c.answers.fnCopy = false ∨
    c.answers.thread = true ∧ c.fileName ≠ none ∧ c.answers.fnCopy2 = true ∧
      (c.load = some true ∧ c.answers.executable = true ∨
        c.load = some false ∧ c.answers.record = false)

lemma Harmless.of_copied (hharm : Harmless c) (hpage : c.answers.fnCopy = true) :
    c.answers.thread = true ∧ c.fileName ≠ none ∧ c.answers.fnCopy2 = true ∧
      (c.load = some true ∧ c.answers.executable = true ∨
        c.load = some false ∧ c.answers.record = false) := by
  cases hharm with
  | inl hno => exact absurd (hno.symm.trans hpage) Bool.false_ne_true
  | inr hrest => exact hrest

lemma not_harmless_of_crash (hborn : Born c)
    (hbad : c.load ≠ some false ∧ (c.load = some true → c.answers.executable = false)) :
    ¬ Harmless c := by
  intro hharm
  obtain ⟨-, -, -, ⟨hload, hexec⟩ | ⟨hload, -⟩⟩ := hharm.of_copied hborn.1
  · exact Bool.false_ne_true ((hbad.2 hload).symm.trans hexec)
  · exact hbad.1 hload

/-- The new thread stops in three places only. -/
lemma Final.child (hfinal : Final c (Exec.both c k d)) (hd : Comes c d) :
    d = .running ∨ d = .exited ∨ d = .left := by
  have hstop : childStep c (Exec.both c k d) = none := hfinal .child
  cases d with
  | unborn => exact hd.elim
  | ready => cases hstop
  | named =>
    cases hload : c.load with
    | none => simp [childStep, Exec.both, hload] at hstop
    | some b => simp [childStep, Exec.both, hload] at hstop
  | loaded b => cases hstop
  | freed b =>
    cases b with
    | false => cases hstop
    | true =>
      cases hexec : c.answers.executable with
      | true => simp [childStep, Exec.both, hexec] at hstop
      | false => simp [childStep, Exec.both, hexec] at hstop
  | marked b => cases hstop
  | running => exact .inl rfl
  | exited => exact .inr (.inl rfl)
  | left => exact .inr (.inr rfl)

lemma Final.caller (hfinal : Final c (Exec.both c k d)) (hk : Meanwhile c d k) :
    if signalled d then k = .returned (if statusAt d = .fail then none else some c.tid)
    else k = .waiting (some c.tid) := by
  have hstop : callerStep c (Exec.both c k d) = none := hfinal .caller
  cases hk with
  | created => cases hstop
  | waiting =>
    cases hsig : signalled d with
    | true => simp [callerStep, Exec.both, hsig, passed] at hstop
    | false => rfl
  | woken => cases hstop
  | returned hsig => rw [hsig]; rfl

lemma reports_noPage : Reports c { start c with caller := .returned none } :=
  ⟨rfl, fun _ => nofun, ⟨nofun, nofun⟩, fun _ => ⟨rfl, rfl, rfl⟩⟩

lemma reports_running : Reports c (Exec.both c (.returned (some c.tid)) .running) :=
  ⟨rfl, fun _ => nofun, ⟨fun _ => rfl, fun _ => rfl⟩, fun hno => absurd rfl hno⟩

lemma reports_exited_iff :
    Reports c (Exec.both c (.returned none) .exited) ↔ c.answers.record = false := by
  constructor
  · intro hrep
    have hlist := (hrep.error nofun).2.2
    cases hrec : c.answers.record with
    | false => rfl
    | true => simp [Exec.both, hrec] at hlist
  · intro hrec
    refine ⟨rfl, fun _ => nofun, ⟨nofun, nofun⟩, fun _ => ⟨rfl, rfl, ?_⟩⟩
    simp [Exec.both, hrec]

lemma reports_both_iff (hborn : Born c) (hd : Comes c d) (hk : Meanwhile c d k)
    (hfinal : Final c (Exec.both c k d)) : Reports c (Exec.both c k d) ↔ Harmless c := by
  have hk' := hfinal.caller hk
  rcases hfinal.child hd with rfl | rfl | rfl
  · -- the program runs
    obtain rfl : k = CallerPoint.returned (some c.tid) := hk'
    have hharm : Harmless c := .inr ⟨hborn.2.1, hborn.2.2, hd.1, .inl hd.2⟩
    exact iff_of_true reports_running hharm
  · -- the load has failed
    obtain rfl : k = CallerPoint.returned none := hk'
    rw [reports_exited_iff]
    constructor
    · intro hrec
      exact .inr ⟨hborn.2.1, hborn.2.2, hd.1, .inr ⟨hd.2, hrec⟩⟩
    · intro hharm
      obtain ⟨-, -, -, ⟨hload, -⟩ | ⟨-, hrec⟩⟩ := hharm.of_copied hborn.1
      · cases hd.2.symm.trans hload
      · exact hrec
  · -- the new thread is gone and the caller waits
    obtain rfl : k = CallerPoint.waiting (some c.tid) := hk'
    refine iff_of_false (fun hrep => hrep.notBlocked (.inr rfl) _ rfl) fun hharm => ?_
    exact Bool.false_ne_true (hd.symm.trans (hharm.of_copied hborn.1).2.2.1)

/-- In every interleaving, once neither thread can go on, the outcome was reported exactly in the
harmless cases. -/
theorem processExecute_reports_iff {ops : List Party}
    (hrun : (machine c).run (start c) ops = some s) (hfinal : Final c s) :
    Reports c s ↔ Harmless c := by
  have hseen := Seen.of_reachable (Machine.reachable_run (.start rfl) hrun)
  cases hseen with
  | entry =>
    have hstep := hfinal .caller
    simp only [step, callerStep, start, if_true] at hstep
    split at hstep <;> cases hstep
  | noPage hpage => exact iff_of_true reports_noPage (.inl hpage)
  | copied => cases hfinal .caller
  | noName hpage hthread hname =>
    refine iff_of_false (fun hrep => nomatch hrep.noCrash) fun hharm => ?_
    exact (hharm.of_copied hpage).2.1 hname
  | noThread => cases hfinal .caller
  | noChild => cases hfinal .caller
  | nullThread hpage hthread =>
    refine iff_of_false (fun hrep => nomatch hrep.noCrash) fun hharm => ?_
    exact Bool.false_ne_true (hthread.symm.trans (hharm.of_copied hpage).1)
  | both hborn hd hk => exact reports_both_iff hborn hd hk hfinal
  | pageFault hborn hload =>
    refine iff_of_false (fun hrep => nomatch hrep.noCrash) (not_harmless_of_crash hborn ?_)
    exact ⟨by rw [hload]; exact nofun, by rw [hload]; exact nofun⟩
  | noExecutable hborn hload hexec =>
    refine iff_of_false (fun hrep => nomatch hrep.noCrash) (not_harmless_of_crash hborn ?_)
    exact ⟨by rw [hload]; exact nofun, fun _ => hexec⟩

/-- A call by thread 1, which has no children yet; the new thread would be 3. -/
def callOf (line : List UInt8) (answers : Answers) : ExecCall := ⟨line, answers, 3, [], [1]⟩

/-- Memory for everything, and a program that can be loaded. -/
def plenty : Answers := ⟨true, true, true, true, true, true, some true, true⟩

theorem processExecute_reports_plenty :
    Reports (callOf [97] plenty) (both (callOf [97] plenty) (.returned (some 3)) .running) := by
  have hrun : (machine (callOf [97] plenty)).run (start (callOf [97] plenty))
      [.caller, .caller, .child, .child, .caller, .child, .child, .child, .caller, .caller] =
      some (both (callOf [97] plenty) (.returned (some 3)) .running) := by decide
  have hfinal : Final (callOf [97] plenty)
      (both (callOf [97] plenty) (.returned (some 3)) .running) := by
    intro p
    cases p <;> rfl
  exact (processExecute_reports_iff hrun hfinal).mpr (.inr (by decide))

/-- No page for the thread, an empty line, no memory for its copy, and a failed load. -/
theorem processExecute_fails :
    (((machine (callOf [97] { plenty with thread := false })).run
        (start (callOf [97] { plenty with thread := false }))
        [.caller, .caller, .caller, .caller]).map fun s => s.crash) = some (some .nullThread) ∧
    (((machine (callOf [] plenty)).run (start (callOf [] plenty)) [.caller, .caller]).map
        fun s => s.crash) = some (some .assertion) ∧
    (((machine (callOf [97] { plenty with fnCopy2 := false })).run
        (start (callOf [97] { plenty with fnCopy2 := false }))
        [.caller, .caller, .caller, .child]).map
        fun s => (s.child, s.caller, s.semaLoad)) = some (.left, .waiting (some 3), 0) ∧
    (((machine (callOf [97] { plenty with rest := some false })).run
        (start (callOf [97] { plenty with rest := some false }))
        [.caller, .caller, .child, .child, .caller, .child, .child, .child, .caller, .caller]).map
        fun s => (s.caller, s.childList)) = some (.returned none, [3]) := by
  decide

end Exec

end Pintos.Userprog
