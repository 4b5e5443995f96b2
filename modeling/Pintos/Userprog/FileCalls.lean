import Pintos.Filesys.FileGrowth
import Pintos.Userprog.FileTable

/-!
# The system calls on descriptors (userprog/syscall.c)

Each call looks its descriptor up, tests the entry in its own way and passes one of the
two pointers of the entry on. `add_file` and `add_dir` initialise only the pointer that
`is_dir` announces. The functions on directories are parameters: the repository does
not contain them.
-/

namespace Pintos.Userprog

open Filesys

/-- The functions of filesys/directory.c that the system calls use. -/
structure DirOps where
  dirClose : DirPtr → Files → Files
  dirReaddir : DirPtr → Files → (Nat → UInt8) → Bool × (Nat → UInt8) × Files
  dirGetInode : DirPtr → Files → InodePtr

/-- The keys that `input_getc` returns, how many it has returned, and what `putbuf` has
written. -/
structure Console where
  input : Nat → UInt8
  taken : Nat
  output : List UInt8

/-- What a call works on; `buffer` is the memory behind its pointer argument. -/
structure CallState where
  table : FileTable
  files : Files
  console : Console
  buffer : Nat → UInt8

/-- An evaluation of `fp->file` or `fp->dir`, with the entry. -/
inductive Use
  | file (a : Addr)
  | dir (a : Addr)
  deriving DecidableEq

/-- `none` is for a function that returns no value though it has a type. -/
inductive Value
  | int (i : Int)
  | bool (b : Bool)
  | void
  | none
  deriving DecidableEq

inductive Panic
  /-- A member of an entry is read through a null pointer. -/
  | nullEntry
  /-- `ASSERT (new_pos >= 0)` -/
  | newPos
  deriving DecidableEq

inductive Ending
  | returned (value : Value) (s : CallState)
  | panicked (p : Panic)

structure Outcome where
  uses : List Use
  ending : Ending

def stdinFileno : Int := 0

def stdoutFileno : Int := 1

namespace CallState

def filesize (s : CallState) (fd : Int) : Outcome :=
  match s.table.getFile fd with
  | none => ⟨[], .returned (.int error) s⟩
  | some a => ⟨[.file a], .returned (.int (s.files.fileLength (s.table.entry a).file)) s⟩

def readKeys (s : CallState) (size : Nat) : CallState :=
  { s with
    console := { s.console with taken := s.console.taken + size }
    buffer := fun i => if i < size then s.console.input (s.console.taken + i) else s.buffer i }

def read (s : CallState) (fd : Int) (size : UInt32) : Outcome :=
  if fd = stdinFileno then
    ⟨[], .returned (.int (wrap32 size.toNat)) (s.readKeys size.toNat)⟩
  else
    match s.table.getFile fd with
    | none => ⟨[], .returned (.int error) s⟩
    | some a =>
        let out := s.files.fileRead (s.table.entry a).file s.buffer (wrap32 size.toNat)
        ⟨[.file a], .returned (.int out.1) { s with files := out.2.2, buffer := out.2.1 }⟩

def putbuf (s : CallState) (size : Nat) : CallState :=
  { s with console := { s.console with
      output := s.console.output ++ (List.range size).map s.buffer } }

def write (s : CallState) (fd : Int) (size : UInt32) : Outcome :=
  if fd = stdoutFileno then
    ⟨[], .returned (.int (wrap32 size.toNat)) (s.putbuf size.toNat)⟩
  else
    match s.table.getFile fd with
    | none => ⟨[], .returned (.int error) s⟩
    | some a =>
        if (s.table.entry a).isDir then ⟨[], .returned (.int error) s⟩
        else
          let out := s.files.fileWrite (s.table.entry a).file s.buffer (wrap32 size.toNat)
          ⟨[.file a], .returned (.int out.1) { s with files := out.2 }⟩

def seekTo (s : CallState) (a : Addr) (newPos : Int) : Outcome :=
  match s.files.fileSeek (s.table.entry a).file newPos with
  | none => ⟨[.file a], .panicked .newPos⟩
  | some files => ⟨[.file a], .returned .void { s with files := files }⟩

/-- `fp->is_dir` is read before `fp` is tested. -/
def seek (s : CallState) (fd : Int) (position : UInt32) : Outcome :=
  match s.table.getFile fd with
  | none => ⟨[], .panicked .nullEntry⟩
  | some a =>
      if (s.table.entry a).isDir then ⟨[], .returned .void s⟩
      else s.seekTo a (wrap32 position.toNat)

/-- Neither `return` of `tell` has a value. -/
def tell (s : CallState) (fd : Int) : Outcome :=
  match s.table.getFile fd with
  | none => ⟨[], .panicked .nullEntry⟩
  | some a =>
      if (s.table.entry a).isDir then ⟨[], .returned .none s⟩
      else ⟨[.file a], .returned .none s⟩

def close (dirs : DirOps) (s : CallState) (fd : Int) : Outcome :=
  match s.table.getFile fd with
  | none => ⟨[], .returned .void s⟩
  | some a =>
      let s' := { s with table := s.table.close fd }
      if (s.table.entry a).isDir = false then
        ⟨[.file a], .returned .void
          { s' with files := s.files.fileClose (s.table.entry a).file }⟩
      else
        ⟨[.dir a], .returned .void
          { s' with files := dirs.dirClose (s.table.entry a).dir s.files }⟩

def readdir (dirs : DirOps) (s : CallState) (fd : Int) : Outcome :=
  match s.table.getFile fd with
  | none => ⟨[], .returned (.bool false) s⟩
  | some a =>
      if (s.table.entry a).isDir = false then ⟨[], .returned (.bool false) s⟩
      else
        let out := dirs.dirReaddir (s.table.entry a).dir s.files s.buffer
        ⟨[.dir a], .returned (.bool out.1) { s with files := out.2.2, buffer := out.2.1 }⟩

def isdir (s : CallState) (fd : Int) : Outcome :=
  match s.table.getFile fd with
  | none => ⟨[], .returned (.bool false) s⟩
  | some a => ⟨[], .returned (.bool (s.table.entry a).isDir) s⟩

def inodeGetInumber (s : CallState) (i : InodePtr) : Int :=
  wrap32 (s.files.inode i).sector.toNat

def inumber (dirs : DirOps) (s : CallState) (fd : Int) : Outcome :=
  match s.table.getFile fd with
  | none => ⟨[], .returned (.int error) s⟩
  | some a =>
      if (s.table.entry a).isDir then
        ⟨[.dir a], .returned
          (.int (s.inodeGetInumber (dirs.dirGetInode (s.table.entry a).dir s.files))) s⟩
      else
        ⟨[.file a], .returned
          (.int (s.inodeGetInumber (s.files.fileGetInode (s.table.entry a).file))) s⟩

end CallState

/-! ## Safety of a call -/

/-- A call on a descriptor with its scalar arguments. -/
inductive FileCall
  | filesize (fd : Int)
  | read (fd : Int) (size : UInt32)
  | write (fd : Int) (size : UInt32)
  | seek (fd : Int) (position : UInt32)
  | tell (fd : Int)
  | close (fd : Int)
  | readdir (fd : Int)
  | isdir (fd : Int)
  | inumber (fd : Int)

namespace FileCall

def fd : FileCall → Int
  | .filesize fd | .read fd _ | .write fd _ | .seek fd _ | .tell fd | .close fd | .readdir fd
  | .isdir fd | .inumber fd => fd

def run (dirs : DirOps) (s : CallState) : FileCall → Outcome
  | .filesize fd => s.filesize fd
  | .read fd size => s.read fd size
  | .write fd size => s.write fd size
  | .seek fd position => s.seek fd position
  | .tell fd => s.tell fd
  | .close fd => s.close dirs fd
  | .readdir fd => s.readdir dirs fd
  | .isdir fd => s.isdir fd
  | .inumber fd => s.inumber dirs fd

/-- What a call returns for a descriptor it does not find; `tell` returns `ERROR` as an
`unsigned`. -/
def errorValue : FileCall → Value
  | .filesize _ | .read _ _ | .write _ _ | .inumber _ => .int error
  | .seek _ _ | .close _ => .void
  | .tell _ => .int (2 ^ 32 - 1)
  | .readdir _ | .isdir _ => .bool false

/-- An unknown descriptor does nothing, only the initialised pointer is used, and no position is
negative. -/
structure Safe (dirs : DirOps) (s : CallState) (call : FileCall) : Prop where
  unknown : s.table.getFile call.fd = none →
    call.run dirs s = ⟨[], .returned call.errorValue s⟩
  file : ∀ a, .file a ∈ (call.run dirs s).uses → (s.table.entry a).isDir = false
  dir : ∀ a, .dir a ∈ (call.run dirs s).uses → (s.table.entry a).isDir = true
  newPos : (call.run dirs s).ending ≠ .panicked .newPos

def Known (s : CallState) (fd : Int) : Prop := s.table.getFile fd ≠ none

/-- The descriptor, if open, is not a directory's. -/
def NotDir (s : CallState) (fd : Int) : Prop :=
  ∀ a, s.table.getFile fd = some a → (s.table.entry a).isDir = false

/-- `filesize` and `read` do not test `is_dir`, `seek` and `tell` test `fp` too late, and `seek`
makes its position signed. -/
def Guarded (s : CallState) : FileCall → Prop
  | .filesize fd => NotDir s fd
  | .read fd _ => if fd = stdinFileno then Known s fd else NotDir s fd
  | .write fd _ => fd = stdoutFileno → Known s fd
  | .seek fd position => Known s fd ∧ (NotDir s fd → position.toNat < 2147483648)
  | .tell fd => Known s fd
  | .close _ | .readdir _ | .isdir _ | .inumber _ => True

section

variable {dirs : DirOps} {s : CallState} {call : FileCall} {a : Addr} {fd : Int} {size : UInt32}

lemma safe_of_none (h : s.table.getFile call.fd = none) :
    Safe dirs s call ↔ call.run dirs s = ⟨[], .returned call.errorValue s⟩ := by
  constructor
  · intro hs
    exact hs.unknown h
  · intro hrun
    refine ⟨fun _ => hrun, ?_, ?_, ?_⟩ <;> simp [hrun]

lemma safe_of_some (h : s.table.getFile call.fd = some a) :
    Safe dirs s call ↔
      (∀ a, .file a ∈ (call.run dirs s).uses → (s.table.entry a).isDir = false) ∧
      (∀ a, .dir a ∈ (call.run dirs s).uses → (s.table.entry a).isDir = true) ∧
      (call.run dirs s).ending ≠ .panicked .newPos := by
  constructor
  · intro hs
    exact ⟨hs.file, hs.dir, hs.newPos⟩
  · rintro ⟨hfile, hdir, hpos⟩
    refine ⟨fun hnone => ?_, hfile, hdir, hpos⟩
    simp [h] at hnone

lemma not_known (h : s.table.getFile fd = none) : ¬ Known s fd := fun hk => hk h

lemma known (h : s.table.getFile fd = some a) : Known s fd := by
  simp [Known, h]

lemma notDir_of_none (h : s.table.getFile fd = none) : NotDir s fd := by
  simp [NotDir, h]

lemma notDir_iff (h : s.table.getFile fd = some a) :
    NotDir s fd ↔ (s.table.entry a).isDir = false := by
  simp [NotDir, h]

lemma safe_filesize (fd : Int) : Safe dirs s (.filesize fd) ↔ Guarded s (.filesize fd) := by
  cases h : s.table.getFile fd with
  | none =>
    rw [safe_of_none h, Guarded]
    simp [run, CallState.filesize, h, errorValue, notDir_of_none h]
  | some a =>
    rw [safe_of_some h, Guarded, notDir_iff h]
    simp [run, CallState.filesize, h]

/-- Even `read` of no key at all on an unknown descriptor does not return `ERROR`. -/
lemma readKeys_ne_error :
    ¬ (Outcome.mk [] (.returned (.int (wrap32 size.toNat)) (s.readKeys size.toNat)) =
      ⟨[], .returned (.int error) s⟩) := by
  intro heq
  simp only [Outcome.mk.injEq, Ending.returned.injEq, Value.int.injEq, true_and] at heq
  have htaken : (s.readKeys size.toNat).console.taken = s.console.taken := by rw [heq.2]
  have hzero : size.toNat = 0 := by
    simpa [CallState.readKeys] using htaken
  rw [hzero] at heq
  exact absurd heq.1 (by decide)

lemma putbuf_ne_error :
    ¬ (Outcome.mk [] (.returned (.int (wrap32 size.toNat)) (s.putbuf size.toNat)) =
      ⟨[], .returned (.int error) s⟩) := by
  intro heq
  simp only [Outcome.mk.injEq, Ending.returned.injEq, Value.int.injEq, true_and] at heq
  have houtput : (s.putbuf size.toNat).console.output.length = s.console.output.length := by
    rw [heq.2]
  have hzero : size.toNat = 0 := by
    simpa [CallState.putbuf] using houtput
  rw [hzero] at heq
  exact absurd heq.1 (by decide)

lemma safe_read (fd : Int) (size : UInt32) :
    Safe dirs s (.read fd size) ↔ Guarded s (.read fd size) := by
  cases h : s.table.getFile fd with
  | none =>
    rw [safe_of_none h, Guarded, run, CallState.read, errorValue]
    by_cases hfd : fd = stdinFileno
    · rw [if_pos hfd, if_pos hfd]
      exact iff_of_false readKeys_ne_error (not_known h)
    · rw [if_neg hfd, if_neg hfd, h]
      exact iff_of_true rfl (notDir_of_none h)
  | some a =>
    rw [safe_of_some h, Guarded, run, CallState.read, notDir_iff h]
    by_cases hfd : fd = stdinFileno
    · rw [if_pos hfd, if_pos hfd]
      simp [known h]
    · rw [if_neg hfd, if_neg hfd, h]
      dsimp only
      generalize s.files.fileRead (s.table.entry a).file s.buffer (wrap32 size.toNat) = out
      simp

lemma safe_write (fd : Int) (size : UInt32) :
    Safe dirs s (.write fd size) ↔ Guarded s (.write fd size) := by
  cases h : s.table.getFile fd with
  | none =>
    rw [safe_of_none h, Guarded, run, CallState.write, errorValue]
    by_cases hfd : fd = stdoutFileno
    · rw [if_pos hfd]
      exact iff_of_false putbuf_ne_error fun hk => not_known h (hk hfd)
    · rw [if_neg hfd, h]
      exact iff_of_true rfl fun hfd' => absurd hfd' hfd
  | some a =>
    rw [safe_of_some h, Guarded, run, CallState.write]
    refine iff_of_true ?_ fun _ => known h
    by_cases hfd : fd = stdoutFileno
    · rw [if_pos hfd]
      simp
    · rw [if_neg hfd, h]
      cases hdir : (s.table.entry a).isDir <;> simp [hdir]

lemma wrap32_nonneg_iff (position : UInt32) :
    0 ≤ wrap32 position.toNat ↔ position.toNat < 2147483648 := by
  have := position.toNat_lt
  rw [wrap32, Int.bmod_def]
  split <;> omega

lemma seekTo_spec (a : Addr) (newPos : Int) :
    (s.seekTo a newPos).uses = [.file a] ∧
      ((s.seekTo a newPos).ending ≠ .panicked .newPos ↔ 0 ≤ newPos) := by
  unfold CallState.seekTo Files.fileSeek
  by_cases hpos : 0 ≤ newPos <;> simp [hpos]

lemma safe_seek (fd : Int) (position : UInt32) :
    Safe dirs s (.seek fd position) ↔ Guarded s (.seek fd position) := by
  cases h : s.table.getFile fd with
  | none =>
    rw [safe_of_none h, Guarded, run, CallState.seek, h]
    exact iff_of_false (by simp) fun hg => not_known h hg.1
  | some a =>
    rw [safe_of_some h, Guarded, run, CallState.seek, h, notDir_iff h, ← wrap32_nonneg_iff]
    generalize wrap32 position.toNat = newPos
    cases hdir : (s.table.entry a).isDir with
    | true => simp [hdir, known h]
    | false =>
      have hseek := seekTo_spec (s := s) a newPos
      simp [hseek.1, hseek.2, hdir, known h]

lemma safe_tell (fd : Int) : Safe dirs s (.tell fd) ↔ Guarded s (.tell fd) := by
  cases h : s.table.getFile fd with
  | none =>
    rw [safe_of_none h, Guarded, run, CallState.tell, h]
    exact iff_of_false (by simp) (not_known h)
  | some a =>
    rw [safe_of_some h, Guarded, run, CallState.tell, h]
    refine iff_of_true ?_ (known h)
    cases hdir : (s.table.entry a).isDir <;> simp [hdir]

lemma safe_close (fd : Int) : Safe dirs s (.close fd) := by
  cases h : s.table.getFile fd with
  | none =>
    rw [safe_of_none h, run, CallState.close, h]
    rfl
  | some a =>
    rw [safe_of_some h, run, CallState.close, h]
    cases hdir : (s.table.entry a).isDir <;> simp [hdir]

lemma safe_readdir (fd : Int) : Safe dirs s (.readdir fd) := by
  cases h : s.table.getFile fd with
  | none =>
    rw [safe_of_none h, run, CallState.readdir, h]
    rfl
  | some a =>
    rw [safe_of_some h, run, CallState.readdir, h]
    cases hdir : (s.table.entry a).isDir <;> simp [hdir]

lemma safe_isdir (fd : Int) : Safe dirs s (.isdir fd) := by
  cases h : s.table.getFile fd with
  | none =>
    rw [safe_of_none h, run, CallState.isdir, h]
    rfl
  | some a =>
    rw [safe_of_some h, run, CallState.isdir, h]
    simp

lemma safe_inumber (fd : Int) : Safe dirs s (.inumber fd) := by
  cases h : s.table.getFile fd with
  | none =>
    rw [safe_of_none h, run, CallState.inumber, h]
    rfl
  | some a =>
    rw [safe_of_some h, run, CallState.inumber, h]
    cases hdir : (s.table.entry a).isDir <;> simp [hdir]

end

/-- For every table and every argument, a call is safe exactly if its guards cover it. -/
theorem safe_iff_guarded (dirs : DirOps) (s : CallState) (call : FileCall) :
    Safe dirs s call ↔ Guarded s call := by
  cases call with
  | filesize fd => exact safe_filesize fd
  | read fd size => exact safe_read fd size
  | write fd size => exact safe_write fd size
  | seek fd position => exact safe_seek fd position
  | tell fd => exact safe_tell fd
  | close fd => exact iff_of_true (safe_close fd) trivial
  | readdir fd => exact iff_of_true (safe_readdir fd) trivial
  | isdir fd => exact iff_of_true (safe_isdir fd) trivial
  | inumber fd => exact iff_of_true (safe_inumber fd) trivial

/-- A process that has opened a directory as descriptor 2 and a file as descriptor 3. -/
def twoOpen : CallState where
  table :=
    let t : FileTable := ⟨initFd, [], fun _ => ⟨⟨0⟩, ⟨0⟩, 0, false⟩, []⟩
    ((t.addDir ⟨8⟩ (some ⟨1⟩)).2.addFile ⟨16⟩ (some ⟨2⟩)).2
  files := ⟨smallVolume, fun _ => (inodeLoad smallVolume 1).1, fun _ => ⟨⟨24⟩, 0, false⟩⟩
  console := ⟨fun _ => 0, 0, []⟩
  buffer := fun _ => 0

/-- `seek` reads through a null pointer, `filesize` uses a pointer never set, and `seek` to 2^31
fails the assertion. -/
theorem fileCalls_unsafe :
    twoOpen.table.getFile 9 = none ∧ (twoOpen.seek 9 0).ending = .panicked .nullEntry ∧
      (twoOpen.tell 9).ending = .panicked .nullEntry ∧
      (twoOpen.table.entry ⟨1⟩).isDir = true ∧ (twoOpen.filesize 2).uses = [.file ⟨1⟩] ∧
      (twoOpen.read 2 1).uses = [.file ⟨1⟩] ∧
      (twoOpen.seek 3 2147483648).ending = .panicked .newPos := by
  have hunknown : twoOpen.table.getFile 9 = none := by decide
  have hdir : twoOpen.table.getFile 2 = some ⟨1⟩ := by decide
  have hfile : twoOpen.table.getFile 3 = some ⟨2⟩ := by decide
  have hneg : ¬ 0 ≤ wrap32 (2147483648 : UInt32).toNat := by decide
  refine ⟨hunknown, ?_, ?_, by decide, ?_, ?_, ?_⟩
  · rw [CallState.seek, hunknown]
  · rw [CallState.tell, hunknown]
  · rw [CallState.filesize, hdir]
  · rw [CallState.read, if_neg (by decide), hdir]
  · rw [CallState.seek, hfile]
    dsimp only
    rw [if_neg (by decide), CallState.seekTo, Files.fileSeek, if_neg hneg]

end FileCall

end Pintos.Userprog
