import Pintos.Userprog.FileCalls
import Pintos.Userprog.Load
import Pintos.Userprog.PageDirDestroy
import Pintos.Userprog.UserAccess

/-!
# `read` and read-only pages (userprog/syscall.c, userprog/process.c)

`install_page` maps pages writable or read-only, and the processor stops user code from
writing to the latter. The kernel writes what `read` delivers through its own mapping of
memory, where all of it is writable, after checks that do not look at the writable bit.
-/

namespace Pintos.Userprog

open Foundation Filesys UserSpace

structure Install where
  upage : UInt32
  kpage : Nat
  writable : Bool

/-- A user page, and a page of the page allocator. -/
def Install.Allowed (s : Loader) (i : Install) : Prop :=
  pgOfs i.upage = 0 ∧ isUserVaddr i.upage = true ∧ s.paging.InRam i.kpage

instance (s : Loader) (i : Install) : Decidable (i.Allowed s) :=
  inferInstanceAs (Decidable (_ ∧ _ ∧ _ ∧ _ ∧ _))

/-- Pages are installed in a new directory, and those for which `install_page` has succeeded
are kept beside it. -/
def installMachine (init : PageDir) : Machine (Loader × UserMap) Install where
  start s := Created init s.1.paging ∧ s.2 = fun _ => none
  step s i :=
    if i.Allowed s.1 then
      let r := s.1.installPage i.upage i.kpage i.writable
      some (r.2, (PdOp.set i.upage i.kpage i.writable).act s.2 r.1)
    else none

lemma installMachine_step {init : PageDir} {s : Loader} {M : UserMap} {i : Install} {b : Bool}
    (hi : i.Allowed s) (hb : (s.installPage i.upage i.kpage i.writable).1 = b) :
    (installMachine init).step (s, M) i =
      some ((s.installPage i.upage i.kpage i.writable).2,
        (PdOp.set i.upage i.kpage i.writable).act M b) := by
  rw [← hb]
  exact if_pos hi

lemma Stands.installPage {s : Loader} {M : UserMap} (h : Stands s.paging M) {i : Install}
    (hi : i.Allowed s) :
    Stands (s.installPage i.upage i.kpage i.writable).2.paging
      ((PdOp.set i.upage i.kpage i.writable).act M
        (s.installPage i.upage i.kpage i.writable).1) := by
  obtain ⟨haligned, huser, hram⟩ := hi
  have hget := h.tables.pagedirGetPage huser
  have hpage := h.mapping _ (Paging.user_page_lt huser)
  rw [hpage] at hget
  unfold Loader.installPage
  dsimp only [Loader.call]
  rw [hget]
  dsimp only
  cases hM : M (i.upage.toNat / 4096) with
  | some e => exact h
  | none =>
    have hop : (PdOp.set i.upage i.kpage i.writable).Allowed s.paging M :=
      ⟨haligned, huser, hram, hM⟩
    exact (h.run hop).1

lemma stands_of_installed {init : PageDir} {s : Loader × UserMap}
    (h : (installMachine init).Reachable s) : Stands s.1.paging s.2 := by
  refine h.invariant (I := fun s => Stands s.1.paging s.2) ?_ ?_
  · rintro ⟨s, M⟩ ⟨hc, hM⟩
    dsimp only at hc hM
    subst hM
    exact hc.stands
  · intro s i s' hs hstep
    unfold installMachine at hstep
    dsimp only at hstep
    split at hstep
    next hi =>
      cases hstep
      exact hs.installPage hi
    next => cases hstep

/-- A byte of a page that was installed read-only. -/
def ReadOnlyByte (M : UserMap) (p : Nat) : Prop :=
  ∃ n < 786432, ∃ f, M n = some (f, false) ∧ f ≤ p ∧ p < f + 4096

/-- Which bytes `file_read` stores, and how many, does not depend on the buffer. -/
lemma fileRead_stores (t : Files) (f : FilePtr) (size : Int) :
    ∃ count src t', ∀ buffer, t.fileRead f buffer size =
      (count, copyRange buffer 0 src count, t') := by
  obtain ⟨count, src, fs, -, hread⟩ := inodeReadLoop_stores (t.inode (t.file f).inode)
    size.toNat t.fs size (t.file f).pos 0
  refine ⟨count, src, { t with fs := fs }.setPos f ((t.file f).pos + count), fun buffer => ?_⟩
  have hloop := hread buffer
  dsimp only at hloop
  rw [Files.fileRead, inodeReadAt, hloop, Nat.zero_add]

namespace CallState

/-- How many bytes `read` stores in the buffer, and which. -/
def delivers (c : CallState) (fd : Int) (size : UInt32) : Nat × (Nat → UInt8) :=
  if fd = stdinFileno then (size.toNat, fun i => c.console.input (c.console.taken + i))
  else
    match c.table.getFile fd with
    | none => (0, fun _ => 0)
    | some a =>
        let out := c.files.fileRead (c.table.entry a).file (fun _ => 0) (wrap32 size.toNat)
        (out.1, out.2.1)

lemma read_delivers (c : CallState) (fd : Int) (size : UInt32) :
    ∃ v c', (c.read fd size).ending = .returned v c' ∧
      c'.buffer = copyRange c.buffer 0 (c.delivers fd size).2 (c.delivers fd size).1 := by
  by_cases hfd : fd = stdinFileno
  · simp only [CallState.read, delivers, if_pos hfd]
    refine ⟨_, _, rfl, ?_⟩
    funext i
    simp [readKeys, copyRange]
  · cases ha : c.table.getFile fd with
    | none =>
      simp only [CallState.read, delivers, if_neg hfd, ha, copyRange_zero]
      exact ⟨_, _, rfl, rfl⟩
    | some a =>
      obtain ⟨count, src, files, hread⟩ :=
        fileRead_stores c.files (c.table.entry a).file (wrap32 size.toNat)
      simp only [CallState.read, delivers, if_neg hfd, ha, hread]
      refine ⟨_, _, rfl, copyRange_congr fun j hj => ?_⟩
      exact (if_pos ⟨Nat.zero_le j, by omega⟩).symm

end CallState

/-! ## The system call -/

namespace UserSpace

/-- Memory after `read`: the buffer is what is behind the address of `get_kernel_ptr`. -/
def afterRead (m : UserSpace) (c : CallState) (esp : UInt32) : Nat → UInt8 :=
  match (m.syscallHandler esp).ended with
  | .value (.read fd buffer size) =>
      match ({ c with buffer := fun i => m.mem (buffer.ptr + i) }.read fd size).ending with
      | .returned _ c => fun p => if buffer.ptr ≤ p then c.buffer (p - buffer.ptr) else m.mem p
      | .panicked _ => m.mem
  | _ => m.mem

variable {m : UserSpace} {esp : UInt32} {fd : Int} {buffer : Pointer} {size : UInt32}

lemma afterRead_eq (h : (m.syscallHandler esp).ended = .value (.read fd buffer size))
    (c : CallState) (p : Nat) :
    m.afterRead c esp p =
      if buffer.ptr ≤ p ∧ p < buffer.ptr + (c.delivers fd size).1 then
        (c.delivers fd size).2 (p - buffer.ptr)
      else m.mem p := by
  obtain ⟨v, c', hread, hbuffer⟩ :=
    { c with buffer := fun i => m.mem (buffer.ptr + i) }.read_delivers fd size
  have hsame : { c with buffer := fun i => m.mem (buffer.ptr + i) }.delivers fd size =
      c.delivers fd size := by
    simp only [CallState.delivers]
  rw [hsame] at hbuffer
  unfold afterRead
  rw [h]
  dsimp only
  rw [hread]
  dsimp only
  rw [hbuffer, copyRange]
  dsimp only
  by_cases hle : buffer.ptr ≤ p
  · rw [if_pos hle, Nat.sub_zero, Nat.add_sub_cancel' hle]
    by_cases hlt : p < buffer.ptr + (c.delivers fd size).1
    · rw [if_pos (by omega), if_pos (by omega)]
    · rw [if_neg (by omega), if_neg (by omega)]
  · rw [if_neg hle, if_neg (by omega)]

lemma user_serve {argv : List UInt32} {no : SysNo} {r : Request}
    (h : (m.serve argv no).ended = .value r) {p : Pointer} {n : Nat}
    (hp : r.buffer = some (p, n)) : isUserVaddr p.user = true := by
  cases no with
  | read | write =>
    rcases Handled.bind_value.mp h with ⟨q, hq, hr⟩
    cases hr
    cases hp
    rw [bufferArg] at hq
    simp only [Handled.bind_value, getKernelPtr_value, Handled.pure_ended, Ended.value.injEq] at hq
    rcases hq with ⟨_, _, ptr, ⟨huser, -⟩, rfl⟩
    exact huser
  | exec | create | remove | openFile | chdir | mkdir | readdir =>
    rcases Handled.bind_value.mp h with ⟨q, -, hr⟩
    cases hr
    cases hp
  | halt | exit | wait | filesize | seek | tell | close | isdir | inumber =>
    cases h
    cases hp

lemma read_buffer (h : (m.syscallHandler esp).ended = .value (.read fd buffer size)) :
    isUserVaddr buffer.user = true ∧ m.pd.translate buffer.user = some buffer.ptr := by
  obtain ⟨argv, no, hserve⟩ := serve_of_syscallHandler h
  exact ⟨user_serve hserve rfl, (translated_syscallHandler h).2 buffer size.toNat rfl⟩

end UserSpace

def bareLoader : Loader := ⟨⟨[], by decide⟩, 0, barePaging, fun _ => 0, []⟩

/-- A process with a writable page at `0x8048000` and a read-only one behind it. -/
def mixedLoader : Loader :=
  ((bareLoader.installPage 0x8048000 0x103000 true).2.installPage 0x8049000 0x104000 false).2

def mixedPages : UserMap := Function.update onePage 0x8049 (some (0x104000, false))

lemma mixedLoader_reachable : (installMachine bareDir).Reachable (mixedLoader, mixedPages) := by
  have hbare : (installMachine bareDir).Reachable (bareLoader, fun _ => none) :=
    .start ⟨barePaging_created, rfl⟩
  have hone := hbare.step (installMachine_step (i := ⟨0x8048000, 0x103000, true⟩)
    (by decide +kernel) (by decide +kernel : _ = true))
  exact hone.step (installMachine_step (i := ⟨0x8049000, 0x104000, false⟩)
    (by decide +kernel) (by decide +kernel : _ = true))

lemma readOnlyByte_mixedPages {p : Nat} (h : ReadOnlyByte mixedPages p) : 0x104000 ≤ p := by
  obtain ⟨n, -, f, hM, hle, -⟩ := h
  rw [mixedPages, Function.update_apply] at hM
  split at hM
  next =>
    cases hM
    exact hle
  next => cases (onePage_eq_some hM).2

/-- The arguments of `read` at `0x103000`: the keyboard, a buffer and the size 4. -/
def readArguments (second : UInt8) : Nat → UInt8 := fun p =>
  if p = 0x103000 then 8 else if p = 0x103009 then second else if p = 0x10300a then 0x04
  else if p = 0x10300b then 0x08 else if p = 0x10300c then 4 else 0

end Pintos.Userprog
