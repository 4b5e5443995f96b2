import Pintos.Filesys.Layout
import Pintos.Userprog.PageDir

/-!
# Arguments of system calls (userprog/syscall.c)

`syscall_handler` reads the number of the call and its arguments from the user's stack
and checks the pointers among them before it calls the function that does the work.
Every byte it accesses on behalf of a user address is logged with the physical byte it
is. `get_kernel_ptr` translates one address; what is accessed through its result lies
behind it in physical memory.
-/

namespace Pintos.Userprog

open Foundation Filesys

/-- Physical memory and the page directory of the running process. -/
structure UserSpace where
  pd : PageDir
  mem : Nat → UInt8

/-- An access to one byte; `none` is a page fault. -/
structure Access where
  user : UInt32
  phys : Option Nat
  deriving DecidableEq

/-- `exit (ERROR)`, or a page fault in the kernel, which panics it. -/
inductive Stop
  | exit
  | fault
  deriving DecidableEq

inductive Ended (α : Type)
  | value (a : α)
  | stopped (s : Stop)
  deriving DecidableEq

/-- A piece of the handler: what it accessed and how it ended. -/
structure Handled (α : Type) where
  accesses : List Access
  ended : Ended α

namespace Handled

def bind {α β : Type} (x : Handled α) (f : α → Handled β) : Handled β :=
  match x.ended with
  | .value a => ⟨x.accesses ++ (f a).accesses, (f a).ended⟩
  | .stopped s => ⟨x.accesses, .stopped s⟩

instance : Monad Handled where
  pure a := ⟨[], .value a⟩
  bind := bind

def exit {α : Type} : Handled α := ⟨[], .stopped .exit⟩

end Handled

namespace UserSpace

def isValidPtr (va : UInt32) : Handled Unit :=
  if isUserVaddr va then pure () else Handled.exit

/-- The result is the physical address behind the kernel address. -/
def getKernelPtr (m : UserSpace) (va : UInt32) : Handled Nat := do
  isValidPtr va
  match m.pd.pagedirGetPage va with
  | some ptr => pure ptr
  | none => Handled.exit

def byteAt (va : UInt32) (k : Nat) : UInt32 := va + UInt32.ofNat k

/-- Accesses `n` bytes through a kernel address that was translated from `va`. -/
def touch (va : UInt32) (ptr n : Nat) : List Access :=
  (List.range n).map fun k => ⟨byteAt va k, some (ptr + k)⟩

def loadNumber (m : UserSpace) (va : UInt32) (ptr : Nat) : Handled UInt32 where
  accesses := touch va ptr 4
  ended := .value (wordOfBytes (m.mem ptr) (m.mem (ptr + 1)) (m.mem (ptr + 2)) (m.mem (ptr + 3)))

/-- What the processor makes of an address in kernel mode. -/
def physOf (m : UserSpace) (va : UInt32) : Option Nat :=
  if isUserVaddr va then m.pd.translate va else some (va.toNat - physBase.toNat)

def loadArg (m : UserSpace) (va : UInt32) : Handled UInt32 where
  accesses := (List.range 4).map fun k => ⟨byteAt va k, m.physOf (byteAt va k)⟩
  ended :=
    match m.physOf (byteAt va 0), m.physOf (byteAt va 1), m.physOf (byteAt va 2),
      m.physOf (byteAt va 3) with
    | some p0, some p1, some p2, some p3 =>
        .value (wordOfBytes (m.mem p0) (m.mem p1) (m.mem p2) (m.mem p3))
    | _, _, _, _ => .stopped .fault

def argPtr (esp : UInt32) (counter : Nat) : UInt32 := byteAt esp (4 * (counter + 1))

def getArg (m : UserSpace) (esp : UInt32) : Nat → Nat → Handled (List UInt32)
  | 0, _ => pure []
  | left + 1, counter => do
      isValidPtr (argPtr esp counter)
      let arg ← m.loadArg (argPtr esp counter)
      let rest ← getArg m esp left (counter + 1)
      pure (arg :: rest)

def loadChar (m : UserSpace) (va : UInt32) (ptr : Nat) : Handled UInt8 :=
  ⟨touch va ptr 1, .value (m.mem ptr)⟩

/-- The loop of `is_valid_string`, with the number of user addresses from `str` on:
there `get_kernel_ptr` exits. -/
def isValidStringLoop (m : UserSpace) : Nat → UInt32 → Handled Unit
  | 0, _ => Handled.exit
  | left + 1, str => do
      let ptr ← m.getKernelPtr str
      let c ← m.loadChar str ptr
      if c ≠ 0 then isValidStringLoop m left (byteAt str 1) else pure ()

def isValidString (m : UserSpace) (str : UInt32) : Handled Unit :=
  m.isValidStringLoop (physBase.toNat - str.toNat) str

/-- The loop of `is_valid_buffer`, which tests addresses and not pages. -/
def isValidBuffer : Nat → UInt32 → Handled Unit
  | 0, _ => pure ()
  | left + 1, buffer => do
      isValidPtr buffer
      isValidBuffer left (byteAt buffer 1)

end UserSpace

inductive SysNo
  | halt | exit | exec | wait | create | remove | openFile | filesize | read | write | seek
  | tell | close | chdir | mkdir | readdir | isdir | inumber
  deriving DecidableEq

/-- The numbers of syscall-nr.h; 13 and 14 are `SYS_MMAP` and `SYS_MUNMAP`. -/
def SysNo.decode : Nat → Option SysNo
  | 0 => some .halt
  | 1 => some .exit
  | 2 => some .exec
  | 3 => some .wait
  | 4 => some .create
  | 5 => some .remove
  | 6 => some .openFile
  | 7 => some .filesize
  | 8 => some .read
  | 9 => some .write
  | 10 => some .seek
  | 11 => some .tell
  | 12 => some .close
  | 15 => some .chdir
  | 16 => some .mkdir
  | 17 => some .readdir
  | 18 => some .isdir
  | 19 => some .inumber
  | _ => none

/-- The third argument of `get_arg`. -/
def SysNo.argNum : SysNo → Nat
  | .halt => 0
  | .exit | .exec | .wait | .remove | .openFile | .filesize | .tell | .close | .chdir
  | .mkdir | .isdir | .inumber => 1
  | .create | .seek | .readdir => 2
  | .read | .write => 3

/-- A user address and what `get_kernel_ptr` made of it. -/
structure Pointer where
  user : UInt32
  ptr : Nat
  deriving DecidableEq

/-- The function that is called, with its arguments. -/
inductive Request
  | halt
  | exit (status : Int)
  | exec (cmdLine : Pointer)
  | wait (pid : Int)
  | create (file : Pointer) (initialSize : UInt32)
  | remove (file : Pointer)
  | openFile (file : Pointer)
  | filesize (fd : Int)
  | read (fd : Int) (buffer : Pointer) (size : UInt32)
  | write (fd : Int) (buffer : Pointer) (size : UInt32)
  | seek (fd : Int) (position : UInt32)
  | tell (fd : Int)
  | close (fd : Int)
  | chdir (dirPath : Pointer)
  | mkdir (dirPath : Pointer)
  | readdir (fd : Int) (dirPath : Pointer)
  | isdir (fd : Int)
  | inumber (fd : Int)
  deriving DecidableEq

/-- The string argument, if the call has one. `readdir` writes to its pointer. -/
def Request.string : Request → Option Pointer
  | .exec s | .create s _ | .remove s | .openFile s | .chdir s | .mkdir s => some s
  | _ => none

/-- The buffer of `read` and `write`, and its size. -/
def Request.buffer : Request → Option (Pointer × Nat)
  | .read _ buffer size | .write _ buffer size => some (buffer, size.toNat)
  | _ => none

namespace UserSpace

/-- `is_valid_string` and `get_kernel_ptr` on the same argument. -/
def stringArg (m : UserSpace) (str : UInt32) : Handled Pointer := do
  m.isValidString str
  let ptr ← m.getKernelPtr str
  pure ⟨str, ptr⟩

/-- `is_valid_buffer` and `get_kernel_ptr` on the same argument. -/
def bufferArg (m : UserSpace) (buffer size : UInt32) : Handled Pointer := do
  isValidBuffer size.toNat buffer
  let ptr ← m.getKernelPtr buffer
  pure ⟨buffer, ptr⟩

/-- What a case of the switch does after `get_arg`. -/
def serve (m : UserSpace) (argv : List UInt32) : SysNo → Handled Request
  | .halt => pure .halt
  | .exit => pure (.exit (int 0))
  | .exec => do return .exec (← m.stringArg (arg 0))
  | .wait => pure (.wait (int 0))
  | .create => do return .create (← m.stringArg (arg 0)) (arg 1)
  | .remove => do return .remove (← m.stringArg (arg 0))
  | .openFile => do return .openFile (← m.stringArg (arg 0))
  | .filesize => pure (.filesize (int 0))
  | .read => do return .read (int 0) (← m.bufferArg (arg 1) (arg 2)) (arg 2)
  | .write => do return .write (int 0) (← m.bufferArg (arg 1) (arg 2)) (arg 2)
  | .seek => pure (.seek (int 0) (arg 1))
  | .tell => pure (.tell (int 0))
  | .close => pure (.close (int 0))
  | .chdir => do return .chdir (← m.stringArg (arg 0))
  | .mkdir => do return .mkdir (← m.stringArg (arg 0))
  | .readdir => do return .readdir (int 0) (← m.stringArg (arg 1))
  | .isdir => pure (.isdir (int 0))
  | .inumber => pure (.inumber (int 0))
where
  arg (k : Nat) : UInt32 := argv.getD k 0
  int (k : Nat) : Int := wrap32 (arg k).toNat

def syscallHandler (m : UserSpace) (esp : UInt32) : Handled Request := do
  let ptr ← m.getKernelPtr esp
  let number ← m.loadNumber esp ptr
  match SysNo.decode number.toNat with
  | none => Handled.exit
  | some no =>
      let argv ← m.getArg esp no.argNum 0
      m.serve argv no

end UserSpace

end Pintos.Userprog
