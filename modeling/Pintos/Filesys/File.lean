import Pintos.Filesys.Growth

/-!
# Open files (filesys/file.c)

A `struct file` is a position in an inode that other files may have open too. Files
and inodes are memory reached through pointers.
-/

namespace Pintos.Filesys

open Function

structure InodePtr where
  byte : Nat
  deriving DecidableEq

structure FilePtr where
  byte : Nat
  deriving DecidableEq

/-- `struct file`. A position is never negative: `file_seek` asserts it. -/
structure File where
  inode : InodePtr
  pos : Nat
  denyWrite : Bool

structure Files where
  fs : FileSys
  inode : InodePtr → Inode
  file : FilePtr → File

namespace Files

def setPos (s : Files) (f : FilePtr) (pos : Nat) : Files :=
  { s with file := Function.update s.file f { s.file f with pos := pos } }

def fileGetInode (s : Files) (f : FilePtr) : InodePtr := (s.file f).inode

def fileLength (s : Files) (f : FilePtr) : Int := inodeLength (s.inode (s.file f).inode)

def fileRead (s : Files) (f : FilePtr) (buffer : Nat → UInt8) (size : Int) :
    Nat × (Nat → UInt8) × Files :=
  let (bytesRead, buffer, fs) :=
    inodeReadAt s.fs (s.inode (s.file f).inode) buffer size (s.file f).pos
  (bytesRead, buffer, { s with fs := fs }.setPos f ((s.file f).pos + bytesRead))

def fileWrite (s : Files) (f : FilePtr) (buffer : Nat → UInt8) (size : Int) : Nat × Files :=
  let i := (s.file f).inode
  let (bytesWritten, inode, fs) := inodeWriteAt s.fs (s.inode i) buffer size (s.file f).pos
  (bytesWritten, { s with fs := fs, inode := Function.update s.inode i inode }.setPos f
    ((s.file f).pos + bytesWritten))

/-- `none` if `ASSERT (new_pos >= 0)` fails. -/
def fileSeek (s : Files) (f : FilePtr) (newPos : Int) : Option Files :=
  if 0 ≤ newPos then some (s.setPos f newPos.toNat) else none

def fileTell (s : Files) (f : FilePtr) : Int := (s.file f).pos

def fileAllowWrite (s : Files) (f : FilePtr) : Files :=
  if (s.file f).denyWrite then
    let i := (s.file f).inode
    let inode := s.inode i
    let fs :=
      if 0 < inode.denyWriteCnt ∧ inode.denyWriteCnt ≤ inode.openCnt then s.fs else s.fs.panic
    { fs := fs
      inode := Function.update s.inode i { inode with denyWriteCnt := inode.denyWriteCnt - 1 }
      file := Function.update s.file f { s.file f with denyWrite := false } }
  else s

/-- An inode that nobody has open any more is freed. -/
def fileClose (s : Files) (f : FilePtr) : Files :=
  let s := s.fileAllowWrite f
  let i := (s.file f).inode
  match inodeClose s.fs (s.inode i) with
  | (some inode, fs) => { s with fs := fs, inode := Function.update s.inode i inode }
  | (none, fs) => { s with fs := fs }

end Files

end Pintos.Filesys
