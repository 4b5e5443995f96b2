import Pintos.Filesys.Content
import Pintos.Filesys.File
import Pintos.Userprog.Elf
import Pintos.Userprog.PageTables

/-!
# Loading an executable (userprog/process.c)

`load` from the first read of the executable to the last segment, before the stack is set
up. Frames for file contents and pages for page tables both come from the page allocator,
which never gives a page twice, so that the bytes of the frames stand apart from the words
of the tables. The loop over the pages of a segment counts in 32 bits and is bounded here
by `fuel`.
-/

namespace Pintos.Userprog

open Filesys

/-- The calls of interest; `mapped` is the state of a user page then, and `advance` the end of a
round of the page loop. -/
inductive Call
  | fileSeek (newPos : Int)
  | loadSegment (ofs : Int) (upage readBytes zeroBytes : UInt32)
  | installPage (upage : UInt32) (mapped : Bool)
  | pagedirSetPage (upage : UInt32) (mapped : Bool)
  | advance (readBytes zeroBytes pageReadBytes pageZeroBytes : UInt32)
  deriving DecidableEq

/-- The executable with its position, the pages and bytes, and the calls, the last one first. -/
structure Loader where
  file : Executable
  pos : Nat
  paging : Paging
  byte : Nat → UInt8
  calls : List Call

namespace Loader

variable {s : Loader}

def call (s : Loader) (c : Call) : Loader := { s with calls := c :: s.calls }

def ensure (s : Loader) (c : Prop) [Decidable c] : Loader :=
  { s with paging := s.paging.ensure c }

def fileSeek (s : Loader) (newPos : Int) : Loader :=
  { (s.call (.fileSeek newPos)).ensure (0 ≤ newPos) with pos := newPos.toNat }

def fileRead (s : Loader) (size : Nat) : List UInt8 × Loader :=
  let bytes := (s.file.bytes.drop s.pos).take size
  (bytes, { s with pos := s.pos + bytes.length })

/-- On a file of a volume in order this is what `file_read` does. -/
lemma fileRead_eq {ι : Type} {files : ι → Inode} {t : Files} (hv : VolumeOk t.fs files)
    (hm : t.fs.mallocOk = true) {i : ι} {f : FilePtr} (hf : t.inode (t.file f).inode = files i)
    (hbytes : s.file.bytes = content t.fs (files i)) (hpos : s.pos = (t.file f).pos)
    (buffer : Nat → UInt8) (size : Nat) :
    ∃ count buffer' t', t.fileRead f buffer size = (count, buffer', t') ∧
      (List.range count).map buffer' = (s.fileRead size).1 ∧
      (t'.file f).pos = (s.fileRead size).2.pos ∧ t'.fs = t.fs := by
  rcases hv.inodeReadAt_spec hm i buffer size (t.file f).pos with
    ⟨count, buffer', hread, -, hcontent, -⟩
  have hlen := congrArg List.length hcontent
  rw [List.length_map, List.length_range] at hlen
  refine ⟨count, buffer', t.setPos f ((t.file f).pos + count), ?_, ?_, ?_, rfl⟩
  · unfold Files.fileRead
    rw [hf, hread]
  · rw [hcontent, fileRead, hbytes, hpos]
    rfl
  · rw [fileRead, hbytes, hpos]
    dsimp only [Files.setPos]
    rw [Function.update_self]
    exact congrArg ((t.file f).pos + ·) hlen

def store (s : Loader) (a : Nat) (bytes : List UInt8) : Loader :=
  { s with
    byte := fun p =>
      if a ≤ p ∧ p < a + bytes.length then bytes.getD (p - a) 0 else s.byte p }

def zero (s : Loader) (a size : Nat) : Loader :=
  { s with byte := fun p => if a ≤ p ∧ p < a + size then 0 else s.byte p }

def mapped (s : Loader) (upage : UInt32) : Bool :=
  (s.paging.pd.mapping (upage.toNat / 4096)).isSome

def installPage (s : Loader) (upage : UInt32) (kpage : Nat) (writable : Bool) : Bool × Loader :=
  let s := s.call (.installPage upage (s.mapped upage))
  let (page, paging) := s.paging.pagedirGetPage upage
  let s := { s with paging := paging }
  if page = none then
    let s := s.call (.pagedirSetPage upage (s.mapped upage))
    let (success, paging) := s.paging.pagedirSetPage upage kpage writable
    (success, { s with paging := paging })
  else (false, s)

def pallocFreePage (s : Loader) (page : Nat) : Loader :=
  { s with paging := s.paging.pallocFreePage page }

/-- The rest of a round of the loop in `load_segment` after the read, up to the counters. -/
def fillPage (s : Loader) (kpage : Nat) (bytes : List UInt8)
    (upage pageReadBytes pageZeroBytes : UInt32) (writable : Bool) : Bool × Loader :=
  let s := s.store kpage bytes
  if bytes.length ≠ pageReadBytes.toNat then (false, s.pallocFreePage kpage)
  else
    let s := s.zero (kpage + pageReadBytes.toNat) pageZeroBytes.toNat
    let (success, s) := s.installPage upage kpage writable
    if success then (true, s) else (false, s.pallocFreePage kpage)

def loadPage (s : Loader) (upage pageReadBytes pageZeroBytes : UInt32) (writable : Bool) :
    Bool × Loader :=
  let (page, paging) := s.paging.pallocGetPage
  let s := { s with paging := paging }
  match page with
  | none => (false, s)
  | some kpage =>
      let (bytes, s) := s.fileRead pageReadBytes.toNat
      s.fillPage kpage bytes upage pageReadBytes pageZeroBytes writable

def loadPages (writable : Bool) : Nat → Loader → UInt32 → UInt32 → UInt32 → Option (Bool × Loader)
  | 0, _, _, _, _ => none
  | fuel + 1, s, upage, readBytes, zeroBytes =>
      if readBytes > 0 ∨ zeroBytes > 0 then
        let pageReadBytes := if readBytes < 4096 then readBytes else 4096
        let pageZeroBytes := 4096 - pageReadBytes
        let (success, s) := s.loadPage upage pageReadBytes pageZeroBytes writable
        if success then
          loadPages writable fuel
            (s.call (.advance readBytes zeroBytes pageReadBytes pageZeroBytes)) (upage + 4096)
            (readBytes - pageReadBytes) (zeroBytes - pageZeroBytes)
        else some (false, s)
      else some (true, s)

def loadSegment (fuel : Nat) (s : Loader) (ofs : Int) (upage readBytes zeroBytes : UInt32)
    (writable : Bool) : Option (Bool × Loader) :=
  let s := s.call (.loadSegment ofs upage readBytes zeroBytes)
  let s := s.ensure ((readBytes + zeroBytes) % 4096 = 0)
  let s := s.ensure (pgOfs upage = 0)
  let s := s.ensure (ofs.tmod 4096 = 0)
  loadPages writable fuel (s.fileSeek ofs) upage readBytes zeroBytes

def offT (w : UInt32) : Int := wrap32 w.toNat

/-- The `switch` of `load` on a program header; `false` is `goto done`. -/
def loadHeader (fuel : Nat) (s : Loader) (phdr : Phdr) : Option (Bool × Loader) :=
  if phdr.type = ptDynamic ∨ phdr.type = ptInterp ∨ phdr.type = ptShlib then some (false, s)
  else if phdr.type = ptLoad then
    if phdr.validateSegment s.file.bytes.length then
      loadSegment fuel s (offT phdr.filePage) phdr.memPage phdr.readBytes phdr.zeroBytes
        phdr.writable
    else some (false, s)
  else some (true, s)

/-- The loop of `load` over `n` program headers from `fileOfs` on. -/
def loadHeaders (fuel : Nat) : Nat → Loader → Int → Option (Bool × Loader)
  | 0, s, _ => some (true, s)
  | n + 1, s, fileOfs =>
      if fileOfs < 0 ∨ fileOfs > s.file.bytes.length then some (false, s)
      else
        let (bytes, s) := (s.fileSeek fileOfs).fileRead 32
        if bytes.length ≠ 32 then some (false, s)
        else
          match loadHeader fuel s (Phdr.ofBytes bytes) with
          | none => none
          | some (success, s) =>
              if success then loadHeaders fuel n s (wrap32 (fileOfs + 32)) else some (false, s)

lemma loadHeaders_succ (fuel n : Nat) {s : Loader} {fileOfs : Int}
    (hrange : ¬ (fileOfs < 0 ∨ fileOfs > s.file.bytes.length)) :
    loadHeaders fuel (n + 1) s fileOfs =
      if ((s.fileSeek fileOfs).fileRead 32).1.length ≠ 32 then
        some (false, ((s.fileSeek fileOfs).fileRead 32).2)
      else
        match loadHeader fuel ((s.fileSeek fileOfs).fileRead 32).2
          (Phdr.ofBytes ((s.fileSeek fileOfs).fileRead 32).1) with
        | none => none
        | some (success, s) =>
          if success then loadHeaders fuel n s (wrap32 (fileOfs + 32)) else some (false, s) :=
  if_neg hrange

def ehdr (file : Executable) : Ehdr := Ehdr.ofBytes (file.bytes.take 52)

def load (fuel : Nat) (s : Loader) : Option (Bool × Loader) :=
  let (bytes, s) := s.fileRead 52
  let ehdr := Ehdr.ofBytes bytes
  if bytes.length ≠ 52 ∨ ¬ ehdr.Accepted then some (false, s)
  else loadHeaders fuel ehdr.phnum.toNat s (offT ehdr.phoff)

/-- The process before `load` reads: a new directory, and free kernel pages, or none. -/
structure Ready (s : Loader) : Prop where
  pos : s.pos = 0
  calls : s.calls = []
  intact : s.paging.panicked = false
  aligned : s.paging.pd.base % 4096 = 0
  ownDir : s.paging.pd.base ≠ s.paging.initPageDir
  empty : ∀ i < 768, s.paging.pd.pdeAt i = 0
  supply : ∀ p, some p ∈ s.paging.answers → s.paging.InRam p ∧ p ≠ s.paging.pd.base
  once : s.paging.answers.Pairwise fun a b => ∀ p, a = some p → b ≠ some p

end Loader

end Pintos.Userprog
