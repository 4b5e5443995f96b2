import Pintos.Foundation.PackedWords
import Pintos.Userprog.PageMap

/-!
# Executables (userprog/process.c)

The headers of an ELF file as `load` reads them, with the fields that it uses, and the
arithmetic it does on a program header. All of it is unsigned and of 32 bits. For a
segment that `validate_segment` accepts nothing wraps around.
-/

namespace Pintos.Userprog

open Foundation

/-- An executable; an `off_t` holds its length. -/
structure Executable where
  bytes : List UInt8
  short : bytes.length < 2147483648

def halfAt (bs : List UInt8) (i : Nat) : UInt16 :=
  UInt16.ofNat ((bs.getD i 0).toNat + 256 * (bs.getD (i + 1) 0).toNat)

def fieldAt (bs : List UInt8) (i : Nat) : UInt32 :=
  wordOfBytes (bs.getD i 0) (bs.getD (i + 1) 0) (bs.getD (i + 2) 0) (bs.getD (i + 3) 0)

structure Ehdr where
  ident : List UInt8
  type : UInt16
  machine : UInt16
  version : UInt32
  phoff : UInt32
  phentsize : UInt16
  phnum : UInt16

def Ehdr.ofBytes (bs : List UInt8) : Ehdr where
  ident := bs.take 16
  type := halfAt bs 16
  machine := halfAt bs 18
  version := fieldAt bs 20
  phoff := fieldAt bs 28
  phentsize := halfAt bs 42
  phnum := halfAt bs 44

/-- The checks of `load` on the header; the identification starts with `\177ELF\1\1\1`. -/
def Ehdr.Accepted (e : Ehdr) : Prop :=
  e.ident.take 7 = [0x7f, 0x45, 0x4c, 0x46, 1, 1, 1] ∧ e.type = 2 ∧ e.machine = 3 ∧
    e.version = 1 ∧ e.phentsize = 32 ∧ e.phnum ≤ 1024

instance (e : Ehdr) : Decidable e.Accepted := inferInstanceAs (Decidable (_ ∧ _))

structure Phdr where
  type : UInt32
  offset : UInt32
  vaddr : UInt32
  filesz : UInt32
  memsz : UInt32
  flags : UInt32

def Phdr.ofBytes (bs : List UInt8) : Phdr where
  type := fieldAt bs 0
  offset := fieldAt bs 4
  vaddr := fieldAt bs 8
  filesz := fieldAt bs 16
  memsz := fieldAt bs 20
  flags := fieldAt bs 24

def ptLoad : UInt32 := 1

def ptDynamic : UInt32 := 2

def ptInterp : UInt32 := 3

def ptShlib : UInt32 := 5

def pfW : UInt32 := 2

def pgMask : UInt32 := 0xfff

def roundUp (x : UInt32) : UInt32 := (x + 4096 - 1) / 4096 * 4096

namespace Phdr

def validateSegment (p : Phdr) (fileLength : Nat) : Bool :=
  if p.offset &&& pgMask ≠ p.vaddr &&& pgMask then false
  else if UInt32.ofNat fileLength < p.offset then false
  else if p.memsz < p.filesz then false
  else if p.memsz = 0 then false
  else if ¬ isUserVaddr p.vaddr then false
  else if ¬ isUserVaddr (p.vaddr + p.memsz) then false
  else if p.vaddr + p.memsz < p.vaddr then false
  else if p.vaddr < 4096 then false
  else true

def writable (p : Phdr) : Bool := p.flags &&& pfW ≠ 0

def filePage (p : Phdr) : UInt32 := p.offset &&& ~~~pgMask

def memPage (p : Phdr) : UInt32 := p.vaddr &&& ~~~pgMask

def pageOffset (p : Phdr) : UInt32 := p.vaddr &&& pgMask

def readBytes (p : Phdr) : UInt32 := if p.filesz > 0 then p.pageOffset + p.filesz else 0

def zeroBytes (p : Phdr) : UInt32 :=
  if p.filesz > 0 then roundUp (p.pageOffset + p.memsz) - p.readBytes
  else roundUp (p.pageOffset + p.memsz)

/-- What `validate_segment` makes sure of. -/
structure Valid (p : Phdr) (fileLength : Nat) : Prop where
  offset_mod : p.offset.toNat % 4096 = p.vaddr.toNat % 4096
  offset_le : p.offset.toNat ≤ fileLength
  filesz_le : p.filesz.toNat ≤ p.memsz.toNat
  pos : 0 < p.memsz.toNat
  user : p.vaddr.toNat + p.memsz.toNat < 0xc0000000
  page : 4096 ≤ p.vaddr.toNat

lemma valid_of_validateSegment {p : Phdr} {fileLength : Nat} (hlen : fileLength < 2147483648)
    (h : p.validateSegment fileLength = true) : p.Valid fileLength := by
  have hm := p.memsz.toNat_lt
  have hpage : (4096 : UInt32).toNat = 4096 := rfl
  have hmask : ∀ x : UInt32, (x &&& pgMask).toNat = x.toNat % 4096 := toNat_pgOfs
  unfold validateSegment at h
  split_ifs at h with hofs hoff hsz hpos hstart hend hwrap hzero
  have hmod := congrArg UInt32.toNat (not_not.mp hofs)
  rw [hmask, hmask] at hmod
  rw [UInt32.lt_iff_toNat_lt, UInt32.toNat_ofNat_of_lt' (Nat.lt_trans hlen (by decide))] at hoff
  rw [UInt32.lt_iff_toNat_lt] at hsz
  rw [isUserVaddr_iff] at hstart
  rw [isUserVaddr_iff, UInt32.toNat_add] at hend
  rw [UInt32.lt_iff_toNat_lt, UInt32.toNat_add] at hwrap
  rw [UInt32.lt_iff_toNat_lt, hpage] at hzero
  have hpos' : p.memsz.toNat ≠ 0 := fun h0 => hpos (UInt32.toNat_inj.mp h0)
  exact ⟨hmod, by omega, by omega, by omega, by omega, by omega⟩

lemma toNat_mask (x : UInt32) : (x &&& ~~~pgMask).toNat = x.toNat / 4096 * 4096 := by
  have hmask : ~~~pgMask = pteAddr := by decide
  rw [hmask]
  exact toNat_and_pteAddr x

def firstPage (p : Phdr) : Nat := p.vaddr.toNat / 4096

lemma toNat_memPage (p : Phdr) : p.memPage.toNat = 4096 * p.firstPage := by
  rw [memPage, toNat_mask, firstPage, Nat.mul_comm]

def pages (p : Phdr) : Nat := (p.vaddr.toNat % 4096 + p.memsz.toNat + 4095) / 4096

/-- The bytes of it that come from the file, counted from the start of its first page. -/
def fromFile (p : Phdr) : Nat :=
  if 0 < p.filesz.toNat then p.vaddr.toNat % 4096 + p.filesz.toNat else 0

section Valid

variable {p : Phdr} {fileLength : Nat} (hp : p.Valid fileLength)
include hp

lemma Valid.toNat_readBytes : p.readBytes.toNat = p.fromFile := by
  have huser := hp.user
  have hle := hp.filesz_le
  have hofs : p.pageOffset.toNat = p.vaddr.toNat % 4096 := toNat_pgOfs p.vaddr
  have hpos : p.filesz > 0 ↔ 0 < p.filesz.toNat := UInt32.lt_iff_toNat_lt
  unfold readBytes fromFile
  by_cases hsome : p.filesz > 0
  · rw [if_pos hsome, if_pos (hpos.mp hsome), UInt32.toNat_add, hofs]
    omega
  · rw [if_neg hsome, if_neg (mt hpos.mpr hsome)]
    rfl

lemma Valid.toNat_roundUp : (roundUp (p.pageOffset + p.memsz)).toNat = 4096 * p.pages := by
  have huser := hp.user
  have hofs : p.pageOffset.toNat = p.vaddr.toNat % 4096 := toNat_pgOfs p.vaddr
  have hpage : (4096 : UInt32).toNat = 4096 := rfl
  have hsum : (p.pageOffset + p.memsz).toNat = p.vaddr.toNat % 4096 + p.memsz.toNat := by
    rw [UInt32.toNat_add, hofs]
    omega
  have hup : (p.pageOffset + p.memsz + 4096 - 1).toNat =
      p.vaddr.toNat % 4096 + p.memsz.toNat + 4095 := by
    rw [UInt32.toNat_sub, UInt32.toNat_add, hsum, hpage]
    have hone : (1 : UInt32).toNat = 1 := rfl
    omega
  unfold roundUp pages
  rw [UInt32.toNat_mul, UInt32.toNat_div, hup, hpage]
  omega

lemma Valid.fromFile_le : p.fromFile ≤ 4096 * p.pages := by
  have hle := hp.filesz_le
  unfold fromFile pages
  split <;> omega

/-- The two counters that `load_segment` is called with add up to whole pages. -/
lemma Valid.toNat_zeroBytes : p.readBytes.toNat + p.zeroBytes.toNat = 4096 * p.pages := by
  have hround := hp.toNat_roundUp
  have hread := hp.toNat_readBytes
  have hle := hp.fromFile_le
  unfold zeroBytes
  split
  · rw [UInt32.toNat_sub_of_le _ _ (UInt32.le_iff_toNat_le.mpr (by omega)), hround]
    omega
  · next hzero =>
    have hnone : p.readBytes.toNat = 0 := by
      unfold readBytes
      rw [if_neg hzero]
      rfl
    rw [hround, hnone, Nat.zero_add]

lemma Valid.pages_bound : 1 ≤ p.firstPage ∧ p.firstPage + p.pages ≤ 786432 := by
  have huser := hp.user
  have hpage := hp.page
  unfold firstPage pages
  omega

lemma Valid.filePage_add (x : Nat) :
    p.filePage.toNat + (p.vaddr.toNat % 4096 + x) = p.offset.toNat + x := by
  have hmod := hp.offset_mod
  rw [filePage, toNat_mask]
  omega

end Valid

/-- Page `n` has an address of the segment. -/
def Overlaps (p : Phdr) (n : Nat) : Prop :=
  4096 * n < p.vaddr.toNat + p.memsz.toNat ∧ p.vaddr.toNat < 4096 * (n + 1)

lemma overlaps_iff (p : Phdr) (n : Nat) :
    p.Overlaps n ↔ p.firstPage ≤ n ∧ n < p.firstPage + p.pages := by
  unfold Overlaps firstPage pages
  omega

/-- Byte `i` of the segment, as the file describes it. -/
def Describes (p : Phdr) (file : Executable) (i : Nat) (b : UInt8) : Prop :=
  if i < p.filesz.toNat then file.bytes[p.offset.toNat + i]? = some b else b = 0

end Phdr

end Pintos.Userprog
