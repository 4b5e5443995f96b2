import Mathlib
import Pintos.Foundation.PackedWords
import Pintos.Lib.Printf

/-!
# Archive headers (lib/ustar.c, lib/string.c)

A pointer into an array is the part of the array from there to its end, so that a
function that would read past the end has nothing to read and gives `none`. A header is
a sector, and each function is given the bytes of the field it is called on and no
others.
-/

namespace Pintos.Lib

open Foundation

/-- `!memcmp (p, s, size)` for the `size` bytes of `s`. -/
def memcmpEq : List UInt8 → List UInt8 → Option Bool
  | _, [] => some true
  | [], _ :: _ => none
  | a :: p, b :: s => if a = b then memcmpEq p s else some false

def strcmpEq : List UInt8 → List UInt8 → Option Bool
  | a :: p, b :: q => if a ≠ 0 ∧ a = b then strcmpEq p q else some (decide (a = b))
  | _, _ => none

def strchr (c : UInt8) : List UInt8 → Option (Option (List UInt8))
  | [] => none
  | a :: p => if a = c then some (some (a :: p)) else if a = 0 then some none else strchr c p

/-- The string that a pointer points to, without its terminator. -/
def cstr (p : List UInt8) : List UInt8 := p.takeWhile (· ≠ 0)

/-- The loop condition of `strip_antisocial_prefixes`: the name starts with `/`, `./` or
`../`. -/
def antisocial (p : List UInt8) : Option Bool := do
  let c ← p.head?
  if c = 47 then some true
  else if ← memcmpEq p [46, 47] then some true
  else memcmpEq p [46, 46, 47]

/-- The pointer to the string literal `.`. -/
def dotName : List UInt8 := [46, 0]

/-- The loop and the return of `strip_antisocial_prefixes`. -/
def stripLoop : Nat → List UInt8 → Option (List UInt8)
  | 0, _ => none
  | fuel + 1, p => do
      if ← antisocial p then
        match ← strchr 47 p with
        | some q => stripLoop fuel q.tail
        | none => none
      else if p.head? = some 0 then some dotName
      else if ← strcmpEq p [46, 46, 0] then some dotName
      else some p

/-- Each round of the loop drops at least one byte. -/
def stripAntisocialPrefixes (fileName : List UInt8) : Option (List UInt8) :=
  stripLoop fileName.length fileName

abbrev Header := ByteBlock 512

def field (h : Header) (ofs len : Nat) : List UInt8 :=
  (List.range len).map fun k => if hk : ofs + k < 512 then h ⟨ofs + k, hk⟩ else 0

def put (ofs : Nat) (bs : List UInt8) (h : Header) : Header :=
  fun i => if ofs ≤ i.val ∧ i.val < ofs + bs.length then bs.getD (i.val - ofs) 0 else h i

inductive UstarType where
  | regular
  | directory
  | eof
  deriving DecidableEq

/-- The byte in the file format; `eof` is not an official value. -/
def UstarType.byte : UstarType → UInt8
  | .regular => 48
  | .directory => 53
  | .eof => 255

/-- The checksum reads its own field as spaces. -/
def calculateChksum (h : Header) : Nat :=
  ((List.finRange 512).map fun i =>
    if 148 ≤ i.val ∧ i.val < 156 then 32 else (h i).toNat).sum

/-- What `strlcpy (dst, src, size)` stores in `dst`. -/
def strlcpy (src : List UInt8) (size : Nat) : List UInt8 := (cstr src).take (size - 1) ++ [0]

/-- `int` to `unsigned int`, as `%o` takes its argument. -/
def unsignedOf (n : Int) : Nat := (n % 4294967296).toNat

/-- The header of `ustar_make_header` before its checksum; `fileName` is the stripped
name. -/
def fillHeader (fileName : List UInt8) (type : UstarType) (size : Int) : Header :=
  -- `memset` comes first, and the version is written as two bytes.
  put 265 (strlcpy [114, 111, 111, 116, 0] 32)
    (put 297 (strlcpy [114, 111, 111, 116, 0] 32)
      (put 263 [48, 48]
        (put 257 (strlcpy [117, 115, 116, 97, 114, 0] 6)
          (put 156 [type.byte]
            (put 136 (snprintf 12 (octal 11 1136102400))
              (put 124 (snprintf 12 (octal 11 (unsignedOf size)))
                (put 116 (strlcpy [48, 48, 48, 48, 48, 48, 48, 0] 8)
                  (put 108 (strlcpy [48, 48, 48, 48, 48, 48, 48, 0] 8)
                    (put 100 (snprintf 8 (octal 7 (if type = .regular then 0o644 else 0o755)))
                      (put 0 (strlcpy fileName 100) fun _ => 0))))))))))

/-- `ustar_make_header`: the header, or `none` inside for a return of false because the
name is too long. -/
def ustarMakeHeader (fileName : List UInt8) (type : UstarType) (size : Int) :
    Option (Option Header) :=
  match stripAntisocialPrefixes fileName with
  | none => none
  | some fileName =>
      if (cstr fileName).length > 99 then some none
      else
        let h := fillHeader fileName type size
        some (some (put 148 (snprintf 8 (octal 7 (calculateChksum h))) h))

/-- The loop of `parse_octal_field` on the bytes left. The inner `none` is false. -/
def parseOctalLoop : Nat → List UInt8 → Nat → Nat → Option (Option Nat)
  | 0, _, _, _ => some none
  | _ + 1, [], _, _ => none
  | left + 1, c :: s, ofs, value =>
      if 48 ≤ c ∧ c ≤ 55 then
        if value > 4294967295 / 8 then some none
        else parseOctalLoop left s (ofs + 1) ((c.toNat - 48 + value * 8) % 4294967296)
      else if c = 32 ∨ c = 0 then some (if 0 < ofs then some value else none)
      else some none

def parseOctalField (s : List UInt8) (size : Nat) : Option (Option Nat) :=
  parseOctalLoop size s 0 0

def isAllZeros : List UInt8 → Nat → Option Bool
  | _, 0 => some true
  | [], _ + 1 => none
  | b :: block, cnt + 1 => if b ≠ 0 then some false else isAllZeros block cnt

/-- What `ustar_parse_header` stores through its pointers. -/
structure Parsed where
  fileName : Option (List UInt8)
  type : UstarType
  size : Nat
  deriving DecidableEq

def typeOf (typeflag : UInt8) : Option UstarType :=
  if typeflag = UstarType.byte .regular then some .regular
  else if typeflag = UstarType.byte .directory then some .directory
  else none

def parseSize (h : Header) : UstarType → Option (Except String Nat)
  | .regular =>
      match parseOctalField (field h 124 12) 12 with
      | none => none
      | some none => some (.error "corrupt file size field")
      | some (some size) =>
          some (if size > 2147483647 then .error "file too large" else .ok size)
  | _ => some (.ok 0)

/-- The part of `ustar_parse_header` after the checksum. -/
def parseFile (h : Header) : Option (Except String Parsed) :=
  if h 99 ≠ 0 ∨ h 345 ≠ 0 then some (.error "file name too long")
  else
    match typeOf (h 156) with
    | none => some (.error "unimplemented file type")
    | some type =>
        match parseSize h type with
        | none => none
        | some (.error e) => some (.error e)
        | some (.ok size) =>
            match stripAntisocialPrefixes (field h 0 100) with
            | none => none
            | some name => some (.ok ⟨some (cstr name), type, size⟩)

/-- The part of `ustar_parse_header` after the test for the end of the archive. -/
def parseBody (h : Header) : Option (Except String Parsed) :=
  match memcmpEq (field h 257 6) [117, 115, 116, 97, 114, 0] with
  | none => none
  | some false => some (.error "not a ustar archive")
  | some true =>
      if h 263 ≠ 48 ∨ h 264 ≠ 48 then some (.error "invalid ustar version")
      else
        match parseOctalField (field h 148 8) 8 with
        | none => none
        | some none => some (.error "corrupt chksum field")
        | some (some chksum) =>
            if chksum ≠ calculateChksum h then some (.error "checksum mismatch")
            else parseFile h

def ustarParseHeader (h : Header) : Option (Except String Parsed) :=
  match isAllZeros (field h 0 512) 512 with
  | none => none
  | some true => some (.ok ⟨none, .eof, 0⟩)
  | some false => parseBody h

end Pintos.Lib
