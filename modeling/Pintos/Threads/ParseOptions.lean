import Pintos.Devices.Rtc
import Pintos.Lib.Atoi
import Pintos.Lib.Random

/-!
# Options of the kernel command line (threads/init.c)

`parse_options` for a kernel with `USERPROG` and `FILESYS` but without `VM`. A word is the bytes
of a string without its terminator, `none` a kernel that stops: it prints its usage, panics,
fails an assertion or overflows an `int` in `atoi`.
-/

namespace Pintos.Threads

open Lib Devices

inductive ShutdownType
  | none | powerOff | reboot

/-- What the options set. A block device without a name is the first of its type. -/
structure BootOptions where
  how : ShutdownType
  formatFilesys : Bool
  filesysBdevName : Option (List UInt8)
  scratchBdevName : Option (List UInt8)
  threadMlfqs : Bool
  userPageLimit : UInt32
  random : Random

/-- The string at an address, or its first `n` bytes. -/
def stringFrom (mem : Bytes) (p n : Nat) : List UInt8 :=
  ((List.range n).map fun k => mem (p + k)).takeWhile fun byte => byte ≠ 0

/-- The name and the value of an option, by two calls of `strtok_r`. -/
def splitOption (word : List UInt8) : Option (List UInt8 × Option (List UInt8)) :=
  let fuel := word.length + 1
  (strtokR [61] fuel (fun p => word.getD p 0) (some 0) 0).bind fun (name, mem, savePtr) =>
    (strtokR [] fuel mem none savePtr).bind fun (value, mem, _) =>
      name.map fun name => (stringFrom mem name fuel, value.map fun p => stringFrom mem p fuel)

def parseOption (o : BootOptions) (word : List UInt8) : Option BootOptions :=
  (splitOption word).bind fun (name, value) =>
    match name with
    | [45, 104] => none -- -h
    | [45, 113] => some { o with how := .powerOff } -- -q
    | [45, 114] => some { o with how := .reboot } -- -r
    | [45, 102] => some { o with formatFilesys := true } -- -f
    | [45, 102, 105, 108, 101, 115, 121, 115] => -- -filesys
        some { o with filesysBdevName := value }
    | [45, 115, 99, 114, 97, 116, 99, 104] => -- -scratch
        some { o with scratchBdevName := value }
    | [45, 114, 115] => -- -rs
        (value.bind atoi).map fun seed => { o with random := randomInit (UInt32.ofInt seed) }
    | [45, 109, 108, 102, 113, 115] => some { o with threadMlfqs := true } -- -mlfqs
    | [45, 117, 108] => -- -ul
        (value.bind atoi).map fun limit => { o with userPageLimit := UInt32.ofInt limit }
    | _ => none

/-- The loop over the options, which stops at the first word that is none. -/
def parseWords : List (List UInt8) → BootOptions → Option (BootOptions × List (List UInt8))
  | [], o => some (o, [])
  | word :: argv, o =>
      if word.head? = some 45 then (parseOption o word).bind (parseWords argv)
      else some (o, word :: argv)

/-- `parse_options`, where `rtc_get_time` returns `time`. -/
def parseOptions (time : UInt32) (argv : List (List UInt8)) (o : BootOptions) :
    Option (BootOptions × List (List UInt8)) :=
  (parseWords argv o).map fun (o, argv) => ({ o with random := randomInit time }, argv)

lemma random_of_parseOptions {time : UInt32} {argv rest : List (List UInt8)}
    {o o' : BootOptions} (h : parseOptions time argv o = some (o', rest)) :
    o'.random = randomInit time := by
  obtain ⟨⟨_, _⟩, -, hset⟩ := Option.map_eq_some_iff.mp h
  cases hset
  rfl

def bootDefaults : BootOptions where
  how := .none
  formatFilesys := false
  filesysBdevName := none
  scratchBdevName := none
  threadMlfqs := false
  userPageLimit := 4294967295
  random := ⟨Vector.replicate 256 0, 0, 0, false⟩

def seedSeven : List UInt8 := [45, 114, 115, 61, 55]

/-- A clock that stands at the first minute of 1970. -/
def firstMinute (sec : UInt8) : Cmos := fun _ reg =>
  if reg = rtcRegSec then sec
  else if reg = rtcRegMday ∨ reg = rtcRegMon then 1
  else if reg = rtcRegYear then 0x70
  else 0

lemma firstByte_first : (randomInit 2678400).results [.bytes 1] = [.inl [250]] := by
  rw [results_firstCode]
  decide +kernel

lemma firstByte_second : (randomInit 2678401).results [.bytes 1] = [.inl [57]] := by
  rw [results_firstCode]
  decide +kernel

end Pintos.Threads
