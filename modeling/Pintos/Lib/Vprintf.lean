import Mathlib.Data.List.GetD
import Mathlib.Data.Stream.Defs
import Pintos.Lib.Printf
import Pintos.Lib.Strtok

/-!
# Conversion specifications (lib/stdio.c)

`__vprintf` with `parse_conversion`. A format is the bytes of a string without its terminator,
the variable arguments are the 32-bit words on the stack. Arithmetic on `int` and `intmax_t`
wraps around, as the processor's does. `none` is a format that ends within a conversion, after
which the loop reads past the terminator, or the width `INT_MIN`, which has no absolute value.
-/

namespace Pintos.Lib

open List Nat

def baseD : IntegerBase := ⟨10, [48, 49, 50, 51, 52, 53, 54, 55, 56, 57], 0, 3⟩

def baseLowerX : IntegerBase :=
  ⟨16, [48, 49, 50, 51, 52, 53, 54, 55, 56, 57, 97, 98, 99, 100, 101, 102], 120, 4⟩

def baseUpperX : IntegerBase :=
  ⟨16, [48, 49, 50, 51, 52, 53, 54, 55, 56, 57, 65, 66, 67, 68, 69, 70], 88, 4⟩

inductive ArgType
  | char | short | int | intmax | long | longlong | ptrdifft | sizet

abbrev VaList := Stream' (BitVec 32)

inductive Flag
  | minus | plus | space | pound | zero | group
  deriving DecidableEq

def Flag.char : Flag → UInt8
  | minus => 45
  | plus => 43
  | space => 32
  | pound => 35
  | zero => 48
  | group => 39

def Flag.ofChar (ch : UInt8) : Option Flag :=
  [minus, plus, space, pound, zero, group].find? fun f => f.char = ch

def Conversion.set (c : Conversion) : Flag → Conversion
  | .minus => { c with minus := true }
  | .plus => { c with plus := true }
  | .space => { c with space := true }
  | .pound => { c with pound := true }
  | .zero => { c with zero := true }
  | .group => { c with group := true }

def parseFlags : List UInt8 → Conversion → Conversion × List UInt8
  | [], c => (c, [])
  | ch :: format, c =>
      match Flag.ofChar ch with
      | some f => parseFlags format (c.set f)
      | none => (c, ch :: format)

/-- The two flags that others override, after the label `not_a_flag`. -/
def Conversion.override (c : Conversion) : Conversion :=
  { c with zero := c.zero && !c.minus, space := c.space && !c.plus }

def isdigit (ch : UInt8) : Bool := decide (48 ≤ ch) && decide (ch ≤ 57)

def parseDigits : List UInt8 → BitVec 32 → BitVec 32 × List UInt8
  | [], n => (n, [])
  | ch :: format, n =>
      if isdigit ch then parseDigits format (n * 10 + ch.toBitVec.setWidth 32 - 48)
      else (n, ch :: format)

/-- A width or a precision: `*` or digits. -/
def parseAmount (format : List UInt8) (args : VaList) : BitVec 32 × List UInt8 × VaList :=
  match format with
  | 42 :: format => (args.head, format, args.tail)
  | format => ((parseDigits format 0).1, (parseDigits format 0).2, args)

def parseWidth (c : Conversion) (format : List UInt8) (args : VaList) :
    Option (Conversion × List UInt8 × VaList) :=
  let (width, format, args) := parseAmount format args
  if width.toInt = -2147483648 then none
  else if width.toInt < 0 then
    some ({ c with width := (-width).toNat, minus := true }, format, args)
  else some ({ c with width := width.toNat }, format, args)

def parsePrecision (c : Conversion) (format : List UInt8) (args : VaList) :
    Conversion × List UInt8 × VaList :=
  match format with
  | 46 :: format =>
      let (precision, format, args) := parseAmount format args
      if precision.toInt < 0 then (c, format, args)
      else ({ c with precision := some precision.toNat, zero := false }, format, args)
  | format => (c, format, args)

def parseType : List UInt8 → ArgType × List UInt8
  | 104 :: 104 :: format => (.char, format)
  | 104 :: format => (.short, format)
  | 106 :: format => (.intmax, format)
  | 108 :: 108 :: format => (.longlong, format)
  | 108 :: format => (.long, format)
  | 116 :: format => (.ptrdifft, format)
  | 122 :: format => (.sizet, format)
  | format => (.int, format)

def parseConversion (format : List UInt8) (args : VaList) :
    Option (Conversion × ArgType × List UInt8 × VaList) :=
  let (c, format) := parseFlags format {}
  (parseWidth c.override format args).map fun (c, format, args) =>
    let (c, format, args) := parsePrecision c format args
    let (type, format) := parseType format
    (c, type, format, args)

/-- The argument of a signed conversion. A 64-bit argument has its low word first. -/
def vaSigned (type : ArgType) (args : VaList) : BitVec 64 × VaList :=
  match type with
  | .char => ((args.head.setWidth 8).signExtend 64, args.tail)
  | .short => ((args.head.setWidth 16).signExtend 64, args.tail)
  | .int | .long | .ptrdifft => (args.head.signExtend 64, args.tail)
  | .intmax | .longlong => (args.tail.head ++ args.head, args.tail.tail)
  | .sizet =>
      let value := args.head.setWidth 64
      (if value.toInt > 4294967295 / 2 then value - 4294967295 - 1 else value, args.tail)

def vaUnsigned (type : ArgType) (args : VaList) : BitVec 64 × VaList :=
  match type with
  | .char => ((args.head.setWidth 8).setWidth 64, args.tail)
  | .short => ((args.head.setWidth 16).setWidth 64, args.tail)
  | .int | .long | .sizet => (args.head.setWidth 64, args.tail)
  | .intmax | .longlong => (args.tail.head ++ args.head, args.tail.tail)
  | .ptrdifft => (args.head.signExtend 64 &&& (2147483647 <<< 1 ||| 1), args.tail)

def unsignedBase (conv : UInt8) : Option IntegerBase :=
  match conv with
  | 111 => some baseO
  | 117 => some baseD
  | 120 => some baseLowerX
  | 88 => some baseUpperX
  | _ => none

def strnlen (mem : Bytes) (string : Nat) : Nat → Nat
  | 0 => 0
  | maxlen + 1 => if mem string = 0 then 0 else strnlen mem (string + 1) maxlen + 1

def formatString (string : List UInt8) (c : Conversion) : List UInt8 :=
  let pad := List.replicate (c.width - string.length) 32
  (if c.minus then [] else pad) ++ string ++ (if c.minus then pad else [])

/-- `<<no %c in kernel>>` and `<<no %c conversion>>` -/
def noConversion (conv : UInt8) : List UInt8 :=
  [60, 60, 110, 111, 32, 37, conv, 32] ++
    (if conv ∈ [102, 101, 69, 103, 71, 110] then [105, 110, 32, 107, 101, 114, 110, 101, 108]
    else [99, 111, 110, 118, 101, 114, 115, 105, 111, 110]) ++ [62, 62]

def convert (mem : Bytes) (conv : UInt8) (c : Conversion) (type : ArgType) (args : VaList) :
    List UInt8 × VaList :=
  if conv = 100 ∨ conv = 105 then
    let (value, args) := vaSigned type args
    let negative := decide (value.toInt < 0)
    (formatInteger (if negative then -value else value).toNat true negative baseD c, args)
  else
    match unsignedBase conv with
    | some b =>
        let (value, args) := vaUnsigned type args
        (formatInteger value.toNat false false b c, args)
    | none =>
        if conv = 99 then (formatString [⟨args.head.setWidth 8⟩] c, args.tail)
        else if conv = 115 then
          let s := args.head.toNat
          let maxlen := c.precision.getD 4294967295
          let string : List UInt8 :=
            if s = 0 then [40, 110, 117, 108, 108, 41].take maxlen
            else (List.range (strnlen mem s maxlen)).map fun i => mem (s + i)
          (formatString string c, args.tail)
        else if conv = 112 then
          let c : Conversion := { pound := true, width := c.width, precision := c.precision }
          (formatInteger args.head.toNat false false baseLowerX c, args.tail)
        else (noConversion conv, args)

/-- The loop over the format, one round for a character or a conversion. -/
def vprintfLoop (mem : Bytes) : Nat → List UInt8 → VaList → Option (List UInt8)
  | 0, _, _ => none
  | _ + 1, [], _ => some []
  | fuel + 1, 37 :: 37 :: format, args =>
      (vprintfLoop mem fuel format args).map fun output => 37 :: output
  | fuel + 1, 37 :: format, args =>
      match parseConversion format args with
      | some (c, type, conv :: format, args) =>
          let (text, args) := convert mem conv c type args
          (vprintfLoop mem fuel format args).map fun output => text ++ output
      | _ => none
  | fuel + 1, ch :: format, args =>
      (vprintfLoop mem fuel format args).map fun output => ch :: output

def vprintf (mem : Bytes) (format : List UInt8) (args : VaList) : Option (List UInt8) :=
  vprintfLoop mem (format.length + 1) format args

/-- What makes the digits of a base readable. -/
structure IntegerBase.Valid (b : IntegerBase) : Prop where
  base_eq : b.base = b.digits.length
  eight_le : 8 ≤ b.base
  nodup : b.digits.Nodup
  comma : 44 ∉ b.digits
  zero : b.digits.idxOf 48 = 0

/-- The number that digits denote, commas apart. -/
def IntegerBase.numeral (b : IntegerBase) (digits : List UInt8) : Nat :=
  (digits.filter (· ≠ 44)).foldl (fun n d => n * b.base + b.digits.idxOf d) 0

section Digits

variable {b : IntegerBase}

lemma numeral_reverse (b : IntegerBase) (buf : List UInt8) :
    b.numeral buf.reverse =
      ofDigits b.base ((buf.filter (· ≠ 44)).map b.digits.idxOf) := by
  rw [ofDigits_eq_foldr, foldr_map, IntegerBase.numeral, filter_reverse, foldl_reverse]
  simp only [cast_id, add_comm, mul_comm]

lemma digitLoop_uncomma (hb : b.Valid) (group : Bool) (fuel value digitCnt : Nat) :
    (digitLoop b group fuel value digitCnt).filter (· ≠ 44) =
      digitLoop b false fuel value digitCnt := by
  induction fuel generalizing value digitCnt with
  | zero => rfl
  | succ fuel ih =>
    have hdigit : b.digits.getD (value % b.base) 0 ≠ 44 := by
      intro h
      have hlt : value % b.base < b.digits.length := by
        rw [← hb.base_eq]
        exact mod_lt value (by have := hb.eight_le; omega)
      rw [getD_eq_getElem _ _ hlt] at h
      exact hb.comma (h ▸ getElem_mem hlt)
    unfold digitLoop
    split
    · rfl
    · rw [filter_append, filter_cons_of_pos (by simpa using hdigit), ih]
      split <;> simp

lemma digitLoop_length_le (group : Bool) (fuel value digitCnt : Nat) :
    (digitLoop b group fuel value digitCnt).length ≤
      2 * (digitLoop b false fuel value digitCnt).length := by
  induction fuel generalizing value digitCnt with
  | zero => simp [digitLoop]
  | succ fuel ih =>
    have hrest := ih (value / b.base) (digitCnt + 1)
    unfold digitLoop
    split
    · simp
    · split <;> simp <;> omega

lemma digitLoop_digits (hb : b.Valid) {value : Nat} (h : value < 2 ^ 64) :
    digitLoop b false 64 value 0 = (digits b.base value).map fun k => b.digits.getD k 0 := by
  have hbase : 2 ≤ b.base := le_trans (by decide) hb.eight_le
  exact digitLoop_plain hbase (h.trans_le (Nat.pow_le_pow_left hbase 64)) 0

lemma ofDigits_digitLoop (hb : b.Valid) (group : Bool) {value : Nat} (h : value < 2 ^ 64) :
    ofDigits b.base
      (((digitLoop b group 64 value 0).filter (· ≠ 44)).map b.digits.idxOf) = value := by
  have hbase : 1 < b.base := lt_of_lt_of_le (by decide) hb.eight_le
  have hdigits : (digits b.base value).map (b.digits.idxOf <| b.digits.getD · 0) =
      digits b.base value := by
    refine (map_congr_left fun k hk => ?_).trans (map_id _)
    have hlt : k < b.digits.length := hb.base_eq ▸ digits_lt_base hbase hk
    rw [getD_eq_getElem _ _ hlt]
    exact hb.nodup.idxOf_getElem k hlt
  rw [digitLoop_uncomma hb, digitLoop_digits hb h, map_map]
  exact (congrArg _ hdigits).trans (ofDigits_digits b.base value)

lemma digitLoop_length (hb : b.Valid) (group : Bool) {value : Nat} (h : value < 2 ^ 64) :
    (digitLoop b group 64 value 0).length ≤ 44 := by
  have hbase : 1 < b.base := Nat.lt_of_lt_of_le (by decide) hb.eight_le
  have hpow : 2 ^ 64 ≤ b.base ^ 22 :=
    Nat.le_trans (by decide) (Nat.pow_le_pow_left hb.eight_le 22)
  have hplain : (digitLoop b false 64 value 0).length ≤ 22 := by
    rw [digitLoop_digits hb h, length_map]
    exact (Nat.digits_length_le_iff hbase value).mpr (h.trans_le hpow)
  exact (digitLoop_length_le group 64 value 0).trans (by omega)

lemma ofDigits_append_zeros (hb : b.Valid) (buf : List UInt8) (n : Nat) :
    ofDigits b.base (((buf ++ replicate n 48).filter (· ≠ 44)).map b.digits.idxOf) =
      ofDigits b.base ((buf.filter (· ≠ 44)).map b.digits.idxOf) := by
  simp [ofDigits_append, hb.zero, ofDigits_replicate_zero]

end Digits

/-- The parts of what `format_integer` puts out: three places for padding around the sign, the
`0x` and the digits. -/
structure Field where
  left : Nat
  sign : List UInt8
  x : List UInt8
  zeros : Nat
  digits : List UInt8
  right : Nat

namespace Field

def body (f : Field) : List UInt8 := f.sign ++ f.x ++ f.digits

def output (f : Field) : List UInt8 :=
  List.replicate f.left 32 ++ f.sign ++ f.x ++ List.replicate f.zeros 48 ++ f.digits ++
    List.replicate f.right 32

/-- At most one of the three places is used. -/
def OneSided (f : Field) : Prop :=
  f.left = 0 ∧ f.zeros = 0 ∨ f.left = 0 ∧ f.right = 0 ∨ f.zeros = 0 ∧ f.right = 0

instance (f : Field) : Decidable f.OneSided := inferInstanceAs (Decidable (_ ∨ _))

end Field

/-- The digits in the buffer when `format_integer` begins to put out, last digit first. -/
def digitBuffer (value : Nat) (b : IntegerBase) (c : Conversion) : List UInt8 :=
  let digits := digitLoop b c.group 64 value 0
  let buf := digits ++ List.replicate (min (c.precision.getD 1) 63 - digits.length) 48
  if c.pound ∧ b.base = 8 ∧ buf.getLast? ≠ some 48 then buf ++ [48] else buf

def signOf (isSigned negative : Bool) (c : Conversion) : List UInt8 :=
    if isSigned then
      if c.plus then [if negative then 45 else 43]
      else if c.space then [if negative then 45 else 32]
      else if negative then [45]
      else []
    else []

/-- What `formatInteger` computes, with the parts apart. -/
def integerField (value : Nat) (isSigned negative : Bool) (b : IntegerBase) (c : Conversion) :
    Field :=
  let sign := signOf isSigned negative c
  let x : List UInt8 := if c.pound ∧ value ≠ 0 ∧ b.x ≠ 0 then [48, b.x] else []
  let digits := (digitBuffer value b c).reverse
  let padCnt := c.width - digits.length - x.length - sign.length
  { left := if ¬ c.minus ∧ ¬ c.zero then padCnt else 0
    sign
    x
    zeros := if c.zero then padCnt else 0
    digits
    right := if c.minus then padCnt else 0 }

lemma formatInteger_eq (value : Nat) (isSigned negative : Bool) (b : IntegerBase) (c : Conversion) :
    formatInteger value isSigned negative b c =
      (integerField value isSigned negative b c).output := by
  have hpad (p : Prop) [Decidable p] (n : Nat) (ch : UInt8) :
      replicate (if p then n else 0) ch = if p then replicate n ch else [] := by
    split <;> rfl
  simp only [integerField, Field.output, hpad, length_reverse]
  rfl

/-- A field is filled exactly and on one side, unless padding is called for in two places. -/
lemma integerField_fills_iff (value : Nat) (isSigned negative : Bool) (b : IntegerBase)
    (c : Conversion) :
    let f := integerField value isSigned negative b c
    f.output.length = max c.width f.body.length ∧ f.OneSided ↔
      ¬ (c.minus ∧ c.zero ∧ f.body.length < c.width) := by
  cases hminus : c.minus <;> cases hzero : c.zero <;>
    simp [integerField, Field.output, Field.body, Field.OneSided, hminus, hzero] <;> omega

section Buffer

variable {b : IntegerBase} {value : Nat}

lemma numeral_digits (hb : b.Valid) (h : value < 2 ^ 64) (isSigned negative : Bool)
    (c : Conversion) : b.numeral (integerField value isSigned negative b c).digits = value := by
  show b.numeral (digitBuffer value b c).reverse = value
  rw [numeral_reverse, digitBuffer]
  split
  · rw [show [(48 : UInt8)] = replicate 1 48 from rfl, ofDigits_append_zeros hb,
      ofDigits_append_zeros hb, ofDigits_digitLoop hb c.group h]
  · rw [ofDigits_append_zeros hb, ofDigits_digitLoop hb c.group h]

lemma digits_length_le (hb : b.Valid) (h : value < 2 ^ 64) (isSigned negative : Bool)
    (c : Conversion) : (integerField value isSigned negative b c).digits.length ≤ 64 := by
  have hlen := digitLoop_length hb c.group h
  show (digitBuffer value b c).reverse.length ≤ 64
  rw [length_reverse, digitBuffer]
  split <;> simp <;> omega

end Buffer

def decimal (ds : List (Fin 10)) : Nat := ds.foldl (fun n (d : Fin 10) => n * 10 + d) 0

/-- A width or precision in a specification, a literal being below a bound. -/
inductive Amount (bound : Nat)
  | literal (ds : List (Fin 10)) (lt : decimal ds < bound)
  | star

inductive IntegerConv
  | d | i | o | u | x | X

/-- `%[flags][width][.precision][length]` with an integer conversion. An absent width is a literal
without digits. -/
structure IntegerSpec where
  flags : List Flag
  width : Amount (2 ^ 31)
  precision : Option (Amount 64)
  type : ArgType
  conv : IntegerConv
  width_head : ∀ ds lt, width = .literal ds lt → ds.head? ≠ some 0

def digitChar (d : Fin 10) : UInt8 := UInt8.ofNat (48 + d)

namespace Amount

variable {bound : Nat}

def text : Amount bound → List UInt8
  | literal ds _ => ds.map digitChar
  | star => [42]

def value (a : Amount bound) (args : VaList) : BitVec 32 :=
  match a with
  | literal ds _ => BitVec.ofNat 32 (decimal ds)
  | star => args.head

def rest (a : Amount bound) (args : VaList) : VaList :=
  match a with
  | literal _ _ => args
  | star => args.tail

end Amount

def ArgType.text : ArgType → List UInt8
  | char => [104, 104]
  | short => [104]
  | int => []
  | intmax => [106]
  | long => [108]
  | longlong => [108, 108]
  | ptrdifft => [116]
  | sizet => [122]

namespace IntegerConv

def char : IntegerConv → UInt8
  | d => 100
  | i => 105
  | o => 111
  | u => 117
  | x => 120
  | X => 88

def signed : IntegerConv → Bool
  | d | i => true
  | _ => false

def base : IntegerConv → IntegerBase
  | d | i | u => baseD
  | o => baseO
  | x => baseLowerX
  | X => baseUpperX

lemma base_valid (conv : IntegerConv) : conv.base.Valid := by
  cases conv <;> exact ⟨rfl, by decide, by decide, by decide, by decide⟩

end IntegerConv

namespace IntegerSpec

variable (spec : IntegerSpec) (args : VaList)

def tailText : List UInt8 :=
  (match spec.precision with
    | none => []
    | some p => 46 :: p.text) ++ spec.type.text ++ [spec.conv.char]

def text : List UInt8 := spec.flags.map Flag.char ++ spec.width.text ++ spec.tailText

def widthOf : Int := (spec.width.value args).toInt

/-- The precision, where a negative one counts as absent. -/
def precisionOf : Option Nat :=
  (spec.precision.map fun p => p.value (spec.width.rest args)).bind fun p =>
    if p.toInt < 0 then none else some p.toNat

def valueArgs : VaList :=
  match spec.precision with
  | none => spec.width.rest args
  | some p => p.rest (spec.width.rest args)

def argument : Int :=
  if spec.conv.signed then (vaSigned spec.type (spec.valueArgs args)).1.toInt
  else (vaUnsigned spec.type (spec.valueArgs args)).1.toNat

def argsAfter : VaList :=
  if spec.conv.signed then (vaSigned spec.type (spec.valueArgs args)).2
  else (vaUnsigned spec.type (spec.valueArgs args)).2

/-- What `parse_conversion` makes of the specification. -/
def conversion : Conversion where
  minus := decide (Flag.minus ∈ spec.flags) || decide (spec.widthOf args < 0)
  plus := decide (Flag.plus ∈ spec.flags)
  space := decide (Flag.space ∈ spec.flags) && !decide (Flag.plus ∈ spec.flags)
  pound := decide (Flag.pound ∈ spec.flags)
  zero := decide (Flag.zero ∈ spec.flags) && !decide (Flag.minus ∈ spec.flags) &&
    (spec.precisionOf args).isNone
  group := decide (Flag.group ∈ spec.flags)
  width := (spec.widthOf args).natAbs
  precision := spec.precisionOf args

def field : Field :=
  integerField (spec.argument args).natAbs spec.conv.signed (decide (spec.argument args < 0))
    spec.conv.base (spec.conversion args)

end IntegerSpec

/-! ## The parser on a specification -/

lemma toNat_magnitude {w : Nat} (v : BitVec w) :
    (if v.toInt < 0 then -v else v).toNat = v.toInt.natAbs := by
  have hint := BitVec.toInt_eq_toNat_cond v
  split
  · have hpos : 2 ^ w - v.toNat < 2 ^ w := by
      split at hint <;> omega
    rw [BitVec.toNat_neg, mod_eq_of_lt hpos]
    split at hint <;> omega
  · split at hint <;> omega

lemma Flag.ofChar_char (f : Flag) : Flag.ofChar f.char = some f := by
  cases f <;> rfl

lemma parseFlags_text (fs : List Flag) {ch : UInt8} (hch : Flag.ofChar ch = none)
    (format : List UInt8) (c : Conversion) :
    parseFlags (fs.map Flag.char ++ ch :: format) c =
      (fs.foldl Conversion.set c, ch :: format) := by
  induction fs generalizing c with
  | nil => simp [parseFlags, hch]
  | cons f fs ih => simp [parseFlags, Flag.ofChar_char, ih]

lemma foldl_set (fs : List Flag) (c : Conversion) :
    fs.foldl Conversion.set c =
      { c with
        minus := c.minus || decide (Flag.minus ∈ fs)
        plus := c.plus || decide (Flag.plus ∈ fs)
        space := c.space || decide (Flag.space ∈ fs)
        pound := c.pound || decide (Flag.pound ∈ fs)
        zero := c.zero || decide (Flag.zero ∈ fs)
        group := c.group || decide (Flag.group ∈ fs) } := by
  induction fs generalizing c with
  | nil => simp
  | cons f fs ih =>
    rw [foldl_cons, ih]
    cases f <;> simp [Conversion.set]

lemma isdigit_digitChar : ∀ d, isdigit (digitChar d) = true := by
  decide

lemma digitChar_ne_star : ∀ d, digitChar d ≠ 42 := by
  decide

lemma digitChar_not_flag : ∀ d, d ≠ 0 → Flag.ofChar (digitChar d) = none ∧ digitChar d ≠ 37 := by
  decide

/-- A character that ends a number and is no flag. -/
structure EndsNumber (ch : UInt8) : Prop where
  not_digit : isdigit ch = false
  not_flag : Flag.ofChar ch = none
  not_star : ch ≠ 42
  not_percent : ch ≠ 37

lemma parseDigits_text (ds : List (Fin 10)) {ch : UInt8} (hch : EndsNumber ch)
    (format : List UInt8) (n : Nat) :
    parseDigits (ds.map digitChar ++ ch :: format) (BitVec.ofNat 32 n) =
      (BitVec.ofNat 32 (ds.foldl (fun n (d : Fin 10) => n * 10 + d) n), ch :: format) := by
  induction ds generalizing n with
  | nil => simp [parseDigits, hch.not_digit]
  | cons d ds ih =>
    have hstep : BitVec.ofNat 32 n * 10 + (digitChar d).toBitVec.setWidth 32 - 48 =
        BitVec.ofNat 32 (n * 10 + d) := by
      apply BitVec.eq_of_toNat_eq
      have := d.isLt
      simp [digitChar]
      omega
    rw [map_cons, cons_append, parseDigits, if_pos (isdigit_digitChar d), hstep, ih]
    rfl

lemma parseAmount_text {bound : Nat} (a : Amount bound) {ch : UInt8} (hch : EndsNumber ch)
    (format : List UInt8) (args : VaList) :
    parseAmount (a.text ++ ch :: format) args = (a.value args, ch :: format, a.rest args) := by
  cases a with
  | star => rfl
  | literal ds hlt =>
    have hparse : parseDigits (ds.map digitChar ++ ch :: format) 0 =
        (BitVec.ofNat 32 (decimal ds), ch :: format) := parseDigits_text ds hch format 0
    show parseAmount (ds.map digitChar ++ ch :: format) args = _
    unfold parseAmount
    split
    case h_1 heq =>
      cases ds with
      | nil => exact absurd (cons.inj heq).1 hch.not_star
      | cons d ds => exact absurd (cons.inj heq).1 (digitChar_ne_star d)
    case h_2 =>
      rw [hparse]
      rfl

namespace IntegerSpec

variable (spec : IntegerSpec)

lemma endsNumber_type (type : ArgType) (conv : IntegerConv) :
    ∃ ch t, type.text ++ [conv.char] = ch :: t ∧ EndsNumber ch := by
  cases type <;> cases conv <;>
    exact ⟨_, _, rfl, by decide, by decide, by decide, by decide⟩

lemma endsNumber_tailText : ∃ ch t, spec.tailText = ch :: t ∧ EndsNumber ch := by
  unfold tailText
  cases spec.precision with
  | none => exact endsNumber_type spec.type spec.conv
  | some p => exact ⟨46, _, rfl, by decide, by decide, by decide, by decide⟩

lemma afterFlags_head : ∃ ch t, spec.width.text ++ spec.tailText = ch :: t ∧
    Flag.ofChar ch = none ∧ ch ≠ 37 := by
  obtain ⟨ch, t, htail, hch⟩ := spec.endsNumber_tailText
  cases hwidth : spec.width with
  | star => exact ⟨42, _, rfl, by decide, by decide⟩
  | literal ds hlt =>
    cases ds with
    | nil => exact ⟨ch, t, htail, hch.not_flag, hch.not_percent⟩
    | cons d ds =>
      have hd : d ≠ 0 := fun h => spec.width_head _ _ hwidth (congrArg some h)
      exact ⟨digitChar d, _, rfl, digitChar_not_flag d hd⟩

lemma text_append (rest : List UInt8) : spec.text ++ rest =
    spec.flags.map Flag.char ++ (spec.width.text ++ spec.tailText ++ rest) := by
  simp [text]

lemma parseType_text (type : ArgType) (conv : IntegerConv) (rest : List UInt8) :
    parseType (type.text ++ conv.char :: rest) = (type, conv.char :: rest) := by
  cases type <;> cases conv <;> rfl

lemma parseWidth_text (rest : List UInt8) (args : VaList) (c : Conversion)
    (hmin : spec.widthOf args ≠ -2147483648) :
    parseWidth c (spec.width.text ++ (spec.tailText ++ rest)) args =
      some ({ c with width := (spec.widthOf args).natAbs
                     minus := c.minus || decide (spec.widthOf args < 0) },
        spec.tailText ++ rest, spec.width.rest args) := by
  obtain ⟨ch, t, htail, hch⟩ := spec.endsNumber_tailText
  have hamount := parseAmount_text spec.width hch (t ++ rest) args
  rw [← cons_append, ← htail] at hamount
  simp only [parseWidth, hamount]
  unfold widthOf at hmin ⊢
  rw [if_neg hmin, ← toNat_magnitude]
  by_cases hneg : (spec.width.value args).toInt < 0 <;> simp [hneg]

lemma parsePrecision_text (rest : List UInt8) (args : VaList) {c : Conversion}
    (hc : c.precision = none) :
    parsePrecision c (spec.tailText ++ rest) (spec.width.rest args) =
      ({ c with precision := spec.precisionOf args
                zero := c.zero && (spec.precisionOf args).isNone },
        spec.type.text ++ spec.conv.char :: rest, spec.valueArgs args) := by
  cases c
  cases hc
  unfold tailText precisionOf valueArgs
  cases spec.precision with
  | none =>
    simp only [nil_append, append_assoc]
    cases spec.type <;> cases spec.conv <;> simp [parsePrecision, ArgType.text, IntegerConv.char]
  | some p =>
    obtain ⟨ch, t, htail, hch⟩ := endsNumber_type spec.type spec.conv
    have hamount := parseAmount_text p hch (t ++ rest) (spec.width.rest args)
    rw [← cons_append, ← htail] at hamount
    have htext : 46 :: p.text ++ spec.type.text ++ [spec.conv.char] ++ rest =
        46 :: (p.text ++ (spec.type.text ++ [spec.conv.char] ++ rest)) := by
      simp
    rw [htext]
    simp only [parsePrecision, hamount]
    by_cases hneg : (p.value (spec.width.rest args)).toInt < 0 <;> simp [hneg]

lemma parseConversion_text (rest : List UInt8) (args : VaList)
    (hmin : spec.widthOf args ≠ -2147483648) :
    parseConversion (spec.text ++ rest) args =
      some (spec.conversion args, spec.type, spec.conv.char :: rest, spec.valueArgs args) := by
  obtain ⟨ch, t, hhead, hflag, -⟩ := spec.afterFlags_head
  have hflags := parseFlags_text spec.flags hflag (t ++ rest) {}
  rw [← cons_append, ← hhead, foldl_set] at hflags
  rw [text_append, parseConversion, hflags]
  simp only [Conversion.override]
  rw [append_assoc, parseWidth_text spec rest args _ hmin]
  simp only [Option.map_some]
  rw [parsePrecision_text spec rest args rfl]
  simp only [parseType_text]
  simp [conversion]

lemma argument_lt (args : VaList) : (spec.argument args).natAbs < 2 ^ 64 := by
  unfold argument
  split
  · rw [← toNat_magnitude]
    exact BitVec.isLt _
  · exact BitVec.isLt _

lemma convert_text (mem : Bytes) (args : VaList) :
    convert mem spec.conv.char (spec.conversion args) spec.type (spec.valueArgs args) =
      ((spec.field args).output, spec.argsAfter args) := by
  unfold field argument argsAfter
  rw [← formatInteger_eq]
  generalize spec.valueArgs args = args', spec.conversion args = c
  cases spec.conv with
  | d | i =>
    simp [IntegerConv.signed, IntegerConv.char, IntegerConv.base, convert, ← toNat_magnitude]
  | o | u | x | X =>
    have hpos := (Int.natCast_nonneg (vaUnsigned spec.type args').1.toNat).not_gt
    simp [IntegerConv.signed, IntegerConv.char, IntegerConv.base, convert, unsignedBase, hpos]

lemma vprintfLoop_text (mem : Bytes) (fuel : Nat) (rest : List UInt8) (args : VaList)
    (hmin : spec.widthOf args ≠ -2147483648) :
    vprintfLoop mem (fuel + 1) (37 :: spec.text ++ rest) args =
      (vprintfLoop mem fuel rest (spec.argsAfter args)).map
        fun output => (spec.field args).output ++ output := by
  have hpercent : ∀ format, spec.text ++ rest ≠ 37 :: format := by
    obtain ⟨ch, t, hhead, -, hch⟩ := spec.afterFlags_head
    intro format heq
    rw [text_append, hhead] at heq
    cases hflags : spec.flags with
    | nil =>
      rw [hflags] at heq
      exact hch (cons.inj heq).1
    | cons f fs =>
      rw [hflags] at heq
      have hf : f.char = 37 := (cons.inj heq).1
      cases f <;> exact absurd hf (by decide)
  rw [cons_append, vprintfLoop]
  · simp only [spec.parseConversion_text rest args hmin, spec.convert_text mem args]
  · exact hpercent

lemma vprintf_text (mem : Bytes) (args : VaList) (hmin : spec.widthOf args ≠ -2147483648) :
    vprintf mem (37 :: spec.text) args = some (spec.field args).output := by
  have hloop := spec.vprintfLoop_text mem (spec.text.length + 1) [] args hmin
  rw [append_nil] at hloop
  rw [vprintf, length_cons, hloop]
  simp [vprintfLoop]

/-- The flag `0` survives a minus sign that comes from the width only. -/
lemma padded_twice_iff (args : VaList) :
    (spec.conversion args).minus ∧ (spec.conversion args).zero ↔
      .zero ∈ spec.flags ∧ .minus ∉ spec.flags ∧ spec.widthOf args < 0 ∧
        spec.precisionOf args = none := by
  simp only [conversion, Bool.or_eq_true, Bool.and_eq_true, Bool.not_eq_true',
    decide_eq_true_eq, decide_eq_false_iff_not, Option.isNone_iff_eq_none]
  tauto

end IntegerSpec

/-- An integer conversion puts out sign, `0x` and digits of its argument without overrunning the
buffer. It fills its field, unless `0` is given without `-` and precision for a negative width
argument and a shorter body. -/
theorem vprintf_fills_field_iff (spec : IntegerSpec) (mem : Bytes) (args : VaList)
    (hmin : spec.widthOf args ≠ -2147483648) :
    let f := spec.field args
    vprintf mem (37 :: spec.text) args = some f.output ∧
    (∀ fuel rest, vprintfLoop mem (fuel + 1) (37 :: spec.text ++ rest) args =
      (vprintfLoop mem fuel rest (spec.argsAfter args)).map fun output => f.output ++ output) ∧
    spec.conv.base.numeral f.digits = (spec.argument args).natAbs ∧
    f.digits.length ≤ 64 ∧
    (f.output.length = max (spec.widthOf args).natAbs f.body.length ∧ f.OneSided ↔
      ¬ (.zero ∈ spec.flags ∧ .minus ∉ spec.flags ∧ spec.widthOf args < 0 ∧
        spec.precisionOf args = none ∧ f.body.length < (spec.widthOf args).natAbs)) := by
  intro f
  have hvalue := spec.argument_lt args
  refine ⟨spec.vprintf_text mem args hmin,
    fun fuel rest => spec.vprintfLoop_text mem fuel rest args hmin,
    numeral_digits spec.conv.base_valid hvalue _ _ _,
    digits_length_le spec.conv.base_valid hvalue _ _ _, ?_⟩
  have hfills := integerField_fills_iff (spec.argument args).natAbs spec.conv.signed
    (decide (spec.argument args < 0)) spec.conv.base (spec.conversion args)
  refine hfills.trans (not_congr ?_)
  rw [← and_assoc, spec.padded_twice_iff, and_assoc, and_assoc, and_assoc]
  rfl

def zeroStar : IntegerSpec where
  flags := [.zero]
  width := .star
  precision := none
  type := .int
  conv := .d
  width_head := by simp

def minusFiveArgs : VaList := fun n => if n = 0 then -5 else 42

/-- `%0*d` with the width -5 prints `00042` and three blanks. -/
theorem zeroStar_minusFive :
    vprintf (fun _ => 0) (37 :: zeroStar.text) minusFiveArgs =
      some [48, 48, 48, 52, 50, 32, 32, 32] ∧
    zeroStar.widthOf minusFiveArgs = -5 ∧ (zeroStar.field minusFiveArgs).body = [52, 50] ∧
    ¬ (zeroStar.field minusFiveArgs).OneSided := by
  decide

theorem vprintf_fills_field_iff_zeroStar :
    zeroStar.widthOf (fun _ => 42) ≠ -2147483648 ∧
    (zeroStar.field fun _ => 42).output.length = 42 := by
  have hmin : zeroStar.widthOf (fun _ => 42) ≠ -2147483648 := by
    decide
  obtain ⟨-, -, -, -, hfills⟩ := vprintf_fills_field_iff zeroStar (fun _ => 0) (fun _ => 42) hmin
  exact ⟨hmin, (hfills.mpr (by decide)).1.trans (by decide)⟩

end Pintos.Lib
