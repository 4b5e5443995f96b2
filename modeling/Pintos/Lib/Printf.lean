import Mathlib.Data.Nat.Digits.Lemmas

/-!
# Formatted integers (lib/stdio.c)

`format_integer` collects the digits of a number in a buffer, last digit first, and puts
them out in reverse after the padding. Characters are bytes.
-/

namespace Pintos.Lib

open List Nat

structure IntegerBase where
  base : Nat
  digits : List UInt8
  x : UInt8
  group : Nat

def baseO : IntegerBase := ⟨8, [48, 49, 50, 51, 52, 53, 54, 55], 0, 3⟩

/-- `struct printf_conversion`; `none` stands for the precision -1. -/
structure Conversion where
  minus : Bool := false
  plus : Bool := false
  space : Bool := false
  pound : Bool := false
  zero : Bool := false
  group : Bool := false
  width : Nat := 0
  precision : Option Nat := none

/-- The loop that fills the buffer. The value has 64 bits, which bounds the rounds. -/
def digitLoop (b : IntegerBase) (group : Bool) : Nat → Nat → Nat → List UInt8
  | 0, _, _ => []
  | fuel + 1, value, digitCnt =>
      if value = 0 then []
      else
        (if group ∧ 0 < digitCnt ∧ digitCnt % b.group = 0 then [44] else []) ++
          b.digits.getD (value % b.base) 0 ::
            digitLoop b group fuel (value / b.base) (digitCnt + 1)

def formatInteger (value : Nat) (isSigned negative : Bool) (b : IntegerBase)
    (c : Conversion) : List UInt8 :=
  let sign : List UInt8 :=
    if isSigned then
      if c.plus then [if negative then 45 else 43]
      else if c.space then [if negative then 45 else 32]
      else if negative then [45]
      else []
    else []
  let x : List UInt8 := if c.pound ∧ value ≠ 0 ∧ b.x ≠ 0 then [48, b.x] else []
  let digits := digitLoop b c.group 64 value 0
  let buf := digits ++ List.replicate (min (c.precision.getD 1) 63 - digits.length) 48
  let buf := if c.pound ∧ b.base = 8 ∧ buf.getLast? ≠ some 48 then buf ++ [48] else buf
  let padCnt := c.width - buf.length - x.length - sign.length
  (if ¬ c.minus ∧ ¬ c.zero then List.replicate padCnt 32 else []) ++ sign ++ x ++
    (if c.zero then List.replicate padCnt 48 else []) ++ buf.reverse ++
    (if c.minus then List.replicate padCnt 32 else [])

/-- The bytes that `snprintf` stores in a buffer of `size` bytes. -/
def snprintf (size : Nat) (output : List UInt8) : List UInt8 :=
  if size = 0 then [] else output.take (size - 1) ++ [0]

/-- The output of the conversion `%0<width>o`. -/
def octal (width value : Nat) : List UInt8 :=
  formatInteger value false false baseO { zero := true, width := width }

def octalDigit (k : Nat) : UInt8 := baseO.digits.getD k 0

lemma octalDigit_toNat {k : Nat} (h : k < 8) : (octalDigit k).toNat = 48 + k := by
  interval_cases k <;> rfl

lemma digitLoop_plain {b : IntegerBase} (hbase : 1 < b.base) {fuel value : Nat}
    (h : value < b.base ^ fuel) (digitCnt : Nat) :
    digitLoop b false fuel value digitCnt =
      (digits b.base value).map fun k => b.digits.getD k 0 := by
  induction fuel generalizing value digitCnt with
  | zero =>
    have hzero : value = 0 := by simpa using h
    simp [hzero, digitLoop]
  | succ fuel ih =>
    by_cases hzero : value = 0
    · simp [hzero, digitLoop]
    · have hdiv : value / b.base < b.base ^ fuel := by
        rwa [div_lt_iff_lt_mul (by omega), ← pow_succ]
      have hrest := ih hdiv (digitCnt + 1)
      rw [digits_def' hbase (pos_of_ne_zero hzero)]
      simp only [digitLoop, if_neg hzero]
      simp only [Bool.false_eq_true, false_and, if_false, nil_append, map_cons]
      exact congrArg _ hrest

/-- A number of at most `width` octal digits comes out as `width` digits that stand for
it. -/
lemma octal_eq {width value : Nat} (hwidth : 0 < width) (h : value < 8 ^ width)
    (h64 : value < 2 ^ 64) :
    ∃ ds : List Nat, octal width value = ds.map octalDigit ∧ ds.length = width ∧
      (∀ k ∈ ds, k < 8) ∧ ofDigits 8 ds.reverse = value := by
  have hdigits : digitLoop baseO false 64 value 0 = (digits 8 value).map octalDigit :=
    digitLoop_plain (by decide) (lt_of_lt_of_le h64 (by decide)) 0
  have hlen : (digits 8 value).length ≤ width :=
    (digits_length_le_iff (by decide) value).mpr h
  -- The buffer holds the digits and, for the number 0, one zero.
  obtain ⟨zs, hzs, hbuf⟩ : ∃ zs : Nat, zs + (digits 8 value).length ≤ width ∧ octal width value =
        replicate (width - (zs + (digits 8 value).length)) 48 ++
          ((digits 8 value).map octalDigit ++ replicate zs 48).reverse := by
    refine ⟨1 - (digits 8 value).length, by omega, ?_⟩
    simp [octal, formatInteger, hdigits, add_comm]
  refine ⟨replicate (width - (zs + (digits 8 value).length)) 0 ++
    (digits 8 value ++ replicate zs 0).reverse, ?_, ?_, ?_, ?_⟩
  · rw [hbuf]
    simp [octalDigit, baseO]
  · simp
    omega
  · intro k hk
    simp only [mem_append, mem_reverse, mem_replicate] at hk
    rcases hk with hk | hk | hk
    · omega
    · exact digits_lt_base (by decide) hk
    · omega
  · rw [reverse_append, reverse_reverse, reverse_replicate]
    rw [ofDigits_append, ofDigits_append, ofDigits_digits]
    simp [ofDigits_replicate_zero]

end Pintos.Lib
