import Mathlib
import Pintos.Lib.Vprintf

/-!
# Numbers to text and back (lib/stdlib.c, lib/stdio.c)

`atoi` with every intermediate `int` checked: `none` is an overflow. A string is read up to a
byte that does not belong to the number, its terminator at the latest.
-/

namespace Pintos.Lib

open List

def isspace (ch : UInt8) : Bool := [32, 12, 10, 13, 9, 11].contains ch

/-- A result of `int` arithmetic. -/
def checkInt (n : Int) : Option Int := if -2147483648 ≤ n ∧ n ≤ 2147483647 then some n else none

/-- The loop over the digits. The value is built up as a negative number. -/
def atoiDigits : List UInt8 → Int → Option Int
  | [], value => some value
  | ch :: s, value =>
      if isdigit ch then
        (checkInt (value * 10)).bind fun value =>
          (checkInt (value - (ch.toNat - 48))).bind (atoiDigits s)
      else some value

def atoi (s : List UInt8) : Option Int :=
  match s.dropWhile isspace with
  | 45 :: s => atoiDigits s 0
  | 43 :: s => (atoiDigits s 0).bind fun value => checkInt (-value)
  | s => (atoiDigits s 0).bind fun value => checkInt (-value)

/-- A buffer in memory. RAM is mapped as a whole above `PHYS_BASE`: at most a gigabyte. -/
structure Buffer where
  size : Nat
  size_le : size ≤ 2 ^ 30

/-- `vsnprintf_helper`, with the bytes stored so far and `length`. -/
def vsnprintfHelper (maxLength : Int) (aux : List UInt8 × Nat) (ch : UInt8) : List UInt8 × Nat :=
  (if aux.2 < maxLength then aux.1 ++ [ch] else aux.1, aux.2 + 1)

/-- The bytes stored in the buffer and the returned length. `max_length` is an `int`. -/
def vsnprintf (mem : Bytes) (bufSize : Nat) (format : List UInt8) (args : VaList) :
    Option (List UInt8 × Nat) :=
  let maxLength : Int := if bufSize > 0 then ((bufSize : Int) - 1).bmod (2 ^ 32) else 0
  (vprintf mem format args).map fun output =>
    let aux := output.foldl (vsnprintfHelper maxLength) ([], 0)
    (if bufSize > 0 then aux.1 ++ [0] else aux.1, aux.2)

lemma foldl_vsnprintfHelper (n : Nat) (output stored : List UInt8) (k : Nat)
    (hk : stored.length = min k n) :
    output.foldl (vsnprintfHelper n) (stored, k) =
      (stored ++ output.take (n - k), k + output.length) := by
  induction output generalizing stored k with
  | nil => simp
  | cons ch output ih =>
    by_cases hlt : k < n
    · have hstep : vsnprintfHelper n (stored, k) ch = (stored ++ [ch], k + 1) := by
        simp [vsnprintfHelper, hlt]
      rw [foldl_cons, hstep, ih _ _ (by simp; omega)]
      obtain ⟨m, hm⟩ : ∃ m, n - k = m + 1 := ⟨n - k - 1, by omega⟩
      have hrest : n - (k + 1) = m := by omega
      simp [hm, hrest]
      omega
    · have hstep : vsnprintfHelper n (stored, k) ch = (stored, k + 1) := by
        simp [vsnprintfHelper, hlt]
      rw [foldl_cons, hstep, ih _ _ (by omega)]
      have hzero : n - k = 0 := by omega
      have hzero' : n - (k + 1) = 0 := by omega
      simp [hzero, hzero']
      omega

lemma vsnprintf_eq (mem : Bytes) (buffer : Buffer) (format : List UInt8) (args : VaList) :
    vsnprintf mem buffer.size format args =
      (vprintf mem format args).map fun output =>
        (snprintf buffer.size output, output.length) := by
  have hsize := buffer.size_le
  unfold vsnprintf snprintf
  by_cases hzero : buffer.size = 0
  · have hfold := fun output => foldl_vsnprintfHelper 0 output [] 0 rfl
    simp only [hzero]
    simp at hfold ⊢
    simp [hfold]
  · have hmax : ((buffer.size : Int) - 1).bmod (2 ^ 32) = ((buffer.size - 1 : Nat) : Int) := by
      rw [Int.bmod_eq_of_le (by omega) (by omega)]
      omega
    have hfold := fun output => foldl_vsnprintfHelper (buffer.size - 1) output [] 0 (by simp)
    simp only [hmax, if_pos (Nat.pos_of_ne_zero hzero), hfold, if_neg hzero]
    simp

lemma digit_facts : ∀ d ∈ baseD.digits, isdigit d ∧ ¬ isspace d ∧ d ≠ 44 ∧ d ≠ 43 ∧ d ≠ 45 ∧
      48 ≤ d.toNat ∧ baseD.digits.idxOf d = d.toNat - 48 := by
  decide +kernel

def shiftIn (n : Nat) (d : UInt8) : Nat := n * 10 + (d.toNat - 48)

lemma le_foldl_shiftIn (ds : List UInt8) (n : Nat) : n ≤ ds.foldl shiftIn n := by
  induction ds generalizing n with
  | nil => exact Nat.le_refl n
  | cons d ds ih => exact Nat.le_trans (by unfold shiftIn; omega) (ih (shiftIn n d))

lemma numeral_baseD {ds : List UInt8} (h : ∀ d ∈ ds, d ∈ baseD.digits) :
    baseD.numeral ds = ds.foldl shiftIn 0 := by
  have hfilter : ds.filter (· ≠ 44) = ds := by
    rw [filter_eq_self]
    intro d hd
    simpa using (digit_facts d (h d hd)).2.2.1
  rw [IntegerBase.numeral, hfilter]
  apply foldl_ext
  intro n d hd
  rw [(digit_facts d (h d hd)).2.2.2.2.2.2]
  rfl

/-- The loop reads off the negated number, without an overflow down to `INT_MIN`. -/
lemma atoiDigits_eq {ds : List UInt8} (h : ∀ d ∈ ds, d ∈ baseD.digits) (n : Nat)
    (hle : ds.foldl shiftIn n ≤ 2147483648) :
    atoiDigits (ds ++ [0]) (-n) = some (-((ds.foldl shiftIn n : Nat) : Int)) := by
  induction ds generalizing n with
  | nil => rfl
  | cons d ds ih =>
    obtain ⟨hdigit, -, -, -, -, hge, -⟩ := digit_facts d (h d mem_cons_self)
    have hnext := Nat.le_trans (le_foldl_shiftIn ds (shiftIn n d)) hle
    have hval : (shiftIn n d : Int) = n * 10 + (d.toNat - 48) := by
      unfold shiftIn
      omega
    have hmul : checkInt (-n * 10) = some (-(n : Int) * 10) := if_pos (by omega)
    have hsub : checkInt (-n * 10 - (d.toNat - 48)) = some (-((shiftIn n d : Nat) : Int)) := by
      rw [show -(n : Int) * 10 - (d.toNat - 48) = -((shiftIn n d : Nat) : Int) by omega]
      exact if_pos (by omega)
    rw [cons_append, atoiDigits, if_pos hdigit, hmul, Option.bind_some, hsub, Option.bind_some]
    exact ih (fun e he => h e (mem_cons_of_mem d he)) _ hle

lemma decimal_nil_lt : decimal [] < 2 ^ 31 := by decide

lemma noWidth_head :
    ∀ ds lt, Amount.literal [] decimal_nil_lt = .literal ds lt → ds.head? ≠ some 0 := by
  rintro ds _ ⟨⟩
  simp

def plainD : IntegerSpec where
  flags := []
  width := .literal [] decimal_nil_lt
  precision := none
  type := .int
  conv := .d
  width_head := noWidth_head

lemma plainD_field (v : BitVec 32) (args : VaList) :
    plainD.field (Stream'.cons v args) =
      integerField v.toInt.natAbs true (decide (v.toInt < 0)) baseD {} := by
  have harg : plainD.argument (Stream'.cons v args) = v.toInt :=
    BitVec.toInt_signExtend_of_le (by decide)
  rw [IntegerSpec.field, harg]
  rfl

lemma vprintf_plainD (mem : Bytes) (v : BitVec 32) (args : VaList) :
    ∃ ds : List UInt8, (∀ d ∈ ds, d ∈ baseD.digits) ∧ ds.length ≤ 10 ∧
      ds.foldl shiftIn 0 = v.toInt.natAbs ∧
      vprintf mem [37, 100] (Stream'.cons v args) =
        some ((if v.toInt < 0 then [45] else []) ++ ds) := by
  have hle : v.toInt.natAbs < 10 ^ 10 := by
    have := BitVec.toInt_lt (x := v)
    have := BitVec.le_toInt (x := v)
    omega
  have hlt : v.toInt.natAbs < 2 ^ 64 := by omega
  have hvalid : baseD.Valid := IntegerConv.base_valid .d
  have hdigits : digitLoop baseD false 64 v.toInt.natAbs 0 =
      (Nat.digits 10 v.toInt.natAbs).map fun k => baseD.digits.getD k 0 :=
    digitLoop_digits hvalid hlt
  have hbuf : digitBuffer v.toInt.natAbs baseD {} =
      (Nat.digits 10 v.toInt.natAbs).map (fun k => baseD.digits.getD k 0) ++
        replicate (1 - (Nat.digits 10 v.toInt.natAbs).length) 48 := by
    simp [digitBuffer, hdigits]
  have hmem : ∀ d ∈ (digitBuffer v.toInt.natAbs baseD {}).reverse, d ∈ baseD.digits := by
    intro d hd
    simp only [hbuf, mem_reverse, mem_append, mem_map, mem_replicate] at hd
    rcases hd with ⟨k, hk, rfl⟩ | ⟨-, rfl⟩
    · have hk10 : k < baseD.digits.length := Nat.digits_lt_base (by decide) hk
      rw [getD_eq_getElem _ _ hk10]
      exact getElem_mem hk10
    · decide
  refine ⟨(digitBuffer v.toInt.natAbs baseD {}).reverse, hmem, ?_, ?_, ?_⟩
  · have hlen := (Nat.digits_length_le_iff (by decide) v.toInt.natAbs).mpr hle
    simp [hbuf]
    omega
  · rw [← numeral_baseD hmem]
    exact numeral_digits hvalid hlt true (decide (v.toInt < 0)) {}
  · have hwidth : plainD.widthOf (Stream'.cons v args) = 0 := rfl
    have hprint := plainD.vprintf_text mem (Stream'.cons v args) (by rw [hwidth]; decide)
    rw [plainD_field] at hprint
    refine hprint.trans ?_
    by_cases hneg : v.toInt < 0 <;> simp [integerField, Field.output, signOf, hneg]

lemma atoi_white {white : List UInt8} (hwhite : ∀ ch ∈ white, isspace ch) (s : List UInt8) :
    atoi (white ++ s) = atoi s := by
  unfold atoi
  rw [dropWhile_append_of_pos hwhite]

lemma atoi_digits {ds : List UInt8} (h : ∀ d ∈ ds, d ∈ baseD.digits) :
    atoi (ds ++ [0]) = (atoiDigits (ds ++ [0]) 0).bind fun value => checkInt (-value) := by
  cases ds with
  | nil => rfl
  | cons d ds =>
    obtain ⟨-, hspace, -, hplus, hminus, -⟩ := digit_facts d (h d mem_cons_self)
    rw [atoi, cons_append, dropWhile_cons_of_neg hspace]
    split
    case h_1 heq => exact absurd (cons.inj heq).1 hminus
    case h_2 heq => exact absurd (cons.inj heq).1 hplus
    case h_3 => rfl

/-- Every `int` printed with `%d` is read back by `atoi`, after any white space and without an
overflow on the way. -/
theorem atoi_snprintf (mem : Bytes) (v : BitVec 32) (args : VaList) (buffer : Buffer)
    (hsize : 12 ≤ buffer.size) (white : List UInt8) (hwhite : ∀ ch ∈ white, isspace ch) :
    ∃ stored length, vsnprintf mem buffer.size [37, 100] (Stream'.cons v args) =
        some (stored, length) ∧
      atoi (white ++ stored) = some v.toInt := by
  obtain ⟨ds, hmem, hlen, hvalue, hprint⟩ := vprintf_plainD mem v args
  have hlow := BitVec.le_toInt (x := v)
  have hhigh := BitVec.toInt_lt (x := v)
  have hread := atoiDigits_eq hmem 0 (by omega)
  refine ⟨_, _, by rw [vsnprintf_eq, hprint]; rfl, ?_⟩
  have hstored : snprintf buffer.size ((if v.toInt < 0 then [45] else []) ++ ds) =
      (if v.toInt < 0 then [45] else []) ++ (ds ++ [0]) := by
    rw [snprintf, if_neg (by omega), take_of_length_le, append_assoc]
    split <;> simp <;> omega
  rw [hstored, atoi_white hwhite]
  by_cases hneg : v.toInt < 0
  · have hminus : atoi (45 :: (ds ++ [0])) = atoiDigits (ds ++ [0]) 0 := rfl
    rw [if_pos hneg, singleton_append, hminus]
    exact hread.trans (congrArg some (by omega))
  · rw [if_neg hneg, nil_append, atoi_digits hmem]
    refine (congrArg (fun r => r.bind fun value => checkInt (-value)) hread).trans ?_
    rw [Option.bind_some, show -(-((ds.foldl shiftIn 0 : Nat) : Int)) = v.toInt by omega]
    exact if_pos (by omega)

/-- `INT_MIN` after a blank and a tab, through a buffer of twelve bytes. -/
theorem atoi_snprintf_intMin :
    ∃ stored length, vsnprintf (fun _ => 0) 12 [37, 100]
        (Stream'.cons (BitVec.intMin 32) fun _ => 0) = some (stored, length) ∧
      atoi ([32, 9] ++ stored) = some (-2147483648) :=
  atoi_snprintf (fun _ => 0) (BitVec.intMin 32) (fun _ => 0) ⟨12, by decide⟩ (by decide) [32, 9]
    (by decide +kernel)

end Pintos.Lib
