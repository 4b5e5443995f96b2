import Mathlib.Tactic.Linarith
import Mathlib.Tactic.Ring

/-!
# 64-bit division (lib/arithmetic.c)

The routines that the compiler calls for `/` and `%` on 64-bit numbers, built on the
processor's division of 64 by 32 bits. `none` is a divide error. Signed numbers are in two's
complement and their arithmetic wraps around.
-/

namespace Pintos.Lib

open Nat UInt32

/-- The instruction `divl` on `edx:eax`. It traps if the quotient has more than 32 bits. -/
def divInstruction (edx eax d : UInt32) : Option (UInt32 × UInt32) :=
  let n := edx.toNat * 4294967296 + eax.toNat
  if d ≠ 0 ∧ n / d.toNat < 4294967296 then
    some (UInt32.ofNat (n / d.toNat), UInt32.ofNat (n % d.toNat))
  else none

def divl (n : UInt64) (d : UInt32) : Option UInt32 :=
  let n1 := (n >>> 32).toUInt32
  let n0 := n.toUInt32
  (divInstruction n1 n0 d).map Prod.fst

/-- A test of `nlz`: the count and the shifted number. -/
def nlzStep (bound : UInt32) (k : Nat) (s : Nat × UInt32) : Nat × UInt32 :=
  if s.2 ≤ bound then (s.1 + k, s.2 <<< UInt32.ofNat k) else s

def nlz (x : UInt32) : Nat :=
  let s := nlzStep 0x0000FFFF 16 (0, x)
  let s := nlzStep 0x00FFFFFF 8 s
  let s := nlzStep 0x0FFFFFFF 4 s
  let s := nlzStep 0x3FFFFFFF 2 s
  if s.2 ≤ 0x7FFFFFFF then s.1 + 1 else s.1

def udiv64 (n d : UInt64) : Option UInt64 :=
  if d >>> 32 = 0 then
    let b := (1 : UInt64) <<< 32
    let n1 := (n >>> 32).toUInt32
    let n0 := n.toUInt32
    let d0 := d.toUInt32
    (divl (b * (n1 % d0).toUInt64 + n0.toUInt64) d0).map fun q =>
      q.toUInt64 + b * (n1 / d0).toUInt64
  else if n < d then some 0
  else
    let d1 := (d >>> 32).toUInt32
    let s := nlz d1
    (divl (n >>> 1) ((d <<< UInt64.ofNat s) >>> 32).toUInt32).map fun q =>
      let q := (q >>> UInt32.ofNat (31 - s)).toUInt64
      if n - (q - 1) * d < d then q - 1 else q

/-- The result has 32 bits. -/
def umod64 (n d : UInt64) : Option UInt32 := (udiv64 n d).map fun q => (n - d * q).toUInt32

def abs64 (n : Int64) : UInt64 := if 0 ≤ n then n.toUInt64 else -n.toUInt64

def sdiv64 (n d : Int64) : Option Int64 :=
  (udiv64 (abs64 n) (abs64 d)).map fun q =>
    if decide (n < 0) = decide (d < 0) then q.toInt64 else -q.toInt64

/-- The result has 32 bits. -/
def smod64 (n d : Int64) : Option Int32 := (sdiv64 n d).map fun q => (n - d * q).toInt32

def divdi3 (n d : Int64) : Option Int64 := sdiv64 n d

def moddi3 (n d : Int64) : Option Int64 := (smod64 n d).map Int32.toInt64

def udivdi3 (n d : UInt64) : Option UInt64 := udiv64 n d

def umoddi3 (n d : UInt64) : Option UInt64 := (umod64 n d).map UInt32.toUInt64

/-- What the tests of `nlz` know of `x`: the number so far is `x` shifted by the count, and it
is at least `low`. -/
structure Shifted (x : UInt32) (low : Nat) (s : Nat × UInt32) : Prop where
  value : s.2.toNat = x.toNat * 2 ^ s.1
  low : low ≤ s.2.toNat

variable {x : UInt32} {n d : UInt64}

lemma Shifted.step {low : Nat} {s : Nat × UInt32} (h : Shifted x low s) (bound : UInt32)
    (k : Nat) (hk : k < 32) (hbound : (bound.toNat + 1) * 2 ^ k = 4294967296)
    (hlow : bound.toNat + 1 ≤ low * 2 ^ k) : Shifted x (bound.toNat + 1) (nlzStep bound k s) := by
  unfold nlzStep
  split
  next hle =>
    have hle' : s.2.toNat ≤ bound.toNat := le_iff_toNat_le.mp hle
    have hpos : 0 < 2 ^ k := Nat.two_pow_pos k
    have hfits : s.2.toNat * 2 ^ k < 4294967296 := by
      rw [← hbound]
      exact mul_lt_mul_of_pos_right (lt_succ_of_le hle') hpos
    have hshift : (s.2 <<< ofNat k).toNat = s.2.toNat * 2 ^ k := by
      have hkmod : (ofNat k).toNat % 32 = k := by
        rw [toNat_ofNat_of_lt' (by simp [UInt32.size]; omega)]
        exact mod_eq_of_lt hk
      rw [UInt32.toNat_shiftLeft, hkmod, shiftLeft_eq]
      exact mod_eq_of_lt hfits
    refine ⟨?_, ?_⟩
    · rw [hshift, h.value, pow_add, mul_assoc]
    · rw [hshift]
      exact hlow.trans (mul_le_mul_right _ h.low)
  next hgt =>
    have hgt' : ¬ s.2.toNat ≤ bound.toNat := fun hle => hgt (le_iff_toNat_le.mpr hle)
    exact ⟨h.value, by omega⟩

lemma nlz_spec (hx : x ≠ 0) :
    2147483648 ≤ x.toNat * 2 ^ nlz x ∧ x.toNat * 2 ^ nlz x < 4294967296 := by
  have hpos : 1 ≤ x.toNat := by
    have hne : x.toNat ≠ 0 := fun h => hx (UInt32.toNat_inj.mp h)
    omega
  have h0 : Shifted x 1 (0, x) := ⟨by simp, hpos⟩
  have h1 := h0.step 0x0000FFFF 16 (by decide) (by decide) (by decide)
  have h2 := h1.step 0x00FFFFFF 8 (by decide) (by decide) (by decide)
  have h3 := h2.step 0x0FFFFFFF 4 (by decide) (by decide) (by decide)
  have h4 := h3.step 0x3FFFFFFF 2 (by decide) (by decide) (by decide)
  unfold nlz
  dsimp only
  generalize nlzStep _ _ _ = s at h4 ⊢
  have hlow : 1073741824 ≤ s.2.toNat := h4.low
  have hlt := s.2.toNat_lt
  split
  next hle =>
    have hle' : s.2.toNat ≤ 2147483647 := le_iff_toNat_le.mp hle
    rw [pow_succ, ← mul_assoc, ← h4.value]
    omega
  next hgt =>
    have hgt' : ¬ s.2.toNat ≤ 2147483647 := fun hle => hgt (le_iff_toNat_le.mpr hle)
    rw [← h4.value]
    omega

lemma nlz_le (hx : x ≠ 0) : nlz x ≤ 31 := by
  have hpos : 1 ≤ x.toNat := by
    have hne : x.toNat ≠ 0 := fun h => hx (UInt32.toNat_inj.mp h)
    omega
  have hlt : 2 ^ nlz x < 2 ^ 32 :=
    Nat.lt_of_le_of_lt (Nat.le_mul_of_pos_left _ hpos) (nlz_spec hx).2
  exact Nat.lt_succ_iff.mp ((Nat.pow_lt_pow_iff_right (by decide)).mp hlt)

section Quotients

lemma div_digits (b n1 n0 : Nat) {d : Nat} (hd : 0 < d) :
    (b * (n1 % d) + n0) / d + b * (n1 / d) = (b * n1 + n0) / d := by
  have hsplit : b * n1 + n0 = b * (n1 % d) + n0 + d * (b * (n1 / d)) := by
    have hn := mod_add_div n1 d
    calc b * n1 + n0 = b * (n1 % d + d * (n1 / d)) + n0 := by rw [hn]
      _ = b * (n1 % d) + n0 + d * (b * (n1 / d)) := by ring
  rw [hsplit, add_mul_div_left _ _ hd]

lemma div_digits_lt (n1 : Nat) {b n0 d : Nat} (hd : 0 < d) (hn0 : n0 < b) :
    (b * (n1 % d) + n0) / d < b := by
  have hmod := mod_lt n1 hd
  rw [div_lt_iff_lt_mul hd]
  calc b * (n1 % d) + n0 < b * (n1 % d) + b := Nat.add_lt_add_left hn0 _
    _ = b * (n1 % d + 1) := by ring
    _ ≤ b * d := mul_le_mul_left b hmod

variable {n d e p v : Nat}

/-- The quotient by a divisor cut off to a multiple `v * p` is too large by less than two. -/
lemma estimate_lt (hn : n < 18446744073709551616) (hv : 2147483648 ≤ v) (hp : 2 ≤ p)
    (hle : v * p ≤ d) (hlt : d < v * p + p) : n / (v * p) * d < n + d := by
  obtain ⟨r, rfl⟩ := Nat.exists_eq_add_of_le hle
  have hvp : 2147483648 * p ≤ v * p := mul_le_mul_right p hv
  -- the error of the divisor, weighed with the dividend
  have hfloor : n / (v * p) * (v * p) ≤ n := div_mul_le_self n (v * p)
  have hscaled : n / (v * p) * (v * p + r) * (v * p) < (n + (v * p + r)) * (v * p) := by
    calc n / (v * p) * (v * p + r) * (v * p) = n / (v * p) * (v * p) * (v * p + r) := by ring
      _ ≤ n * (v * p + r) := mul_le_mul_right _ hfloor
      _ < (n + (v * p + r)) * (v * p) := by nlinarith
  exact Nat.lt_of_mul_lt_mul_right hscaled

/-- The correction of an estimate that is too large by at most one. -/
lemma corrected_quotient {q : Nat} (hle : n / d ≤ q) (hq : q * d < n + d) (hpos : 1 ≤ q)
    (hd : 0 < d) : (if n - (q - 1) * d < d then q - 1 else q) = n / d := by
  obtain ⟨m, rfl⟩ := Nat.exists_eq_add_of_le' hpos
  rw [Nat.add_sub_cancel, Nat.succ_mul] at *
  have hm : m * d ≤ n := by omega
  split
  next hlt => exact (Nat.div_eq_of_lt_le hm (by rw [Nat.succ_mul]; omega)).symm
  next hge =>
    refine le_antisymm ?_ hle
    rw [le_div_iff_mul_le hd, succ_mul]
    omega

/-- A divisor shifted up until its highest bit is set: its upper half is the divisor without
its lowest bits. -/
lemma shifted_divisor {s : Nat} (hs : s ≤ 31) (hlow : 2147483648 ≤ d / 4294967296 * 2 ^ s)
    (hhigh : d / 4294967296 * 2 ^ s < 4294967296) :
    d * 2 ^ s < 18446744073709551616 ∧ d * 2 ^ s / 4294967296 = d / 2 ^ (32 - s) ∧
      2147483648 ≤ d / 2 ^ (32 - s) := by
  have hpos : 0 < 2 ^ s := Nat.two_pow_pos s
  have hpow : 4294967296 = 2 ^ (32 - s) * 2 ^ s := by
    rw [← Nat.pow_add, Nat.sub_add_cancel (by omega)]
  have hhalf : d * 2 ^ s / 4294967296 = d / 2 ^ (32 - s) := by
    rw [hpow, Nat.mul_div_mul_right _ _ hpos]
  have hfloor : d / 4294967296 * 4294967296 ≤ d := div_mul_le_self d 4294967296
  refine ⟨?_, hhalf, ?_⟩
  · -- a multiple of `2 ^ s` below `2 ^ 32` leaves room for another one
    have hroom : (d / 4294967296 + 1) * 2 ^ s ≤ 4294967296 := by
      rw [hpow] at hhigh ⊢
      exact Nat.mul_le_mul_right _ (Nat.lt_of_mul_lt_mul_right hhigh)
    have hd : d < (d / 4294967296 + 1) * 4294967296 := by omega
    calc d * 2 ^ s < (d / 4294967296 + 1) * 4294967296 * 2 ^ s :=
          mul_lt_mul_of_pos_right hd hpos
      _ = (d / 4294967296 + 1) * 2 ^ s * 4294967296 := by ring
      _ ≤ 4294967296 * 4294967296 := mul_le_mul_right _ hroom
  · rw [← hhalf, le_div_iff_mul_le (by decide)]
    calc 2147483648 * 4294967296 ≤ d / 4294967296 * 2 ^ s * 4294967296 :=
          mul_le_mul_right _ hlow
      _ = d / 4294967296 * 4294967296 * 2 ^ s := by ring
      _ ≤ d * 2 ^ s := mul_le_mul_right _ hfloor

end Quotients

/-! ## Unsigned division -/

lemma toNat_high (n : UInt64) : (n >>> 32).toUInt32.toNat = n.toNat / 4294967296 := by
  have hn := n.toNat_lt
  have hshift : (n >>> 32).toNat = n.toNat / 4294967296 := by
    rw [UInt64.toNat_shiftRight, shiftRight_eq_div_pow]
    rfl
  rw [UInt64.toNat_toUInt32, hshift]
  omega

lemma toNat_low (n : UInt64) : n.toUInt32.toNat = n.toNat % 4294967296 := UInt64.toNat_toUInt32 n

lemma divl_eq {d : UInt32} (hd : d ≠ 0) (hq : n.toNat / d.toNat < 4294967296) :
    ∃ q, divl n d = some q ∧ q.toNat = n.toNat / d.toNat := by
  have hn : (n >>> 32).toUInt32.toNat * 4294967296 + n.toUInt32.toNat = n.toNat := by
    rw [toNat_high, toNat_low]
    omega
  refine ⟨ofNat (n.toNat / d.toNat), ?_, toNat_ofNat_of_lt' hq⟩
  rw [divl, divInstruction, hn, if_pos ⟨hd, hq⟩]
  rfl

lemma toNat_ne_zero (hd : d ≠ 0) : 0 < d.toNat :=
  pos_of_ne_zero fun h => hd (UInt64.toNat_inj.mp h)

lemma udiv64_short (hd : d ≠ 0) (hshort : d.toNat < 4294967296) :
    ∃ q, udiv64 n d = some q ∧ q.toNat = n.toNat / d.toNat := by
  have hn := n.toNat_lt
  have hpos := toNat_ne_zero hd
  have hhigh : d >>> 32 = 0 := by
    apply UInt64.toNat_inj.mp
    rw [UInt64.toNat_shiftRight, shiftRight_eq_div_pow]
    exact div_eq_of_lt hshort
  have hd0 : d.toUInt32.toNat = d.toNat := by
    rw [toNat_low]
    exact mod_eq_of_lt hshort
  have hd0' : d.toUInt32 ≠ 0 := by
    intro h
    rw [h] at hd0
    exact Nat.ne_of_lt hpos hd0
  have hb : ((1 : UInt64) <<< 32).toNat = 4294967296 := rfl
  have hn1 := toNat_high n
  have hn0 := toNat_low n
  rw [udiv64, if_pos hhigh]
  dsimp only
  generalize (n >>> 32).toUInt32 = n1 at hn1 ⊢
  generalize n.toUInt32 = n0 at hn0 ⊢
  generalize (1 : UInt64) <<< 32 = b at hb ⊢
  generalize d.toUInt32 = d0 at hd0 hd0' ⊢
  have hdigits := div_digits 4294967296 n1.toNat n0.toNat hpos
  have hlast := div_digits_lt n1.toNat hpos n0.toNat_lt
  have hmod := mod_lt n1.toNat hpos
  have hdividend : (b * (n1 % d0).toUInt64 + n0.toUInt64).toNat =
      4294967296 * (n1.toNat % d.toNat) + n0.toNat := by
    rw [UInt64.toNat_add, UInt64.toNat_mul, UInt32.toNat_toUInt64, UInt32.toNat_toUInt64,
      UInt32.toNat_mod, hb, hd0]
    omega
  obtain ⟨q, hdivl, hq⟩ := divl_eq (n := b * (n1 % d0).toUInt64 + n0.toUInt64) hd0'
    (by rw [hdividend, hd0]; exact hlast)
  rw [hdividend, hd0] at hq
  refine ⟨_, by rw [hdivl]; rfl, ?_⟩
  have hsum : 4294967296 * n1.toNat + n0.toNat = n.toNat := by omega
  rw [hsum] at hdigits
  have hle := div_le_self n.toNat d.toNat
  rw [UInt64.toNat_add, UInt64.toNat_mul, UInt32.toNat_toUInt64, UInt32.toNat_toUInt64,
    UInt32.toNat_div, hb, hd0, hq]
  omega

lemma toNat_corrected {q : UInt64} (hpos : 1 ≤ q.toNat) (hle : (q.toNat - 1) * d.toNat ≤ n.toNat) :
    (if n - (q - 1) * d < d then q - 1 else q).toNat =
      if n.toNat - (q.toNat - 1) * d.toNat < d.toNat then q.toNat - 1 else q.toNat := by
  have hn := n.toNat_lt
  have hpred : (q - 1).toNat = q.toNat - 1 :=
    UInt64.toNat_sub_of_le q 1 (UInt64.le_iff_toNat_le.mpr hpos)
  have hmul : ((q - 1) * d).toNat = (q.toNat - 1) * d.toNat := by
    rw [UInt64.toNat_mul, hpred]
    exact mod_eq_of_lt (by omega)
  have hsub : (n - (q - 1) * d).toNat = n.toNat - (q.toNat - 1) * d.toNat := by
    rw [UInt64.toNat_sub_of_le _ _ (UInt64.le_iff_toNat_le.mpr (by rw [hmul]; exact hle)), hmul]
  simp only [UInt64.lt_iff_toNat_lt, hsub]
  split
  · exact hpred
  · rfl

/-- The quotient of the highest bits is that by the divisor without its lowest bits. -/
lemma divl_estimate (n : UInt64) {s : Nat} (hs : s ≤ 31)
    (hlow : 2147483648 ≤ d.toNat / 4294967296 * 2 ^ s)
    (hhigh : d.toNat / 4294967296 * 2 ^ s < 4294967296) :
    ∃ q, divl (n >>> 1) ((d <<< UInt64.ofNat s) >>> 32).toUInt32 = some q ∧
      (q >>> UInt32.ofNat (31 - s)).toUInt64.toNat =
        n.toNat / (d.toNat / 2 ^ (32 - s) * 2 ^ (32 - s)) := by
  have hn := n.toNat_lt
  obtain ⟨hfits, hhalf, hv⟩ := shifted_divisor hs hlow hhigh
  have hshift : (d <<< UInt64.ofNat s).toNat = d.toNat * 2 ^ s := by
    have hsmod : (UInt64.ofNat s).toNat % 64 = s := by
      rw [UInt64.toNat_ofNat_of_lt' (by simp [UInt64.size]; omega)]
      omega
    rw [UInt64.toNat_shiftLeft, hsmod, Nat.shiftLeft_eq]
    exact Nat.mod_eq_of_lt hfits
  have hupper := toNat_high (d <<< UInt64.ofNat s)
  rw [hshift, hhalf] at hupper
  have hhalved : (n >>> 1).toNat = n.toNat / 2 := by
    rw [UInt64.toNat_shiftRight, Nat.shiftRight_eq_div_pow]
    rfl
  generalize ((d <<< UInt64.ofNat s) >>> 32).toUInt32 = v at hupper ⊢
  rw [← hupper] at hv ⊢
  have hv' : v ≠ 0 := by
    rintro rfl
    exact absurd hv (by decide)
  have hquotient : (n >>> 1).toNat / v.toNat < 4294967296 := by
    rw [hhalved, Nat.div_lt_iff_lt_mul (by omega)]
    omega
  obtain ⟨q, hdivl, hq⟩ := divl_eq hv' hquotient
  refine ⟨q, hdivl, ?_⟩
  have hsmod : (UInt32.ofNat (31 - s)).toNat % 32 = 31 - s := by
    rw [UInt32.toNat_ofNat_of_lt' (by simp [UInt32.size]; omega)]
    omega
  have hpow : 2 ^ (32 - s) = 2 * 2 ^ (31 - s) := by
    rw [← Nat.pow_succ']
    congr 1
    omega
  rw [UInt32.toNat_toUInt64, UInt32.toNat_shiftRight, hsmod, Nat.shiftRight_eq_div_pow, hq, hhalved,
    Nat.div_div_eq_div_mul, Nat.div_div_eq_div_mul, hpow]
  congr 1
  ring

lemma udiv64_long (hlong : 4294967296 ≤ d.toNat) :
    ∃ q, udiv64 n d = some q ∧ q.toNat = n.toNat / d.toNat := by
  have hd1 := toNat_high d
  have hhigh : ¬ d >>> 32 = 0 := by
    intro h
    have hzero : (d >>> 32).toUInt32.toNat = 0 := by
      rw [h]
      rfl
    omega
  rw [udiv64, if_neg hhigh]
  by_cases hlt : n < d
  · refine ⟨0, if_pos hlt, ?_⟩
    rw [div_eq_of_lt (UInt64.lt_iff_toNat_lt.mp hlt)]
    rfl
  have hge : d.toNat ≤ n.toNat := not_lt.mp fun h => hlt (UInt64.lt_iff_toNat_lt.mpr h)
  rw [if_neg hlt]
  dsimp only
  generalize (d >>> 32).toUInt32 = d1 at hd1 ⊢
  have hd1' : d1 ≠ 0 := by
    rintro rfl
    have hzero : (0 : UInt32).toNat = 0 := rfl
    omega
  obtain ⟨hlow, hhigh⟩ := nlz_spec hd1'
  have hs := nlz_le hd1'
  generalize nlz d1 = s at hlow hhigh hs ⊢
  rw [hd1] at hlow hhigh
  obtain ⟨q, hdivl, hq⟩ := divl_estimate n hs hlow hhigh
  refine ⟨_, by rw [hdivl]; rfl, ?_⟩
  dsimp only
  generalize (q >>> ofNat (31 - s)).toUInt64 = e at hq ⊢
  have hv := (shifted_divisor hs hlow hhigh).2.2
  have hp : 2 ^ 1 ≤ 2 ^ (32 - s) := Nat.pow_le_pow_right (by decide) (by omega)
  have hcut := div_mul_le_self d.toNat (2 ^ (32 - s))
  have herror := estimate_lt n.toNat_lt hv hp hcut (lt_div_mul_add (by omega))
  have hover : n.toNat / d.toNat ≤ e.toNat := by
    rw [hq]
    exact div_le_div_left hcut (mul_pos (by omega) (by omega))
  rw [← hq] at herror
  have hone : 1 ≤ e.toNat := (div_pos hge (by omega)).trans_le hover
  have hle : (e.toNat - 1) * d.toNat ≤ n.toNat := by
    rw [Nat.sub_mul, Nat.one_mul]
    omega
  rw [toNat_corrected hone hle]
  exact corrected_quotient hover herror hone (by omega)

/-- `udiv64` divides, and no `divl` on the way traps. -/
lemma udiv64_eq (n : UInt64) (hd : d ≠ 0) :
    ∃ q, udiv64 n d = some q ∧ q.toNat = n.toNat / d.toNat := by
  rcases lt_or_ge d.toNat 4294967296 with hshort | hlong
  · exact udiv64_short hd hshort
  · exact udiv64_long hlong

lemma toInt_eq_bmod (n : Int64) : n.toInt = (n.toUInt64.toNat : Int).bmod 18446744073709551616 :=
  BitVec.toInt_eq_toNat_bmod n.toBitVec

lemma toNat_abs64 (n : Int64) : (abs64 n).toNat = n.toInt.natAbs := by
  have hlt := n.toUInt64.toNat_lt
  have hbmod := toInt_eq_bmod n
  rw [Int.bmod_def] at hbmod
  unfold abs64
  split
  next h =>
    have hnonneg : 0 ≤ n.toInt := Int64.le_iff_toInt_le.mp h
    split at hbmod <;> omega
  next h =>
    have hneg : ¬ 0 ≤ n.toInt := fun hle => h (Int64.le_iff_toInt_le.mpr hle)
    have hsize : UInt64.size = 18446744073709551616 := rfl
    rw [UInt64.toNat_neg, hsize]
    split at hbmod <;> omega

lemma toInt64_eq_ofInt (q : UInt64) : q.toInt64 = Int64.ofInt q.toNat := by
  apply Int64.toInt_inj.mp
  rw [Int64.toInt_ofInt]
  exact toInt_eq_bmod q.toInt64

lemma tdiv_eq (n d : Int) :
    n.tdiv d = if decide (n < 0) = decide (d < 0) then ((n.natAbs / d.natAbs : Nat) : Int)
      else -((n.natAbs / d.natAbs : Nat) : Int) := by
  by_cases hn : n < 0
  · have hn' : n = -(n.natAbs : Int) := by omega
    by_cases hd : d < 0
    · have hd' : d = -(d.natAbs : Int) := by omega
      rw [if_pos (by simp [hn, hd])]
      nth_rewrite 1 [hn', hd']
      rw [Int.neg_tdiv, Int.tdiv_neg, Int.neg_neg]
      rfl
    · have hd' : d = (d.natAbs : Int) := by omega
      rw [if_neg (by simp [hn, hd])]
      nth_rewrite 1 [hn', hd']
      rw [Int.neg_tdiv]
      rfl
  · have hn' : n = (n.natAbs : Int) := by omega
    by_cases hd : d < 0
    · have hd' : d = -(d.natAbs : Int) := by omega
      rw [if_neg (by simp [hn, hd])]
      nth_rewrite 1 [hn', hd']
      rw [Int.tdiv_neg]
      rfl
    · have hd' : d = (d.natAbs : Int) := by omega
      rw [if_pos (by simp [hn, hd])]
      nth_rewrite 1 [hn', hd']
      rfl

lemma sdiv64_eq (n : Int64) {d : Int64} (hd : d ≠ 0) :
    sdiv64 n d = some (Int64.ofInt (n.toInt.tdiv d.toInt)) := by
  have habs : abs64 d ≠ 0 := by
    intro h
    have hzero := toNat_abs64 d
    rw [h] at hzero
    have hint : d.toInt = 0 := Int.natAbs_eq_zero.mp hzero.symm
    exact hd (Int64.toInt_inj.mp hint)
  obtain ⟨q, hdiv, hq⟩ := udiv64_eq (abs64 n) habs
  rw [toNat_abs64, toNat_abs64] at hq
  have hn : (n < 0) = (n.toInt < 0) := propext Int64.lt_iff_toInt_lt
  have hd' : (d < 0) = (d.toInt < 0) := propext Int64.lt_iff_toInt_lt
  rw [sdiv64, hdiv, tdiv_eq, ← hq, Option.map_some, toInt64_eq_ofInt, apply_ite Int64.ofInt,
    Int64.ofInt_neg]
  simp only [hn, hd']

lemma divl_isSome_iff (n : UInt64) (d : UInt32) :
    (divl n d).isSome = true ↔ d ≠ 0 ∧ n.toNat / d.toNat < 4294967296 := by
  have hn : (n >>> 32).toUInt32.toNat * 4294967296 + n.toUInt32.toNat = n.toNat := by
    rw [toNat_high, toNat_low]
    omega
  rw [divl, divInstruction, hn, Option.isSome_map]
  split
  next h => exact iff_of_true rfl h
  next h => exact iff_of_false Bool.false_ne_true h

/-- Unsigned division is exact and signed division truncates, modulo `2 ^ 64`. -/
theorem division_exact (n d : UInt64) (m e : Int64) :
    (∀ (k : UInt64) (v : UInt32),
      (divl k v).isSome = true ↔ v ≠ 0 ∧ k.toNat / v.toNat < 4294967296) ∧
    (d ≠ 0 → ∃ q, udiv64 n d = some q ∧ q.toNat = n.toNat / d.toNat) ∧
    (e ≠ 0 → sdiv64 m e = some (Int64.ofInt (m.toInt.tdiv e.toInt))) :=
  ⟨divl_isSome_iff, udiv64_eq n, sdiv64_eq m⟩

theorem division_exact_largest :
    (∃ q, udiv64 18446744073709551615 4294967297 = some q ∧ q.toNat = 4294967295) ∧
      sdiv64 (-9223372036854775808) (-1) = some (-9223372036854775808) := by
  have h := division_exact 18446744073709551615 4294967297 (-9223372036854775808) (-1)
  exact ⟨h.2.1 (by decide), h.2.2 (by decide)⟩

lemma umoddi3_eq (n : UInt64) (hd : d ≠ 0) :
    ∃ r, umoddi3 n d = some r ∧ r.toNat = n.toNat % d.toNat % 4294967296 := by
  obtain ⟨q, hdiv, hq⟩ := udiv64_eq n hd
  have hn := n.toNat_lt
  have hmul : (d * q).toNat = d.toNat * (n.toNat / d.toNat) := by
    have hle := mul_div_le n.toNat d.toNat
    rw [UInt64.toNat_mul, hq]
    exact mod_eq_of_lt (by omega)
  have hsub : (n - d * q).toNat = n.toNat % d.toNat := by
    have hle : (d * q).toNat ≤ n.toNat := by
      rw [hmul]
      exact mul_div_le n.toNat d.toNat
    rw [UInt64.toNat_sub_of_le _ _ (UInt64.le_iff_toNat_le.mpr hle), hmul, mod_eq_sub]
  refine ⟨(n - d * q).toUInt32.toUInt64, ?_, ?_⟩
  · rw [umoddi3, umod64, hdiv]
    rfl
  · rw [UInt32.toNat_toUInt64, UInt64.toNat_toUInt32, hsub]

lemma toInt_sub_mul_tdiv (n : Int64) {d : Int64} (hd : d ≠ 0) :
    (n - d * Int64.ofInt (n.toInt.tdiv d.toInt)).toInt = n.toInt.tmod d.toInt := by
  have hd' : d.toInt ≠ 0 := fun h => hd (Int64.toInt_inj.mp h)
  have hbound : (n.toInt.tmod d.toInt).natAbs < d.toInt.natAbs := by
    rw [Int.natAbs_tmod]
    exact mod_lt _ (Int.natAbs_pos.mpr hd')
  have hlow := d.le_toInt
  have hhigh := d.toInt_lt
  have hsub : n.toInt - d.toInt * n.toInt.tdiv d.toInt = n.toInt.tmod d.toInt := by
    have hsum := Int.mul_tdiv_add_tmod n.toInt d.toInt
    omega
  rw [Int64.toInt_sub, Int64.toInt_mul, Int64.toInt_ofInt]
  have hsize : Int64.size = 2 ^ 64 := rfl
  rw [hsize, Int.mul_bmod_bmod, Int.sub_bmod_bmod, hsub]
  exact Int.bmod_eq_of_le (by omega) (by omega)

lemma moddi3_eq (n : Int64) {d : Int64} (hd : d ≠ 0) :
    ∃ r, moddi3 n d = some r ∧ r.toInt = (n.toInt.tmod d.toInt).bmod 4294967296 := by
  refine ⟨(n - d * Int64.ofInt (n.toInt.tdiv d.toInt)).toInt32.toInt64, ?_, ?_⟩
  · rw [moddi3, smod64, sdiv64_eq n hd]
    rfl
  · rw [Int32.toInt_toInt64, Int64.toInt_toInt32, toInt_sub_mul_tdiv n hd]

lemma bmod_eq_iff (x : Int) : x.bmod 4294967296 = x ↔ -2147483648 ≤ x ∧ x < 2147483648 := by
  constructor
  · intro h
    have hlow := Int.le_bmod (x := x) (m := 4294967296) (by decide)
    have hhigh := Int.bmod_lt (x := x) (m := 4294967296) (by decide)
    omega
  · intro h
    exact Int.bmod_eq_of_le (by omega) (by omega)

/-- A remainder comes out right exactly if it has 32 bits. -/
theorem remainder_iff (n d : UInt64) (m e : Int64) :
    (d ≠ 0 → ∃ r, umoddi3 n d = some r ∧ (r = n % d ↔ n.toNat % d.toNat < 4294967296)) ∧
    (e ≠ 0 → ∃ q r, divdi3 m e = some q ∧ moddi3 m e = some r ∧
      (r.toInt = m.toInt.tmod e.toInt ↔
        -2147483648 ≤ m.toInt.tmod e.toInt ∧ m.toInt.tmod e.toInt < 2147483648) ∧
      (m = e * q + r ↔
        -2147483648 ≤ m.toInt.tmod e.toInt ∧ m.toInt.tmod e.toInt < 2147483648)) := by
  constructor
  · intro hd
    obtain ⟨r, hmod, hr⟩ := umoddi3_eq n hd
    refine ⟨r, hmod, ?_⟩
    rw [← UInt64.toNat_inj, UInt64.toNat_mod, hr]
    omega
  · intro he
    obtain ⟨r, hmod, hr⟩ := moddi3_eq m he
    have hexact := toInt_sub_mul_tdiv m he
    have hiff : r.toInt = m.toInt.tmod e.toInt ↔
        -2147483648 ≤ m.toInt.tmod e.toInt ∧ m.toInt.tmod e.toInt < 2147483648 := by
      rw [hr]
      exact bmod_eq_iff _
    refine ⟨_, r, sdiv64_eq m he, hmod, hiff, ?_⟩
    rw [← hiff, ← hexact, Int64.toInt_inj]
    generalize Int64.ofInt (m.toInt.tdiv e.toInt) = q
    constructor
    · intro h
      rw [h, Int64.add_comm, Int64.add_sub_cancel]
    · intro h
      rw [h, Int64.add_comm, Int64.sub_add_cancel]

theorem remainder_iff_small :
    (∃ r, umoddi3 10 4 = some r ∧ (r = 10 % 4 ↔ 10 % 4 < 4294967296)) ∧
      ∃ q r, divdi3 (-7) 2 = some q ∧ moddi3 (-7) 2 = some r ∧ r.toInt = -1 ∧ -7 = 2 * q + r := by
  have h := remainder_iff 10 4 (-7) 2
  refine ⟨h.1 (by decide), ?_⟩
  obtain ⟨q, r, hq, hr, hrem, hsum⟩ := h.2 (by decide)
  exact ⟨q, r, hq, hr, hrem.mpr (by decide), hsum.mpr (by decide)⟩

/-- `2 ^ 32 % 2 ^ 33` and `2 ^ 31 % 2 ^ 32`. -/
theorem remainder_cut_off :
    umoddi3 4294967296 8589934592 = some 0 ∧
      moddi3 2147483648 4294967296 = some (-2147483648) := by
  decide

end Pintos.Lib
