import Mathlib.Data.Nat.Bitwise
import Mathlib.Data.Vector.Basic

/-!
# The random number generator (lib/random.c)

The bytes of `s` are indexed by bytes, so no access is out of bounds.
-/

namespace Pintos.Lib

structure Random where
  s : Vector UInt8 256
  sI : UInt8
  sJ : UInt8
  inited : Bool

def swapByte (s : Vector UInt8 256) (a b : UInt8) : Vector UInt8 256 :=
  (s.set a.toNat (s.get b.toFin) a.toNat_lt).set b.toNat (s.get a.toFin) b.toNat_lt

/-- A byte of the seed in memory, lowest first. -/
def seedByte (seed : UInt32) (k : Nat) : UInt8 := UInt8.ofNat (seed.toNat / 256 ^ k)

/-- `s` and `j` after the first `i` rounds of the second loop of `random_init`. -/
def mixSeed (seed : UInt32) : Nat → Vector UInt8 256 × UInt8
  | 0 => (Vector.ofFn fun i => UInt8.ofNat i, 0)
  | i + 1 =>
      let (s, j) := mixSeed seed i
      let j := j + s.get (UInt8.ofNat i).toFin + seedByte seed (i % 4)
      (swapByte s (UInt8.ofNat i) j, j)

def randomInit (seed : UInt32) : Random := ⟨(mixSeed seed 256).1, 0, 0, true⟩

namespace Random

/-- One round of the loop of `random_bytes`. -/
def nextByte (r : Random) : UInt8 × Random :=
  let sI := r.sI + 1
  let sJ := r.sJ + r.s.get sI.toFin
  let s := swapByte r.s sI sJ
  let sK := s.get sI.toFin + s.get sJ.toFin
  (s.get sK.toFin, { r with s, sI, sJ })

def bytesLoop : Nat → Random → List UInt8 × Random
  | 0, r => ([], r)
  | size + 1, r =>
      let (byte, r) := r.nextByte
      let (bytes, r) := bytesLoop size r
      (byte :: bytes, r)

def randomBytes (r : Random) (size : Nat) : List UInt8 × Random :=
  bytesLoop size (if r.inited then r else randomInit 0)

/-- Four bytes as a number, lowest first. -/
def randomUlong (r : Random) : UInt32 × Random :=
  let (bytes, r) := r.randomBytes 4
  (UInt32.ofNat (bytes.foldr (fun byte n => byte.toNat + 256 * n) 0), r)

end Random

inductive RandomCall
  | bytes (size : Nat)
  | ulong

def Random.results (r : Random) : List RandomCall → List (List UInt8 ⊕ UInt32)
  | [] => []
  | .bytes size :: calls =>
      let (bytes, r) := r.randomBytes size
      .inl bytes :: r.results calls
  | .ulong :: calls =>
      let (ul, r) := r.randomUlong
      .inr ul :: r.results calls

section Code

/-- A byte of a number; the rounds are evaluated fast on numbers. -/
def byteAt (n i : Nat) : Nat := n >>> (8 * i) % 2 ^ 8

lemma byteAt_xor (n m i : Nat) : byteAt (n ^^^ m) i = byteAt n i ^^^ byteAt m i := by
  rw [byteAt, Nat.shiftRight_xor_distrib, Nat.xor_mod_two_pow]
  rfl

lemma byteAt_shiftLeft {d : Nat} (hd : d < 2 ^ 8) (a i : Nat) :
    byteAt (d <<< (8 * a)) i = if i = a then d else 0 := by
  rcases Nat.lt_trichotomy i a with h | rfl | h
  · obtain ⟨k, rfl⟩ := Nat.exists_eq_add_of_lt h
    rw [if_neg (by omega), byteAt, show 8 * (i + k + 1) = 8 + 8 * k + 8 * i by omega,
      Nat.shiftLeft_add, Nat.shiftLeft_shiftRight, Nat.add_comm, Nat.shiftLeft_add,
      Nat.shiftLeft_eq _ 8]
    exact Nat.mul_mod_left _ _
  · rw [if_pos rfl, byteAt, Nat.shiftLeft_shiftRight, Nat.mod_eq_of_lt hd]
  · obtain ⟨k, rfl⟩ := Nat.exists_eq_add_of_lt h
    rw [if_neg (by omega), byteAt, show 8 * (a + k + 1) = 8 * a + (8 + 8 * k) by omega,
      Nat.shiftRight_add, Nat.shiftLeft_shiftRight, Nat.shiftRight_add,
      Nat.shiftRight_eq_zero d 8 hd, Nat.zero_shiftRight, Nat.zero_mod]

/-- Exchanges two bytes of a number. -/
def swapCode (n a b : Nat) : Nat :=
  let d := byteAt n a ^^^ byteAt n b
  n ^^^ d <<< (8 * a) ^^^ d <<< (8 * b)

def mixCode (seed : Nat) : Nat → Nat × Nat
  | 0 => ((List.range 256).foldr (fun i n => i + 256 * n) 0, 0)
  | i + 1 =>
      let (n, j) := mixCode seed i
      let j := (j + byteAt n i + seed / 256 ^ (i % 4) % 256) % 256
      (swapCode n i j, j)

def Coded (s : Vector UInt8 256) (n : Nat) : Prop :=
  ∀ i : UInt8, byteAt n i.toNat = (s.get i.toFin).toNat

variable {s : Vector UInt8 256} {n : Nat}

lemma Coded.swapByte (h : Coded s n) (a b : UInt8) :
    Coded (swapByte s a b) (swapCode n a.toNat b.toNat) := by
  intro i
  have hget : (Lib.swapByte s a b).get i.toFin =
      if b = i then s.get a.toFin else if a = i then s.get b.toFin else s.get i.toFin := by
    have hi := i.toNat_lt
    show (Lib.swapByte s a b)[i.toNat] = _
    simp only [Lib.swapByte, Vector.getElem_set, UInt8.toNat_inj]
    rfl
  have hlt : byteAt n a.toNat ^^^ byteAt n b.toNat < 2 ^ 8 :=
    Nat.xor_lt_two_pow (Nat.mod_lt _ (by decide)) (Nat.mod_lt _ (by decide))
  rw [hget, swapCode, byteAt_xor, byteAt_xor, byteAt_shiftLeft hlt, byteAt_shiftLeft hlt]
  simp only [h a, h b, h i, UInt8.toNat_inj]
  by_cases ha : i = a <;> by_cases hb : i = b
  · simp [← ha, ← hb]
  · simp [← ha, Ne.symm hb, hb]
  · simp only [← hb, ha, if_true, if_false, Nat.xor_zero]
    rw [Nat.xor_left_comm, Nat.xor_self, Nat.xor_zero]
  · simp [ha, hb, Ne.symm ha, Ne.symm hb]

lemma coded_mixSeed (seed : UInt32) {i : Nat} (hi : i ≤ 256) :
    Coded (mixSeed seed i).1 (mixCode seed.toNat i).1 ∧
      (mixCode seed.toNat i).2 = (mixSeed seed i).2.toNat := by
  induction i with
  | zero =>
    have hstart : ∀ k < 256, byteAt (mixCode 0 0).1 k = k := by decide +kernel
    refine ⟨fun k => (hstart k.toNat k.toNat_lt).trans ?_, rfl⟩
    have hk := k.toNat_lt
    show k.toNat = ((mixSeed seed 0).1)[k.toNat].toNat
    rw [mixSeed, Vector.getElem_ofFn, UInt8.ofNat_toNat]
  | succ i ih =>
    obtain ⟨hs, hj⟩ := ih (by omega)
    have hmod : (UInt8.ofNat i).toNat = i := by simp; omega
    have hj' : (mixCode seed.toNat (i + 1)).2 = (mixSeed seed (i + 1)).2.toNat := by
      have hbyte := hs (UInt8.ofNat i)
      rw [hmod] at hbyte
      simp [mixCode, mixSeed, hj, hbyte, seedByte]
    refine ⟨?_, hj'⟩
    have hswap := hs.swapByte (UInt8.ofNat i) (mixSeed seed (i + 1)).2
    rwa [hmod, ← hj'] at hswap

/-- The byte that `random_bytes` returns first, from the number of `s`. -/
def firstCode (n : Nat) : Nat :=
  let n' := swapCode n 1 (byteAt n 1)
  byteAt n' ((byteAt n' 1 + byteAt n' (byteAt n 1)) % 256)

lemma Coded.nextByte (h : Coded s n) :
    (Random.nextByte ⟨s, 0, 0, true⟩).1 = UInt8.ofNat (firstCode n) := by
  have hone : byteAt n 1 = (s.get 1).toNat := h 1
  have hs : Coded _ (swapCode n 1 (s.get 1).toNat) := h.swapByte 1 (s.get 1)
  have hone' : byteAt (swapCode n 1 (s.get 1).toNat) 1 = _ := hs 1
  have hsum (a b : UInt8) : (a.toNat + b.toNat) % 256 = (a + b).toNat :=
    (UInt8.toNat_add a b).symm
  simp only [firstCode, hone]
  rw [hone', hs (s.get 1), hsum, hs, UInt8.ofNat_toNat]
  simp [Random.nextByte]

lemma results_firstCode (seed : UInt32) : (randomInit seed).results [.bytes 1] =
    [.inl [UInt8.ofNat (firstCode (mixCode seed.toNat 256).1)]] := by
  rw [← (coded_mixSeed seed (Nat.le_refl _)).1.nextByte]
  rfl

end Code

end Pintos.Lib
