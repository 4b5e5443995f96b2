import Mathlib.Algebra.Group.Int.Defs
import Mathlib.Algebra.Group.Nat.Defs
import Mathlib.Algebra.GroupWithZero.Nat
import Mathlib.Logic.Function.Basic

/-!
# Little-endian 32-bit words in a byte block

A block of `n` bytes is a function on `Fin n`. Words are stored at multiples of
four, least significant byte first. `wordAt` after `packWords` is the identity
at every word that lies inside the block, so an array of words survives a round
trip through storage.
-/

namespace Pintos.Foundation

abbrev ByteBlock (n : Nat) := Fin n → UInt8

-- The bytes of a sector are named by literals.
instance sector_neZero : NeZero 512 := ⟨by decide⟩

def wordByte (w : UInt32) (j : Nat) : UInt8 := UInt8.ofNat (w.toNat / 256 ^ j)

def wordOfBytes (b0 b1 b2 b3 : UInt8) : UInt32 :=
  UInt32.ofNat (b0.toNat + 256 * b1.toNat + 65536 * b2.toNat + 16777216 * b3.toNat)

lemma wordOfBytes_wordByte (w : UInt32) :
    wordOfBytes (wordByte w 0) (wordByte w 1) (wordByte w 2) (wordByte w 3) = w := by
  apply UInt32.toNat_inj.mp
  have hw := w.toNat_lt
  simp only [wordOfBytes, wordByte, UInt32.toNat_ofNat', UInt8.toNat_ofNat']
  omega

/-- The block that stores the words `words 0`, `words 1`, .. one after another. -/
def packWords (n : Nat) (words : Nat → UInt32) : ByteBlock n :=
  fun i => wordByte (words (i.val / 4)) (i.val % 4)

/-- Word `k` of a block; a word that is not wholly inside reads as zero. -/
def wordAt {n : Nat} (block : ByteBlock n) (k : Nat) : UInt32 :=
  if h : 4 * k + 3 < n then
    wordOfBytes (block ⟨4 * k, by omega⟩) (block ⟨4 * k + 1, by omega⟩)
      (block ⟨4 * k + 2, by omega⟩) (block ⟨4 * k + 3, h⟩)
  else 0

lemma wordAt_packWords {n : Nat} (words : Nat → UInt32) (k : Nat) (h : 4 * k + 3 < n) :
    wordAt (packWords n words) k = words k := by
  have h0 : 4 * k / 4 = k ∧ 4 * k % 4 = 0 := by omega
  have h1 : (4 * k + 1) / 4 = k ∧ (4 * k + 1) % 4 = 1 := by omega
  have h2 : (4 * k + 2) / 4 = k ∧ (4 * k + 2) % 4 = 2 := by omega
  have h3 : (4 * k + 3) / 4 = k ∧ (4 * k + 3) % 4 = 3 := by omega
  rw [wordAt, dif_pos h]
  simp only [packWords, h0, h1, h2, h3]
  exact wordOfBytes_wordByte (words k)

end Pintos.Foundation
