import Pintos.Filesys.Capacity
import Pintos.Filesys.Content
import Mathlib.Order.Interval.Finset.Nat

/-!
# Writes past the capacity and writes of nothing

`inode_grow` takes whole sectors off the length it was asked for when the index is full, so
the new length keeps the last partial sector of the request and not that of the file. A
file close to the capacity can come out shorter than it was. The growth step also runs for
a request of no bytes: `inode_write_at` changes a file whenever its range ends past the
end, whether or not it then stores anything.
-/

namespace Pintos.Filesys

open Foundation Lib Finset

lemma cappedLength_of_gt {newLength : Int} (h : maxFileLength < newLength)
    (hmax : newLength ≤ 2147483136) :
    cappedLength newLength = maxFileLength - -newLength % 512 := by
  unfold maxFileLength at *
  unfold cappedLength
  rw [bytesToSectors_eq (by omega) hmax]
  omega

lemma le_extendedLength_iff {inode : Inode} {newLength : Int} (h0 : 0 ≤ inodeLength inode)
    (hle : inodeLength inode ≤ maxFileLength) (hmax : newLength ≤ 2147483136) :
    inodeLength inode ≤ extendedLength inode newLength ↔
      newLength ≤ maxFileLength ∨ inodeLength inode + -newLength % 512 ≤ maxFileLength := by
  by_cases hin : newLength ≤ maxFileLength
  · rw [extendedLength_of_le h0 hin]
    exact ⟨fun _ => Or.inl hin, fun _ => by omega⟩
  · rw [extendedLength, if_pos (by omega), cappedLength_of_gt (by omega) hmax]
    omega

lemma Written.read_kept {fs fs' : FileSys} {inode inode' : Inode} {buffer : Nat → UInt8}
    {offset written : Nat} (hw : Written fs fs' inode inode' buffer offset written)
    (ok : FsOk fs) (hl : LaidOut fs inode) (hm : fs.mallocOk = true)
    (hle : inodeLength inode ≤ inodeLength inode') (b : Nat → UInt8) (s : Int) (o j : Nat)
    (hj : j < (inodeReadAt fs inode b s o).1)
    (hnot : ¬ (offset ≤ o + j ∧ o + j < offset + written)) :
    j < (inodeReadAt fs' inode' b s o).1 ∧
      (inodeReadAt fs' inode' b s o).2.1 j = (inodeReadAt fs inode b s o).2.1 j := by
  have hbound := (bytesToSectors_bounds hl.nonneg hl.le_max).2.1
  have hbound' := (bytesToSectors_bounds hw.laid.nonneg hw.laid.le_max).2.1
  rw [hl.inodeReadAt_eq ok hm] at hj ⊢
  rw [hw.laid.inodeReadAt_eq hw.ok (by rw [hw.mallocOk_eq, hm])]
  dsimp only at hj ⊢
  have hj' : j < (min s (inodeLength inode' - o)).toNat := by omega
  refine ⟨hj', ?_⟩
  simp only [copyRange, Nat.zero_le, Nat.zero_add, true_and, if_pos hj, if_pos hj', Nat.sub_zero]
  rw [hw.bytes _ (by omega), if_neg hnot, if_pos (by omega)]

/-- A write without a failed allocation leaves the file at least as long exactly when it is denied,
ends within the capacity, or its padding still fits; and then all other bytes stay. -/
theorem inodeWriteAt_keeps_iff {fs : FileSys} {inode : Inode} (buffer : Nat → UInt8)
    (size : Int) (offset : Nat) (ok : FsOk fs) (hl : LaidOut fs inode) (hm : fs.mallocOk = true)
    (hsize : 0 ≤ size) (hmax : offset + size ≤ 2147483136)
    (hsucc : (inodeWriteAt fs inode buffer size offset).2.2.allocFailed = false) :
    ∃ written inode' fs', inodeWriteAt fs inode buffer size offset = (written, inode', fs') ∧
      (inodeLength inode ≤ inodeLength inode' ↔
        inode.denyWriteCnt ≠ 0 ∨ offset + size ≤ maxFileLength ∨
          inodeLength inode + -(offset + size) % 512 ≤ maxFileLength) ∧
      (inodeLength inode ≤ inodeLength inode' →
        ∀ (b : Nat → UInt8) (s : Int) (o j : Nat), j < (inodeReadAt fs inode b s o).1 →
          ¬ (offset ≤ o + j ∧ o + j < offset + written) →
          j < (inodeReadAt fs' inode' b s o).1 ∧
            (inodeReadAt fs' inode' b s o).2.1 j = (inodeReadAt fs inode b s o).2.1 j) := by
  obtain ⟨written, inode', fs', hrun, hw, hdenied, hopen⟩ :=
    inodeWriteAt_written buffer ok hl (by omega) hmax hsucc
  refine ⟨written, inode', fs', hrun, ?_, hw.read_kept ok hl hm⟩
  by_cases hdeny : inode.denyWriteCnt = 0
  · rw [(hopen hdeny).1, le_extendedLength_iff hl.nonneg hl.le_max hmax]
    simp [hdeny]
  · rw [(hdenied hdeny).2.1]
    simp [hdeny]

theorem inodeWriteAt_keeps_smallFile :
    ∃ written inode' fs', inodeWriteAt smallFile.2 smallFile.1 (fun _ => 7) 3 2000 =
        (written, inode', fs') ∧ inodeLength smallFile.1 ≤ inodeLength inode' := by
  have hvolume := smallFile_volume
  obtain ⟨written, inode', fs', hrun, hiff, -⟩ := inodeWriteAt_keeps_iff (fun _ => 7) 3 2000
    hvolume.ok (hvolume.laid none) (by decide +kernel) (by decide) (by decide) (by decide +kernel)
  exact ⟨written, inode', fs', hrun, hiff.mpr (Or.inr (Or.inl (by decide)))⟩

/-- A device large enough for a file at the capacity, with its first two sectors in use. -/
def largeVolume : FileSys where
  size := 65536
  disk := fun _ => zeros
  freeMap := { map := ⟨65536, fun k => if k = 0 then 3 else 0⟩, file := none, fits := by simp }
  rootDirSector := 1
  mallocOk := true
  uninit := fun _ _ => 0
  panicked := false
  allocFailed := false
  dataLog := []

lemma largeVolume_room : Room largeVolume 65504 := by
  refine ⟨⟨rfl, by decide, by simp [largeVolume]⟩, ⟨rfl, by simp [largeVolume]⟩, rfl, ?_⟩
  have hsub : Ico 32 65536 ⊆ freeSectors largeVolume := by
    intro i hi
    rw [mem_Ico] at hi
    have hword : largeVolume.freeMap.map.bits (elemIdx i) = 0#32 :=
      if_neg (by unfold elemIdx; omega)
    have hbit : bitmapTest largeVolume.freeMap.map i = false := by
      rw [bitmapTest_eq_getLsbD, hword, BitVec.getLsbD_zero]
    exact mem_filter.mpr ⟨mem_range.mpr hi.2, hbit⟩
  have hcard := card_le_card hsub
  rwa [Nat.card_Ico] at hcard

/-- Writing one byte at the end of a file at the capacity makes it 511 bytes shorter. -/
theorem inodeWriteAt_shortens_full_file :
    ∃ inode fs, createInode largeVolume 1 8459264 false = (inode, fs) ∧ FsOk fs ∧
      LaidOut fs inode ∧ inodeLength inode = 8459264 ∧
      (inodeWriteAt fs inode (fun _ => 7) 1 8459264).2.2.allocFailed = false ∧
      inodeLength (inodeWriteAt fs inode (fun _ => 7) 1 8459264).2.1 = 8458753 := by
  have hsectors : bytesToSectors 8459264 = 16522 := rfl
  have hroom : Room largeVolume (2 + 2 * bytesToSectors 8459264) :=
    largeVolume_room.mono (by rw [hsectors]; decide)
  obtain ⟨hbuilt, hsucc⟩ := createInode_succeeds 1 false (by decide) (by decide) hroom
  obtain ⟨inode, fs, hcreate, hc⟩ := createInode_spec largeVolume_room.ok (by decide) (by decide)
    (by decide) (by decide) hbuilt hsucc
  rw [hcreate] at hsucc
  have hl := hc.live.toLaidOut
  have hlen := hc.length_eq
  have hdeny : inode.denyWriteCnt = 0 := by rw [hc.inode_eq]
  -- the index is full, so two free sectors are more than the growth step asks for
  have hown : (ownSectors fs inode).length ≤ 33000 := by
    rw [ownSectors, List.length_append, inodeIndex_length, inodeData, dataSectors_length, hlen,
      hsectors]
    decide
  have hafter : Room fs (2 + 2 * (16522 - bytesToSectors (inodeLength inode))) :=
    (largeVolume_room.mono (by rw [hlen, hsectors]; omega)).after hc.alloc hsucc
  have hext : (extendTo fs inode 8459265).2.allocFailed = false := extendTo_succeeds hl hafter
  have hwrite : (inodeWriteAt fs inode (fun _ => 7) 1 8459264).2.2.allocFailed = false := by
    unfold inodeWriteAt
    rw [if_neg (by simp [hdeny]), show wrap32 ((8459264 : Nat) + 1) = 8459265 from rfl]
    simpa using hext
  obtain ⟨written, inode', fs', hrun, -, -, hopen⟩ := inodeWriteAt_written (fun _ => 7)
    hc.alloc.ok hl (by decide) (by decide) hwrite
  refine ⟨inode, fs, hcreate, hc.alloc.ok, hl, hlen, hwrite, ?_⟩
  rw [hrun]
  dsimp only
  rw [(hopen hdeny).1, extendedLength, if_pos (by rw [hlen]; decide)]
  rfl

end Pintos.Filesys
