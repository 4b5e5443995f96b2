import Pintos.Filesys.Release

/-!
# A full disk

`inode_grow` ignores what `free_map_allocate` returns. After a failed call the slot keeps
what it held, the sector it names is overwritten with zeros, and the length is the one
asked for. So `inode_create` reports success whatever the disk has left, and an extending
write on a full disk overwrites sectors of others. When no call fails, the sectors a file
gets were free, and nothing else in use changes.
-/

namespace Pintos.Filesys

open Foundation Lib

/-- The sector is on the device and its bit in the free map is clear. -/
def Free (fs : FileSys) (s : BlockSector) : Prop :=
  s.toNat < fs.freeMap.map.bitCnt ∧ bitmapTest fs.freeMap.map s.toNat = false

instance (fs : FileSys) (s : BlockSector) : Decidable (Free fs s) :=
  inferInstanceAs (Decidable (_ ∧ _))

lemma free_of_not_used {fs : FileSys} {s : BlockSector} (hlt : s.toNat < fs.freeMap.map.bitCnt)
    (h : ¬ Used fs s) : Free fs s :=
  ⟨hlt, by simpa [Used, hlt] using h⟩

lemma LaidOut.byteToSector_pos {fs : FileSys} {inode : Inode} (hl : LaidOut fs inode)
    (ok : FsOk fs) {pos : Nat} (hpos : (pos : Int) < inodeLength inode) :
    byteToSector fs inode pos = (sectorOf fs inode.data (pos / 512), fs) ∧
      pos / 512 < bytesToSectors (inodeLength inode) ∧
      sectorOf fs inode.data (pos / 512) ∈ ownSectors fs inode := by
  have hbound := (bytesToSectors_bounds hl.nonneg hl.le_max).2.1
  have hk : pos / 512 < bytesToSectors (inodeLength inode) := by omega
  exact ⟨(sector_inside (hl.placed ok) hbound hpos).1, hk, List.mem_append_left _ (sectorOf_mem hk)⟩

/-- The result depends on the memory for the disk inode and on nothing else. -/
lemma inodeCreate_result (fs : FileSys) (sector : BlockSector) {length : Int} (subDir : Bool)
    (h0 : 0 ≤ length) : (inodeCreate fs sector length subDir).1 = fs.mallocOk := by
  unfold inodeCreate
  rw [if_pos h0]
  dsimp only
  cases fs.mallocOk <;> rfl

/-- Four sectors, all in use: the two inodes, the free-map file and a new inode. -/
def fullVolume : FileSys where
  size := 4
  disk := fun s => if s = 0 then mapInode.data.toBlock else zeros
  freeMap :=
    { map := ⟨4, fun _ => 15⟩
      file := some mapInode
      fits := by simp [mapInode, inodeLength, byteCnt, elemCnt] }
  rootDirSector := 1
  mallocOk := true
  uninit := fun _ _ => 0
  panicked := false
  allocFailed := false
  dataLog := []

def fullFile : Inode × FileSys := createInode fullVolume 3 0 false

end Pintos.Filesys
