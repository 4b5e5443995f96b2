import Pintos.Filesys.Writing

/-!
# File contents

A file is, for its users, the list of its bytes below its length. `writeContent`
says what a write means on such lists. A volume is any family of open inodes with
disjoint sectors; every byte a file stores past its end is zero, which is what
makes a gap left by a later extension read as zeros. `inode_write_at` refines
`writeContent` on its file, leaves the other files as they are and keeps the
volume well formed, and `inode_read_at` returns the bytes of the content.
-/

namespace Pintos.Filesys

open Foundation Lib List

def content (fs : FileSys) (inode : Inode) : List UInt8 :=
  (List.range (inodeLength inode).toNat).map (fileByte fs inode.data)

/-- `old`, extended with zeros, with the bytes from `offset` on replaced. -/
def writeContent (old : List UInt8) (buffer : Nat → UInt8) (size offset : Nat) : List UInt8 :=
  (List.range (max old.length (offset + size))).map fun i =>
    if offset ≤ i ∧ i < offset + size then buffer (i - offset) else old.getD i 0

/-- What is stored between the end of the file and the end of its last sector. -/
def ZeroTail (fs : FileSys) (inode : Inode) : Prop :=
  ∀ i : Nat, inodeLength inode ≤ i → i < 512 * bytesToSectors (inodeLength inode) →
    fileByte fs inode.data i = 0

section Volume

variable {ι : Type}

/-- A family of open inodes, the free-map file not among them. -/
structure VolumeOk (fs : FileSys) (files : ι → Inode) : Prop where
  ok : FsOk fs
  laid : ∀ i, LaidOut fs (files i)
  tail : ∀ i, ZeroTail fs (files i)
  disjoint : ∀ i j, i ≠ j → ∀ s ∈ ownSectors fs (files i), s ∉ ownSectors fs (files j)

@[simp] lemma content_length (fs : FileSys) (inode : Inode) :
    (content fs inode).length = (inodeLength inode).toNat := by
  simp [content]

lemma content_getD (fs : FileSys) (inode : Inode) (i : Nat) :
    (content fs inode).getD i 0 =
      if (i : Int) < inodeLength inode then fileByte fs inode.data i else 0 := by
  by_cases h : i < (inodeLength inode).toNat
  · rw [if_pos (by omega), content]
    simp [getD, h]
  · rw [if_neg (by omega), getD, getElem?_eq_none (by simpa using h)]
    rfl

variable {fs fs' : FileSys} {inode inode' : Inode} {files : ι → Inode} {i : ι}
  {buffer : Nat → UInt8} {offset : Nat}

lemma LaidOut.transport (hl : LaidOut fs inode)
    (hdisk : ∀ s ∈ ownSectors fs inode, fs'.disk s = fs.disk s)
    (hused : ∀ s ∈ ownSectors fs inode, Used fs s → Used fs' s) (hmd : mapData fs' = mapData fs)
    (hmi : mapIndex fs' = mapIndex fs) :
    LaidOut fs' inode ∧ ownSectors fs' inode = ownSectors fs inode ∧
      ∀ i, i < 512 * bytesToSectors (inodeLength inode) →
        fileByte fs' inode.data i = fileByte fs inode.data i := by
  have hindex : ∀ s ∈ inodeIndex fs inode.data (bytesToSectors (inodeLength inode)),
      fs'.disk s = fs.disk s := fun s hs => hdisk s (mem_append_right _ hs)
  refine ⟨⟨hl.nonneg, hl.le_max, hl.file.transport hindex hused hmd hmi⟩, ?_, ?_⟩
  · rw [ownSectors, ownSectors, inodeData_congr hindex, inodeIndex_congr hindex]
  · intro i hi
    have hk : i / 512 < bytesToSectors (inodeLength inode) := by omega
    rw [fileByte, fileByte, sectorOf_congr hindex hk, hdisk _ (mem_append_left _ (sectorOf_mem hk))]

lemma content_congr (hl : LaidOut fs inode) (h : ∀ i, i < 512 * bytesToSectors (inodeLength inode) →
      fileByte fs' inode.data i = fileByte fs inode.data i) :
    content fs' inode = content fs inode := by
  have hle := (bytesToSectors_bounds hl.nonneg hl.le_max).2.1
  exact map_congr_left fun i hi => h i (by have := mem_range.mp hi; omega)

/-- A step on file `i` keeps the sectors of the others and takes free ones only. -/
lemma VolumeOk.update [DecidableEq ι] (hv : VolumeOk fs files) (ok' : FsOk fs')
    (hlaid : LaidOut fs' inode') (htail : ZeroTail fs' inode')
    (hused : ∀ s, Used fs s → Used fs' s) (hmd : mapData fs' = mapData fs)
    (hmi : mapIndex fs' = mapIndex fs)
    (hkept : ∀ j, j ≠ i → ∀ s ∈ ownSectors fs (files j), fs'.disk s = fs.disk s)
    (hown : ∀ s ∈ ownSectors fs' inode', s ∈ ownSectors fs (files i) ∨ ¬ Used fs s) :
    VolumeOk fs' (Function.update files i inode') ∧
      ∀ j, j ≠ i → content fs' (files j) = content fs (files j) := by
  have hother : ∀ j, j ≠ i → LaidOut fs' (files j) ∧
      ownSectors fs' (files j) = ownSectors fs (files j) ∧
      ∀ k, k < 512 * bytesToSectors (inodeLength (files j)) →
        fileByte fs' (files j).data k = fileByte fs (files j).data k :=
    fun j hj => (hv.laid j).transport (hkept j hj) (fun s _ hs => hused s hs) hmd hmi
  have hsep : ∀ j, j ≠ i → ∀ s ∈ ownSectors fs' inode', s ∉ ownSectors fs' (files j) := by
    intro j hj s hs hsj
    rw [(hother j hj).2.1] at hsj
    rcases hown s hs with h | h
    · exact hv.disjoint j i hj s hsj h
    · exact h ((hv.laid j).file.owns.used s hsj)
  refine ⟨⟨ok', ?_, ?_, ?_⟩, fun j hj => content_congr (hv.laid j) (hother j hj).2.2⟩
  · intro j
    by_cases hj : j = i
    · subst hj
      rwa [Function.update_self]
    · rw [Function.update_of_ne hj]
      exact (hother j hj).1
  · intro j
    by_cases hj : j = i
    · subst hj
      rwa [Function.update_self]
    · rw [Function.update_of_ne hj]
      intro k hk hk'
      rw [(hother j hj).2.2 k hk']
      exact hv.tail j k hk hk'
  · intro a b hab s hs
    by_cases ha : a = i
    · subst ha
      rw [Function.update_self] at hs
      rw [Function.update_of_ne (Ne.symm hab)]
      exact hsep b (Ne.symm hab) s hs
    · rw [Function.update_of_ne ha] at hs
      by_cases hb : b = i
      · subst hb
        rw [Function.update_self]
        exact fun hsb => hsep a ha s hsb hs
      · rw [Function.update_of_ne hb, (hother b hb).2.1]
        rw [(hother a ha).2.1] at hs
        exact hv.disjoint a b hab s hs

lemma VolumeOk.stored_byte (hv : VolumeOk fs files) (i : ι) (k : Nat) :
    (if k < 512 * bytesToSectors (inodeLength (files i)) then fileByte fs (files i).data k
      else 0) = (content fs (files i)).getD k 0 := by
  have hle := (bytesToSectors_bounds (hv.laid i).nonneg (hv.laid i).le_max).2.1
  rw [content_getD]
  by_cases hin : (k : Int) < inodeLength (files i)
  · rw [if_pos hin, if_pos (by omega)]
  · rw [if_neg hin]
    split
    · exact hv.tail i k (by omega) (by omega)
    · rfl

lemma VolumeOk.written [DecidableEq ι] {written : Nat} (hv : VolumeOk fs files)
    (hw : Written fs fs' (files i) inode' buffer offset written)
    (hle : inodeLength (files i) ≤ inodeLength inode') :
    VolumeOk fs' (Function.update files i inode') ∧
      (∀ j, j ≠ i → content fs' (files j) = content fs (files j)) ∧
      ∀ k, k < 512 * bytesToSectors (inodeLength inode') → fileByte fs' inode'.data k =
        if offset ≤ k ∧ k < offset + written then buffer (k - offset)
        else (content fs (files i)).getD k 0 := by
  have hbyte : ∀ k, k < 512 * bytesToSectors (inodeLength inode') → fileByte fs' inode'.data k =
      if offset ≤ k ∧ k < offset + written then buffer (k - offset)
      else (content fs (files i)).getD k 0 := by
    intro k hk
    rw [hw.bytes k hk, hv.stored_byte]
  have htail : ZeroTail fs' inode' := by
    intro k hk hk'
    have hin := hw.inside
    rw [hbyte k hk', if_neg (by omega), content_getD, if_neg (by omega)]
  obtain ⟨hv', hothers⟩ := hv.update hw.ok hw.laid htail hw.used hw.mapData_eq hw.mapIndex_eq
    (fun j hj s hs => hw.kept s ((hv.laid j).file.owns.used s hs) (hv.disjoint j i hj s hs)
      ((hv.laid j).file.owns.apart s hs).1) hw.own
  exact ⟨hv', hothers, hbyte⟩

lemma content_eq_writeContent {size : Nat} (h0 : 0 ≤ inodeLength inode)
    (hlen : inodeLength inode' = max (inodeLength inode) (offset + size))
    (hbyte : ∀ k : Nat, (k : Int) < inodeLength inode' → fileByte fs' inode'.data k =
      if offset ≤ k ∧ k < offset + size then buffer (k - offset)
      else (content fs inode).getD k 0) :
    content fs' inode' = writeContent (content fs inode) buffer size offset := by
  have hcount : (inodeLength inode').toNat = max (content fs inode).length (offset + size) := by
    rw [content_length]
    omega
  rw [content, writeContent, hcount]
  refine map_congr_left fun k hk => hbyte k ?_
  have := mem_range.mp hk
  rw [content_length] at this
  omega

lemma VolumeOk.inodeWriteAt_spec [DecidableEq ι] {size : Int} (hv : VolumeOk fs files)
    (hm : fs.mallocOk = true) (hdeny : (files i).denyWriteCnt = 0) (hsize : 0 < size)
    (hmax : offset + size ≤ maxFileLength)
    (hsucc : (inodeWriteAt fs (files i) buffer size offset).2.2.allocFailed = false) :
    ∃ inode' fs', inodeWriteAt fs (files i) buffer size offset = (size.toNat, inode', fs') ∧
      fs'.mallocOk = true ∧ VolumeOk fs' (Function.update files i inode') ∧
      inodeLength inode' = max (inodeLength (files i)) (offset + size) ∧
      content fs' inode' = writeContent (content fs (files i)) buffer size.toNat offset ∧
      ∀ j, j ≠ i → content fs' (files j) = content fs (files j) := by
  have hl := hv.laid i
  obtain ⟨written, inode', fs', hrun, hw, -, hopen⟩ := inodeWriteAt_written buffer hv.ok hl
    (by omega) (le_of_le_maxFileLength hmax) hsucc
  obtain ⟨hlen, hall⟩ := hopen hdeny
  rw [extendedLength_of_le hl.nonneg hmax] at hlen
  obtain rfl := hall hm (by omega)
  obtain ⟨hv', hothers, hbyte⟩ := hv.written hw (by omega)
  have hbound := (bytesToSectors_bounds hw.laid.nonneg hw.laid.le_max).2.1
  refine ⟨inode', fs', hrun, by rw [hw.mallocOk_eq, hm], hv', hlen, ?_, hothers⟩
  exact content_eq_writeContent hl.nonneg (by omega) fun k hk => hbyte k (by omega)

/-- A read returns what lies between the position and the end, and changes nothing. -/
lemma VolumeOk.inodeReadAt_spec (hv : VolumeOk fs files) (hm : fs.mallocOk = true) (i : ι)
    (buffer : Nat → UInt8) (size : Int) (offset : Nat) :
    ∃ count buffer', inodeReadAt fs (files i) buffer size offset = (count, buffer', fs) ∧
      count = max 0 (min size (inodeLength (files i) - offset)) ∧
      (range count).map buffer' = ((content fs (files i)).drop offset).take size.toNat ∧
      ∀ k, count ≤ k → buffer' k = buffer k := by
  have hl := hv.laid i
  refine ⟨_, _, hl.inodeReadAt_eq hv.ok hm buffer size offset, by omega, ?_, ?_⟩
  · apply ext_getElem
    · simp only [length_map, length_range, length_take, length_drop, content_length]
      omega
    · intro k h1 h2
      have hk : k < (min size (inodeLength (files i) - offset)).toNat := by simpa using h1
      simp [copyRange, hk, content]
  · intro k hk
    rw [copyRange, if_neg (by omega)]

lemma Created.zeroTail {sector : BlockSector} {length : Int}
    (hc : Created fs fs' sector length inode) :
    ∀ k, k < 512 * bytesToSectors (inodeLength inode) → fileByte fs' inode.data k = 0 := by
  intro k hk
  rw [hc.length_eq] at hk
  rw [fileByte, hc.zeroed _ (sectorOf_mem (by omega))]
  simp [Block.byte, zeros]

lemma VolumeOk.create {sector : BlockSector} {length : Int} (hv : VolumeOk fs files)
    (hc : Created fs fs' sector length inode) (hnot : ∀ j, sector ∉ ownSectors fs (files j)) :
    VolumeOk fs' (fun o : Option ι => o.elim inode files) ∧
      content fs' inode = replicate length.toNat 0 ∧
      ∀ j, content fs' (files j) = content fs (files j) := by
  have hother : ∀ j, LaidOut fs' (files j) ∧ ownSectors fs' (files j) = ownSectors fs (files j) ∧
      ∀ k, k < 512 * bytesToSectors (inodeLength (files j)) →
        fileByte fs' (files j).data k = fileByte fs (files j).data k := by
    intro j
    have howns := (hv.laid j).file.owns
    refine (hv.laid j).transport (fun s hs => ?_) (fun s _ hs => (hc.alloc.used s).mpr (Or.inl hs))
      hc.alloc.mapData_eq hc.alloc.mapIndex_eq
    exact hc.alloc.kept s (howns.used s hs) (fun he => hnot j (he ▸ hs)) (howns.apart s hs).1
  have hsep : ∀ j, ∀ s ∈ ownSectors fs' (files j), s ∉ ownSectors fs' inode := by
    intro j s hs hnew
    rw [(hother j).2.1] at hs
    exact hc.alloc.fresh s hnew ((hv.laid j).file.owns.used s hs)
  refine ⟨⟨hc.alloc.ok, ?_, ?_, ?_⟩, ?_, fun j => content_congr (hv.laid j) (hother j).2.2⟩
  · rintro (_ | j)
    · exact hc.live.toLaidOut
    · exact (hother j).1
  · rintro (_ | j)
    · exact fun k _ hk => hc.zeroTail k hk
    · intro k hk hk'
      exact ((hother j).2.2 k hk').trans (hv.tail j k hk hk')
  · rintro (_ | a) (_ | b) hab s hs
    · exact (hab rfl).elim
    · exact fun hsb => hsep b s hsb hs
    · exact hsep a s hs
    · have hs' : s ∈ ownSectors fs' (files a) := hs
      rw [(hother a).2.1] at hs'
      change s ∉ ownSectors fs' (files b)
      rw [(hother b).2.1]
      exact hv.disjoint a b (fun h => hab (h ▸ rfl)) s hs'
  · have hle := (bytesToSectors_bounds hc.live.nonneg hc.live.le_max).2.1
    rw [content, hc.length_eq]
    rw [hc.length_eq] at hle
    apply ext_getElem
    · simp
    · intro k h1 h2
      have hk : k < length.toNat := by simpa using h1
      simp only [getElem_map, getElem_range, getElem_replicate]
      exact hc.zeroTail k (by rw [hc.length_eq]; omega)

end Volume

def smallFile : Inode × FileSys := createInode smallVolume 1 600 false

lemma smallFile_volume :
    VolumeOk smallFile.2 fun o : Option Empty => o.elim smallFile.1 Empty.elim := by
  have hempty : VolumeOk smallVolume (Empty.elim : Empty → Inode) :=
    ⟨smallVolume_ok, fun i => i.elim, fun i => i.elim, fun i => i.elim⟩
  obtain ⟨inode, fs', hrun, hc⟩ := createInode_spec smallVolume_ok (by decide) (by decide)
    (by decide) (by decide) (show (inodeCreate smallVolume 1 600 false).1 = true by decide +kernel)
    (by decide +kernel)
  rw [smallFile, hrun]
  exact (hempty.create hc fun j => j.elim).1

end Pintos.Filesys
