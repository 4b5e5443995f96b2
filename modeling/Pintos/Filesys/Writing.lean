import Pintos.Filesys.FileGrowth

/-!
# What one call of `inode_write_at` does

A call first grows the file, up to the capacity of the index, and then stores a prefix of
its buffer. `Written` collects what is true afterwards when no allocation failed: where
the bytes are, which sectors the file owns, and that everything else in use is as it was.
-/

namespace Pintos.Filesys

open Foundation Lib

structure Written (fs fs' : FileSys) (inode inode' : Inode) (buffer : Nat → UInt8)
    (offset written : Nat) : Prop where
  ok : FsOk fs'
  laid : LaidOut fs' inode'
  size_eq : fs'.size = fs.size
  mallocOk_eq : fs'.mallocOk = fs.mallocOk
  file_eq : fs'.freeMap.file = fs.freeMap.file
  mapData_eq : mapData fs' = mapData fs
  mapIndex_eq : mapIndex fs' = mapIndex fs
  header : inode' = { inode with data := inode'.data }
  inside : written = 0 ∨ (offset + written : Nat) ≤ inodeLength inode'
  used : ∀ s, Used fs s → Used fs' s
  own : ∀ s ∈ ownSectors fs' inode', s ∈ ownSectors fs inode ∨ ¬ Used fs s
  kept : ∀ s, Used fs s → s ∉ ownSectors fs inode → s ∉ mapData fs → fs'.disk s = fs.disk s
  bytes : ∀ k, k < 512 * bytesToSectors (inodeLength inode') → fileByte fs' inode'.data k =
    if offset ≤ k ∧ k < offset + written then buffer (k - offset)
    else if k < 512 * bytesToSectors (inodeLength inode) then fileByte fs inode.data k else 0

variable {fs fs' : FileSys} {inode : Inode} {new : List BlockSector} {offset : Nat}

lemma Written.refl (ok : FsOk fs) (hl : LaidOut fs inode) (buffer : Nat → UInt8) (offset : Nat) :
    Written fs fs inode inode buffer offset 0 where
  ok := ok
  laid := hl
  size_eq := rfl
  mallocOk_eq := rfl
  file_eq := rfl
  mapData_eq := rfl
  mapIndex_eq := rfl
  header := rfl
  inside := Or.inl rfl
  used := fun _ hs => hs
  own := fun _ hs => Or.inl hs
  kept := fun _ _ _ _ => rfl
  bytes := fun k hk => by rw [if_neg (by omega), if_pos hk]

lemma Extends.fileByte_eq {d d' : InodeDisk} {n : Nat} (hf : FileAt fs d n)
    (h : Extends fs fs' d d' n new) {i : Nat} (hi : i < 512 * (n + new.length)) :
    fileByte fs' d' i = if i < 512 * n then fileByte fs d i else 0 := by
  have hget : ∀ (fs : FileSys) (d : InodeDisk) (n : Nat), i / 512 < n →
      (inodeData fs d n)[i / 512]? = some (sectorOf fs d (i / 512)) := by
    intro fs d n hk
    simp [inodeData, dataSectors, sectorOf, hk]
  have hk : i / 512 < n + new.length := by omega
  have hsec := hget fs' d' _ hk
  have hlen : (inodeData fs d n).length = n := dataSectors_length _ _ _ _
  rw [h.grew.data_eq] at hsec
  by_cases hold : i < 512 * n
  · have hkn : i / 512 < n := by omega
    rw [List.getElem?_append_left (by omega), hget fs d n hkn] at hsec
    rw [if_pos hold, fileByte, fileByte, ← Option.some.inj hsec,
      h.grew.data_kept hf.owns (sectorOf_mem hkn)]
  · rw [List.getElem?_append_right (by omega)] at hsec
    rw [if_neg hold, fileByte, h.grew.zeroed _ (List.mem_of_getElem? hsec)]
    simp [Block.byte, zeros]

lemma Extends.ownSectors_sub {inode' : Inode}
    (h : Extends fs fs' inode.data inode'.data (bytesToSectors (inodeLength inode)) new)
    (hcount : bytesToSectors (inodeLength inode') = bytesToSectors (inodeLength inode) + new.length)
    {s : BlockSector} (hs : s ∈ ownSectors fs' inode') : s ∈ ownSectors fs inode ∨ ¬ Used fs s := by
  obtain ⟨pre, hperm, halloc⟩ := h.grew.alloc
  have hfresh := halloc.fresh s
  rw [ownSectors, hcount, h.grew.data_eq] at hs
  simp only [ownSectors, List.mem_append, hperm.mem_iff] at hs hfresh ⊢
  tauto

lemma Inode.eq_of_header {inode' : Inode} (h1 : inode'.openCnt = inode.openCnt)
    (h2 : inode'.denyWriteCnt = inode.denyWriteCnt) (h3 : inode'.removed = inode.removed)
    (h4 : inode'.sector = inode.sector) : inode' = { inode with data := inode'.data } := by
  cases inode'
  cases h1
  cases h2
  cases h3
  cases h4
  rfl

lemma written_of_extends {fs₁ : FileSys} {inode₁ : Inode} {buffer : Nat → UInt8} {w : Nat}
    (hl : LaidOut fs inode) (hheader : inode₁ = { inode with data := inode₁.data })
    (hl₁ : LaidOut fs₁ inode₁) (hcount : bytesToSectors (inodeLength inode₁) =
      bytesToSectors (inodeLength inode) + new.length)
    (hext : Extends fs fs₁ inode.data inode₁.data (bytesToSectors (inodeLength inode)) new)
    (hw : Wrote fs₁ fs' inode₁.data (bytesToSectors (inodeLength inode₁)) offset w 0 buffer)
    (hin : w = 0 ∨ (offset + w : Nat) ≤ inodeLength inode₁) :
    Written fs fs' inode inode₁ buffer offset w := by
  obtain ⟨pre, -, halloc⟩ := hext.grew.alloc
  obtain ⟨hl₂, hown, ok₂, hmd, hmi⟩ := hl₁.wrote halloc.ok hw
  have hsub : ∀ s ∈ ownSectors fs₁ inode₁, s ∈ ownSectors fs inode ∨ ¬ Used fs s :=
    fun s hs => hext.ownSectors_sub hcount hs
  constructor
  case ok => exact ok₂
  case laid => exact hl₂
  case size_eq => rw [hw.rest]; exact halloc.size_eq
  case mallocOk_eq => rw [hw.rest]; exact halloc.mallocOk_eq
  case file_eq => rw [hw.freeMap_eq]; exact halloc.file_eq
  case mapData_eq => exact hmd.trans halloc.mapData_eq
  case mapIndex_eq => exact hmi.trans halloc.mapIndex_eq
  case header => exact hheader
  case inside => exact hin
  case used => exact fun s hs => (hw.used s).mpr ((halloc.used s).mpr (Or.inl hs))
  case own => exact fun s hs => hsub s (hown ▸ hs)
  case kept =>
      intro s hu hs hmap
      have hdata : s ∉ inodeData fs₁ inode₁.data (bytesToSectors (inodeLength inode₁)) :=
        fun hd => (hsub s (List.mem_append_left _ hd)).elim hs fun h => h hu
      rw [hw.frame s hdata]
      exact halloc.kept s hu (fun hi => hs (List.mem_append_right _ hi)) hmap
  case bytes =>
      intro k hk
      rw [hw.bytes k hk, hext.fileByte_eq hl.file (by omega), Nat.zero_add]

/-- A write inside the file does not grow it. -/
lemma inodeWriteAt_of_le {size : Int} (buffer : Nat → UInt8) (hdeny : inode.denyWriteCnt = 0)
    (h : wrap32 (offset + size) ≤ inodeLength inode) :
    inodeWriteAt fs inode buffer size offset =
      ((inodeWriteLoop inode buffer size.toNat fs size offset 0).1, inode,
        (inodeWriteLoop inode buffer size.toNat fs size offset 0).2) := by
  have hext : extendTo fs inode (wrap32 (offset + size)) = (inode, fs) :=
    if_neg (Int.not_lt.mpr h)
  unfold inodeWriteAt
  rw [if_neg (not_not.mpr hdeny), hext]

/-- A call without a failed allocation: a denied one does nothing, any other grows the file as far
as the index allows and stores what fits. -/
lemma inodeWriteAt_written {size : Int} (buffer : Nat → UInt8) (ok : FsOk fs)
    (hl : LaidOut fs inode) (hlow : -2147483648 ≤ size) (hmax : offset + size ≤ 2147483136)
    (hsucc : (inodeWriteAt fs inode buffer size offset).2.2.allocFailed = false) :
    ∃ written inode' fs', inodeWriteAt fs inode buffer size offset = (written, inode', fs') ∧
      Written fs fs' inode inode' buffer offset written ∧
      (inode.denyWriteCnt ≠ 0 → written = 0 ∧ inode' = inode ∧ fs' = fs) ∧
      (inode.denyWriteCnt = 0 → inodeLength inode' = extendedLength inode (offset + size) ∧
        (fs.mallocOk = true → offset + size ≤ inodeLength inode' → written = size.toNat)) := by
  have hw32 : wrap32 (offset + size) = offset + size := wrap32_eq (by omega) (by omega)
  unfold inodeWriteAt at hsucc ⊢
  by_cases hdeny : inode.denyWriteCnt ≠ 0
  · rw [if_pos hdeny]
    exact ⟨0, inode, fs, rfl, Written.refl ok hl buffer offset, fun _ => ⟨rfl, rfl, rfl⟩,
      fun h => absurd h hdeny⟩
  rw [if_neg hdeny, hw32] at hsucc ⊢
  have hfail : (extendTo fs inode (offset + size)).2.allocFailed = false := by
    simpa using hsucc
  obtain ⟨new, hlen, hcount, hext⟩ := extendTo_extends ok hl hmax hfail
  have hl₁ := extendTo_laidOut ok hl hmax hfail
  obtain ⟨h1, h2, h3, h4⟩ := extendTo_inode fs inode (offset + size)
  have hheader := Inode.eq_of_header h1 h2 h3 h4
  rw [← hlen] at hcount
  generalize extendTo fs inode (offset + size) = r at hlen hcount hext hl₁ hheader ⊢
  obtain ⟨inode₁, fs₁⟩ := r
  dsimp only at hlen hcount hext hl₁ hheader ⊢
  obtain ⟨pre, -, halloc⟩ := hext.grew.alloc
  obtain ⟨w, hres, hw, hin, hall⟩ := inodeWriteLoop_spec buffer size.toNat size offset 0
    (hl₁.placed halloc.ok) (bytesToSectors_bounds hl₁.nonneg hl₁.le_max).2.1
  rw [Nat.zero_add] at hres
  refine ⟨w, inode₁, _, by rw [hres], written_of_extends hl hheader hl₁ hcount hext hw hin,
    fun h => absurd h hdeny, fun _ => ⟨hlen, fun hm hle => ?_⟩⟩
  exact hall (by rw [halloc.mallocOk_eq, hm]) (Nat.le_refl _) hle

lemma LaidOut.inodeReadAt_eq (hl : LaidOut fs inode) (ok : FsOk fs) (hm : fs.mallocOk = true)
    (buffer : Nat → UInt8) (size : Int) (offset : Nat) :
    inodeReadAt fs inode buffer size offset =
      ((min size (inodeLength inode - offset)).toNat,
        copyRange buffer 0 (fun j => fileByte fs inode.data (offset + j))
          (min size (inodeLength inode - offset)).toNat, fs) := by
  have hread := inodeReadLoop_spec buffer size.toNat size offset 0 (hl.placed ok)
    (bytesToSectors_bounds hl.nonneg hl.le_max).2.1 hm (Nat.le_refl _)
  rwa [Nat.zero_add] at hread

end Pintos.Filesys
