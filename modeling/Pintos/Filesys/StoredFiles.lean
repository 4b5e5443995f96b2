import Pintos.Filesys.Release

/-!
# The files of a volume

A volume holds one file for each sector of a list `live`. What the inode of a file is, whether
that of an open inode or what its sector stores, is given by a function `data`; the results
here are about one step that concerns one file, and say that the volume stays in order and
that the other files keep their length and their bytes.
-/

namespace Pintos.Filesys

open List

/-- The inode of `sector` as `inode_open` returns it. -/
def inodeAt (sector : BlockSector) (d : InodeDisk) : Inode := ⟨1, 0, false, sector, d⟩

def onDisk (fs : FileSys) (sector : BlockSector) : InodeDisk := InodeDisk.ofBlock (fs.disk sector)

lemma inodeLength_inodeAt (x : BlockSector) (d : InodeDisk) :
    inodeLength (inodeAt x d) = d.length := rfl

/-- All sectors of a file, that of its inode included. -/
def fileSectors (fs : FileSys) (x : BlockSector) (d : InodeDisk) : List BlockSector :=
  x :: ownSectors fs (inodeAt x d)

structure SameFile (fs : FileSys) (d : InodeDisk) (fs' : FileSys) (d' : InodeDisk) : Prop where
  length_eq : d'.length = d.length
  bytes : ∀ k, k < 512 * bytesToSectors d.length → fileByte fs' d' k = fileByte fs d k

structure Stored (fs : FileSys) (data : BlockSector → InodeDisk) (live : List BlockSector) :
    Prop where
  ok : FsOk fs
  opened : fs.freeMap.file.isSome = true
  inode : ∀ x ∈ live, LiveInode fs (inodeAt x (data x))
  apart : ∀ x ∈ live, ∀ y ∈ live, x ≠ y →
    ∀ s ∈ fileSectors fs x (data x), s ∉ fileSectors fs y (data y)

lemma SameFile.refl (fs : FileSys) (d : InodeDisk) : SameFile fs d fs d :=
  ⟨rfl, fun _ _ => rfl⟩

variable {fs fs' : FileSys} {d : InodeDisk} {x : BlockSector}

lemma SameFile.trans {fs₁ fs₂ : FileSys} {d₁ d₂ : InodeDisk} (h : SameFile fs d fs₁ d₁)
    (h' : SameFile fs₁ d₁ fs₂ d₂) : SameFile fs d fs₂ d₂ := by
  refine ⟨h'.length_eq.trans h.length_eq, fun k hk => ?_⟩
  rw [h'.bytes k (by rwa [h.length_eq]), h.bytes k hk]

lemma SameFile.inodeReadAt_eq {inode inode' : Inode}
    (h : SameFile fs inode.data fs' inode'.data) (ok : FsOk fs) (ok' : FsOk fs')
    (hl : LaidOut fs inode) (hl' : LaidOut fs' inode') (hm : fs.mallocOk = true)
    (hm' : fs'.mallocOk = true) (buffer : Nat → UInt8) (size : Int) (offset : Nat) :
    (inodeReadAt fs' inode' buffer size offset).1 = (inodeReadAt fs inode buffer size offset).1 ∧
      (inodeReadAt fs' inode' buffer size offset).2.1 =
        (inodeReadAt fs inode buffer size offset).2.1 := by
  have hlen : inodeLength inode' = inodeLength inode := h.length_eq
  have hin := (bytesToSectors_bounds hl.nonneg hl.le_max).2.1
  rw [hl.inodeReadAt_eq ok hm, hl'.inodeReadAt_eq ok' hm', hlen]
  dsimp only
  refine ⟨rfl, copyRange_congr fun j hj => h.bytes _ ?_⟩
  change _ < 512 * bytesToSectors (inodeLength inode)
  omega

lemma LiveInode.of_data {inode inode' : Inode} (h : LiveInode fs inode)
    (hdata : inode'.data = inode.data) (hsector : inode'.sector = inode.sector) :
    LiveInode fs inode' := by
  obtain ⟨⟨h0, hmax, hf⟩, hu, hmap, hnot⟩ := h
  cases inode
  cases inode'
  cases hdata
  cases hsector
  exact ⟨⟨h0, hmax, hf⟩, hu, hmap, hnot⟩

lemma LiveInode.fileSectors_used (h : LiveInode fs (inodeAt x d)) {s : BlockSector}
    (hs : s ∈ fileSectors fs x d) : Used fs s ∧ s ∉ mapData fs := by
  rcases mem_cons.mp hs with rfl | hs
  · exact ⟨h.sector_used, h.sector_apart.1⟩
  · exact ⟨h.file.owns.used s hs, (h.file.owns.apart s hs).1⟩

lemma LiveInode.transport (h : LiveInode fs (inodeAt x d))
    (hkept : ∀ s ∈ fileSectors fs x d, fs'.disk s = fs.disk s ∧ Used fs' s)
    (hmd : mapData fs' = mapData fs) (hmi : mapIndex fs' = mapIndex fs) :
    LiveInode fs' (inodeAt x d) ∧ fileSectors fs' x d = fileSectors fs x d ∧
      SameFile fs d fs' d := by
  have hown : ∀ s ∈ ownSectors fs (inodeAt x d), fs'.disk s = fs.disk s ∧ Used fs' s :=
    fun s hs => hkept s (mem_cons_of_mem x hs)
  obtain ⟨hl, hsectors, hbytes⟩ := h.toLaidOut.transport (fun s hs => (hown s hs).1)
    (fun s hs _ => (hown s hs).2) hmd hmi
  refine ⟨⟨hl, (hkept x mem_cons_self).2, ?_, ?_⟩, ?_, rfl, hbytes⟩
  · rw [hmd, hmi]
    exact h.sector_apart
  · rw [hsectors]
    exact h.sector_notMem
  · rw [fileSectors, hsectors]
    rfl

/-- The other files stay, and `x`, if still there, has its sectors and perhaps some that were free.
-/
lemma Stored.change {data data' : BlockSector → InodeDisk} {live live' : List BlockSector}
    (h : Stored fs data live) (hsub : ∀ y ∈ live', y ∈ live) (ok' : FsOk fs')
    (hfile : fs'.freeMap.file = fs.freeMap.file) (hmd : mapData fs' = mapData fs)
    (hmi : mapIndex fs' = mapIndex fs) (hdata : ∀ y ∈ live', y ≠ x → data' y = data y)
    (hkept : ∀ y ∈ live', y ≠ x → ∀ s ∈ fileSectors fs y (data y),
      fs'.disk s = fs.disk s ∧ Used fs' s)
    (hnew : x ∈ live' → LiveInode fs' (inodeAt x (data' x)) ∧
      ∀ s ∈ ownSectors fs' (inodeAt x (data' x)),
        s ∈ ownSectors fs (inodeAt x (data x)) ∨ ¬ Used fs s) :
    Stored fs' data' live' ∧ ∀ y ∈ live', y ≠ x → SameFile fs (data y) fs' (data' y) := by
  have hother : ∀ y ∈ live', y ≠ x → LiveInode fs' (inodeAt y (data' y)) ∧
      fileSectors fs' y (data' y) = fileSectors fs y (data y) ∧
      SameFile fs (data y) fs' (data' y) := by
    intro y hy hne
    rw [hdata y hy hne]
    exact (h.inode y (hsub y hy)).transport (hkept y hy hne) hmd hmi
  have hsep : x ∈ live' → ∀ y ∈ live', y ≠ x → ∀ s ∈ fileSectors fs' x (data' x),
      s ∉ fileSectors fs' y (data' y) := by
    intro hx y hy hne s hs hsy
    rw [(hother y hy hne).2.1] at hsy
    rcases mem_cons.mp hs with rfl | hs
    · exact h.apart y (hsub y hy) s (hsub s hx) hne s hsy mem_cons_self
    · rcases (hnew hx).2 s hs with hold | hfree
      · exact h.apart y (hsub y hy) x (hsub x hx) hne s hsy (mem_cons_of_mem x hold)
      · exact hfree ((h.inode y (hsub y hy)).fileSectors_used hsy).1
  refine ⟨⟨ok', by rw [hfile]; exact h.opened, ?_, ?_⟩, fun y hy hne => (hother y hy hne).2.2⟩
  · intro y hy
    by_cases hne : y = x
    · subst hne
      exact (hnew hy).1
    · exact (hother y hy hne).1
  · intro y hy z hz hyz s hs
    by_cases hyx : y = x
    · subst hyx
      exact hsep hy z hz (Ne.symm hyz) s hs
    · by_cases hzx : z = x
      · subst hzx
        exact fun hsz => hsep hz y hy hyz s hsz hs
      · rw [(hother y hy hyx).2.1] at hs
        rw [(hother z hz hzx).2.1]
        exact h.apart y (hsub y hy) z (hsub z hz) hyz s hs

section Steps

variable {fs fs' : FileSys} {data data' : BlockSector → InodeDisk} {live live' : List BlockSector}
  {x : BlockSector}

lemma Stored.others (h : Stored fs data live) (hx : x ∈ live) {y : BlockSector} (hy : y ∈ live)
    (hne : y ≠ x) {s : BlockSector} (hs : s ∈ fileSectors fs y (data y)) :
    Used fs s ∧ s ∉ mapData fs ∧ s ≠ x ∧ s ∉ ownSectors fs (inodeAt x (data x)) := by
  obtain ⟨hu, hmap⟩ := (h.inode y hy).fileSectors_used hs
  have hnot := h.apart y hy x hx hne s hs
  rw [fileSectors, mem_cons, not_or] at hnot
  exact ⟨hu, hmap, hnot.1, hnot.2⟩

lemma Stored.write (h : Stored fs data live) (hx : x ∈ live) {inode inode' : Inode}
    {buffer : Nat → UInt8} {offset written : Nat} (hinode : inode.data = data x)
    (hw : Written fs fs' inode inode' buffer offset written) (hself : data' x = inode'.data)
    (hdata : ∀ y ∈ live, y ≠ x → data' y = data y) :
    Stored fs' data' live ∧ ∀ y ∈ live, y ≠ x → SameFile fs (data y) fs' (data' y) := by
  have hold : ownSectors fs inode = ownSectors fs (inodeAt x (data x)) := by
    rw [← hinode]
    rfl
  have hown := hw.own
  rw [hold] at hown
  refine h.change (fun _ hy => hy) hw.ok hw.file_eq hw.mapData_eq hw.mapIndex_eq hdata ?_ ?_
  · intro y hy hne s hs
    obtain ⟨hu, hmap, -, hnot⟩ := h.others hx hy hne hs
    exact ⟨hw.kept s hu (by rwa [hold]) hmap, hw.used s hu⟩
  · intro _
    have hlive := h.inode x hx
    rw [hself]
    refine ⟨⟨⟨hw.laid.nonneg, hw.laid.le_max, hw.laid.file⟩, hw.used x hlive.sector_used, ?_, ?_⟩,
      hown⟩
    · rw [hw.mapData_eq, hw.mapIndex_eq]
      exact hlive.sector_apart
    · exact fun hmem => (hown x hmem).elim hlive.sector_notMem fun hfree => hfree hlive.sector_used

lemma Stored.release (h : Stored fs data live) (hx : x ∈ live) {gone : List BlockSector}
    (hr : Released fs fs' gone) (hgone : ∀ s ∈ gone, s ∈ fileSectors fs x (data x))
    (hsub : ∀ y ∈ live', y ∈ live ∧ y ≠ x) (hdata : ∀ y ∈ live', data' y = data y) :
    Stored fs' data' live' ∧ ∀ y ∈ live', SameFile fs (data y) fs' (data' y) := by
  have hchange := h.change (x := x) (fun y hy => (hsub y hy).1) hr.ok hr.file_eq hr.mapData_eq
    hr.mapIndex_eq (fun y hy _ => hdata y hy) ?_ fun hmem => absurd rfl (hsub x hmem).2
  · exact ⟨hchange.1, fun y hy => hchange.2 y hy (hsub y hy).2⟩
  · intro y hy hne s hs
    obtain ⟨hu, hmap⟩ := (h.inode y (hsub y hy).1).fileSectors_used hs
    have hnot := h.apart y (hsub y hy).1 x hx hne s hs
    exact ⟨hr.kept s hmap, (hr.used s).mpr ⟨hu, fun hg => hnot (hgone s hg)⟩⟩

end Steps

lemma sectorOf_of_inodeData {d' : InodeDisk} {n k : Nat}
    (h : inodeData fs' d' n = inodeData fs d n) (hk : k < n) :
    sectorOf fs' d' k = sectorOf fs d k := by
  have hget : ∀ (fs : FileSys) (d : InodeDisk),
      (inodeData fs d n)[k]? = some (sectorOf fs d k) := by
    intro fs d
    simp [inodeData, dataSectors, sectorOf, hk]
  exact Option.some.inj (by rw [← hget, ← hget, h])

lemma inodeLoad_eq (hlt : x.toNat < fs.size) : inodeLoad fs x = (inodeAt x (onDisk fs x), fs) := by
  unfold inodeLoad
  rw [blockRead_of_lt hlt]
  rfl

/-- The last close of an inode that is not removed: what its sector then stores is the same
file. -/
lemma LiveInode.store (ok : FsOk fs) (h : LiveInode fs (inodeAt x d)) :
    ∃ fs', blockWrite fs x d.toBlock = fs' ∧ Allocated (· = x) fs fs' [] ∧
      LiveInode fs' (inodeAt x (onDisk fs' x)) ∧
      ownSectors fs' (inodeAt x (onDisk fs' x)) = ownSectors fs (inodeAt x d) ∧
      SameFile fs d fs' (onDisk fs' x) := by
  obtain ⟨inode, fs', hload, hlive, hw, -, hlen, -, hdata, hindex⟩ := inodeLoad_live ok
    h.sector_used h.sector_apart h.nonneg h.le_max h.file h.sector_notMem
  have hlt : x.toNat < (blockWrite fs x d.toBlock).size := by
    have hsector := ok.lt_of_used h.sector_used
    rwa [blockWrite_rest]
  obtain ⟨hinode, hfs⟩ := Prod.mk.inj ((inodeLoad_eq hlt).symm.trans hload)
  rw [hfs] at hinode
  subst hinode
  rw [inodeLength_inodeAt] at hlen
  refine ⟨fs', hfs, hw, hlive, ?_, hlen, fun k hk => ?_⟩
  · rw [ownSectors, ownSectors, inodeLength_inodeAt, inodeLength_inodeAt, hlen]
    exact congrArg₂ _ hdata hindex
  · have hmem : sectorOf fs d (k / 512) ∈ ownSectors fs (inodeAt x d) :=
      mem_append_left _ (sectorOf_mem (by change _ < bytesToSectors d.length; omega))
    have hkept : fs'.disk (sectorOf fs d (k / 512)) = fs.disk (sectorOf fs d (k / 512)) :=
      hw.kept _ (h.file.owns.used _ hmem) (fun he => h.sector_notMem (he ▸ hmem))
        (h.file.owns.apart _ hmem).1
    have hsector : sectorOf fs' (onDisk fs' x) (k / 512) = sectorOf fs d (k / 512) :=
      sectorOf_of_inodeData hdata (show k / 512 < bytesToSectors d.length by omega)
    rw [fileByte, fileByte, hsector, hkept]

section Storing

variable {fs fs' : FileSys} {data data' : BlockSector → InodeDisk} {live : List BlockSector}
  {x : BlockSector}

lemma Stored.store (h : Stored fs data live) (hx : x ∈ live)
    (hfs : blockWrite fs x (data x).toBlock = fs') (hself : data' x = onDisk fs' x)
    (hdata : ∀ y ∈ live, y ≠ x → data' y = data y) :
    Stored fs' data' live ∧ ∀ y ∈ live, SameFile fs (data y) fs' (data' y) := by
  obtain ⟨fs₁, hfs₁, hw, hlive, hown, hsame⟩ := (h.inode x hx).store h.ok
  obtain rfl : fs₁ = fs' := hfs₁.symm.trans hfs
  have hchange := h.change (fun _ hy => hy) hw.ok hw.file_eq hw.mapData_eq hw.mapIndex_eq hdata
    ?_ ?_
  · refine ⟨hchange.1, fun y hy => ?_⟩
    by_cases hne : y = x
    · rwa [hne, hself]
    · exact hchange.2 y hy hne
  · intro y hy hne s hs
    obtain ⟨hu, hmap, hsx, -⟩ := h.others hx hy hne hs
    exact ⟨hw.kept s hu hsx hmap, (hw.used s).mpr (Or.inl hu)⟩
  · intro _
    rw [hself]
    exact ⟨hlive, fun s hs => Or.inl (hown ▸ hs)⟩

lemma inodeLoad_fst (fs : FileSys) (x : BlockSector) :
    (inodeLoad fs x).1 = inodeAt x (onDisk (inodeLoad fs x).2 x) := by
  have hdisk : (checkSector fs x).disk = fs.disk := by
    unfold checkSector
    split <;> rfl
  change inodeAt x (onDisk fs x) = inodeAt x (onDisk (checkSector fs x) x)
  rw [onDisk, onDisk, hdisk]

lemma Stored.empty (ok : FsOk fs) (hopen : fs.freeMap.file.isSome = true) : Stored fs data [] :=
  ⟨ok, hopen, fun _ hx => absurd hx not_mem_nil, fun _ hx => absurd hx not_mem_nil⟩

variable {length : Int} {subDir : Bool} {inode : Inode}

lemma createInode_inodeAt (hrun : createInode fs x length subDir = (inode, fs')) :
    inode = inodeAt x (onDisk fs' x) := by
  have hload := inodeLoad_fst (inodeCreate fs x length subDir).2 x
  rw [createInode] at hrun
  rwa [hrun] at hload

lemma Created.notMem_fileSectors (hc : Created fs fs' x length inode)
    (hrun : createInode fs x length subDir = (inode, fs')) {s : BlockSector} (hs : Used fs s)
    (hne : s ≠ x) : s ∉ fileSectors fs' x (onDisk fs' x) := by
  have hfresh := hc.alloc.fresh s
  rw [createInode_inodeAt hrun] at hfresh
  exact fun hmem => (mem_cons.mp hmem).elim hne fun hown => hfresh hown hs

lemma Stored.create (h : Stored fs (onDisk fs) live)
    (hrun : createInode fs x length subDir = (inode, fs')) (hc : Created fs fs' x length inode)
    (hfree : ∀ y ∈ live, x ∉ fileSectors fs y (onDisk fs y)) :
    Stored fs' (onDisk fs') (x :: live) := by
  have hnew := hc.live
  rw [createInode_inodeAt hrun] at hnew
  have hkept : ∀ y ∈ live, ∀ s ∈ fileSectors fs y (onDisk fs y),
      fs'.disk s = fs.disk s ∧ Used fs' s := by
    intro y hy s hs
    obtain ⟨hu, hmap⟩ := (h.inode y hy).fileSectors_used hs
    exact ⟨hc.alloc.kept s hu (fun he => hfree y hy (he ▸ hs)) hmap,
      (hc.alloc.used s).mpr (Or.inl hu)⟩
  have hother : ∀ y ∈ live, LiveInode fs' (inodeAt y (onDisk fs' y)) ∧
      fileSectors fs' y (onDisk fs' y) = fileSectors fs y (onDisk fs y) := by
    intro y hy
    have hstored : onDisk fs' y = onDisk fs y := by
      rw [onDisk, onDisk, (hkept y hy y mem_cons_self).1]
    rw [hstored]
    have hmoved := (h.inode y hy).transport (hkept y hy) hc.alloc.mapData_eq hc.alloc.mapIndex_eq
    exact ⟨hmoved.1, hmoved.2.1⟩
  have hsep : ∀ y ∈ live, ∀ s ∈ fileSectors fs y (onDisk fs y),
      s ∉ fileSectors fs' x (onDisk fs' x) := by
    intro y hy s hs
    exact hc.notMem_fileSectors hrun ((h.inode y hy).fileSectors_used hs).1
      fun he => hfree y hy (he ▸ hs)
  refine ⟨hc.alloc.ok, by rw [hc.alloc.file_eq]; exact h.opened, ?_, ?_⟩
  · intro y hy
    rcases mem_cons.mp hy with he | hy
    · rwa [he]
    · exact (hother y hy).1
  · intro y hy z hz hyz s hs
    rcases mem_cons.mp hy with hyx | hy
    · rcases mem_cons.mp hz with hzx | hz
      · exact absurd (hyx.trans hzx.symm) hyz
      · rw [(hother z hz).2]
        rw [hyx] at hs
        exact fun hsz => hsep z hz s hsz hs
    · rw [(hother y hy).2] at hs
      rcases mem_cons.mp hz with hzx | hz
      · rw [hzx]
        exact hsep y hy s hs
      · rw [(hother z hz).2]
        exact h.apart y hy z hz hyz s hs

end Storing

end Pintos.Filesys
