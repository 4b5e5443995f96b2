import Pintos.Filesys.GrowthPhases

/-!
# `inode_grow`, `inode_create` and the growth step of `inode_write_at`

An inode built by `inode_create` and extended any number of times keeps the
layout `byte_to_sector` expects: the phases of the previous module are put
together, and the disk inode survives its trip through a sector.
-/

namespace Pintos.Filesys

open Foundation Lib List UInt32

variable {fs fs' : FileSys} {sectors n : Nat} {inode : Inode} {diskLength length newLength : Int}
  {d : InodeDisk} {sector : BlockSector} {subDir : Bool}

lemma firstIndirAlloc_mono (h : (firstIndirAlloc fs sectors inode).fs.allocFailed = false) :
    fs.allocFailed = false :=
  openIndexBlock_mono (allocLoop_mono (by simpa [firstIndirAlloc] using h))

lemma secondIndirAlloc_mono (h : (secondIndirAlloc fs sectors inode).fs.allocFailed = false) :
    fs.allocFailed = false :=
  openIndexBlock_mono (secondIndirLoop_mono (by simpa [secondIndirAlloc] using h))

lemma inodeGrowSecond_mono
    (h : (inodeGrowSecond fs diskLength sectors inode).fs.allocFailed = false) :
    fs.allocFailed = false := by
  unfold inodeGrowSecond at h
  dsimp only at h
  split_ifs at h
  · exact secondIndirAlloc_mono h
  · exact secondIndirAlloc_mono h
  · exact h

lemma inodeGrowFirst_mono
    (h : (inodeGrowFirst fs diskLength sectors inode).fs.allocFailed = false) :
    fs.allocFailed = false := by
  unfold inodeGrowFirst at h
  dsimp only at h
  split_ifs at h
  · exact firstIndirAlloc_mono h
  · exact firstIndirAlloc_mono h
  · exact firstIndirAlloc_mono (inodeGrowSecond_mono h)
  · exact inodeGrowSecond_mono h

lemma inodeGrowDirect_mono
    (h : (inodeGrowDirect fs diskLength sectors inode).fs.allocFailed = false) :
    fs.allocFailed = false := by
  unfold inodeGrowDirect at h
  dsimp only at h
  split_ifs at h
  · exact h
  · exact allocLoop_mono h
  · exact allocLoop_mono (inodeGrowFirst_mono h)

def Inode.reindex (inode : Inode) (d : InodeDisk) : Inode :=
  { inode with data := { inode.data with
      ptr := d.ptr
      directLevelIndex := d.directLevelIndex
      firstLevelIndex := d.firstLevelIndex
      secondLevelIndex := d.secondLevelIndex } }

lemma firstIndirAlloc_inode (fs : FileSys) (sectors : Nat) (inode : Inode) :
    (firstIndirAlloc fs sectors inode).inode =
      inode.reindex (firstIndirAlloc fs sectors inode).inode.data := by
  unfold firstIndirAlloc
  dsimp only
  split <;> rfl

lemma secondIndirAllocDeep_inode (fs : FileSys) (sectors : Nat) (inode : Inode)
    (second : Nat → BlockSector) :
    (secondIndirAllocDeep fs sectors inode second).1.inode =
      inode.reindex (secondIndirAllocDeep fs sectors inode second).1.inode.data := by
  unfold secondIndirAllocDeep
  dsimp only
  split <;> rfl

lemma secondIndirLoop_inode (fuel : Nat) (fs : FileSys) (sectors : Nat) (inode : Inode)
    (second : Nat → BlockSector) :
    (secondIndirLoop fuel fs sectors inode second).1.inode =
      inode.reindex (secondIndirLoop fuel fs sectors inode second).1.inode.data := by
  induction fuel generalizing fs sectors inode second with
  | zero => rfl
  | succ fuel ih =>
    unfold secondIndirLoop
    dsimp only
    split_ifs
    · exact secondIndirAllocDeep_inode fs sectors inode second
    · rw [ih, secondIndirAllocDeep_inode]
      rfl
    · rfl

lemma secondIndirAlloc_inode (fs : FileSys) (sectors : Nat) (inode : Inode) :
    (secondIndirAlloc fs sectors inode).inode =
      inode.reindex (secondIndirAlloc fs sectors inode).inode.data := by
  unfold secondIndirAlloc
  dsimp only
  rw [secondIndirLoop_inode]
  rfl

section

variable (fs : FileSys) (diskLength : Int) (sectors : Nat) (inode : Inode)

lemma inodeGrowSecond_inode :
    (inodeGrowSecond fs diskLength sectors inode).inode =
      inode.reindex (inodeGrowSecond fs diskLength sectors inode).inode.data := by
  unfold inodeGrowSecond
  dsimp only
  split_ifs
  · exact secondIndirAlloc_inode fs sectors inode
  · exact secondIndirAlloc_inode fs sectors inode
  · rfl

lemma inodeGrowFirst_inode :
    (inodeGrowFirst fs diskLength sectors inode).inode =
      inode.reindex (inodeGrowFirst fs diskLength sectors inode).inode.data := by
  unfold inodeGrowFirst
  dsimp only
  split_ifs
  · exact firstIndirAlloc_inode fs sectors inode
  · exact firstIndirAlloc_inode fs sectors inode
  · rw [inodeGrowSecond_inode, firstIndirAlloc_inode]
    rfl
  · exact inodeGrowSecond_inode fs diskLength sectors inode

lemma inodeGrowDirect_inode :
    (inodeGrowDirect fs diskLength sectors inode).inode =
      inode.reindex (inodeGrowDirect fs diskLength sectors inode).inode.data := by
  unfold inodeGrowDirect
  dsimp only
  split_ifs
  · rfl
  · rfl
  · rw [inodeGrowFirst_inode]
    rfl

end

lemma inodeGrow_inode (fs : FileSys) (diskLength : Int) (inode : Inode) :
    (inodeGrow fs diskLength inode).inode =
      inode.reindex (inodeGrow fs diskLength inode).inode.data :=
  inodeGrowDirect_inode fs diskLength _ inode

/-! ## What `inode_grow` does -/

/-- A length less what does not fit in the index; whole sectors are taken off. -/
def cappedLength (newLength : Int) : Int :=
  newLength - 512 * ((bytesToSectors newLength - 16522 : Nat) : Int)

/-- The sectors left over come off the length that is returned. -/
structure GrowsTo (fs : FileSys) (inode : Inode) (n sectors : Nat) (diskLength : Int)
    (g : GrowReturn) (new : List BlockSector) : Prop where
  count : new.length = min sectors (16522 - n)
  length_eq : g.length = diskLength - 512 * ((sectors - new.length : Nat) : Int)
  extends_ : Extends fs g.fs inode.data g.inode.data n new

section

variable (ok : FsOk fs) (hf : FileAt fs inode.data n)
include ok hf

lemma inodeGrowSecond_spec (h138 : 138 ≤ n)
    (hpos : 0 < sectors) (hfit : 512 * (sectors : Int) < diskLength + 512)
    (hlen : diskLength ≤ 2147483136)
    (h : (inodeGrowSecond fs diskLength sectors inode).fs.allocFailed = false) :
    ∃ new, GrowsTo fs inode n sectors diskLength
      (inodeGrowSecond fs diskLength sectors inode) new := by
  have hdir : inode.data.directLevelIndex = secondLevIndex :=
    (counters_eq_iff.mp (levels_second h138 ▸ hf.counters)).1
  have hfail : (secondIndirAlloc fs sectors inode).fs.allocFailed = false := by
    unfold inodeGrowSecond at h
    dsimp only at h
    rw [if_pos hdir] at h
    split at h <;> exact h
  obtain ⟨new, hcount, hsec, hext⟩ := secondIndirAlloc_extends ok hf h138 hpos hfail
  have hw : wrap32 (diskLength - ((sectors - new.length : Nat) : Int) * (512 : Nat)) =
      diskLength - 512 * ((sectors - new.length : Nat) : Int) := by
    rw [wrap32_eq] <;> omega
  have hgrow : inodeGrowSecond fs diskLength sectors inode =
      ⟨diskLength - 512 * ((sectors - new.length : Nat) : Int),
        (secondIndirAlloc fs sectors inode).inode, (secondIndirAlloc fs sectors inode).fs⟩ := by
    unfold inodeGrowSecond
    dsimp only
    rw [if_pos hdir, hsec, if_neg (by omega)]
    simp only [blockSectorSize, hw]
  rw [hgrow]
  exact ⟨new, hcount, rfl, hext⟩

lemma GrowsTo.after {fs₁ : FileSys} {inode₁ : Inode} {g : GrowReturn} {new₁ new₂ : List BlockSector}
    (hext : Extends fs fs₁ inode.data inode₁.data n new₁) (hle : new₁.length ≤ sectors)
    (hg : GrowsTo fs₁ inode₁ (n + new₁.length) (sectors - new₁.length) diskLength g new₂) :
    GrowsTo fs inode n sectors diskLength g (new₁ ++ new₂) := by
  have hcount := hg.count
  have hbound := hext.bound
  refine ⟨?_, ?_, hext.trans ok hf hg.extends_⟩
  · rw [length_append]
    omega
  · rw [hg.length_eq, length_append, Nat.sub_sub]

lemma inodeGrowFirst_spec (h10 : 10 ≤ n)
    (hpos : 0 < sectors) (hfit : 512 * (sectors : Int) < diskLength + 512)
    (hlen : diskLength ≤ 2147483136)
    (h : (inodeGrowFirst fs diskLength sectors inode).fs.allocFailed = false) :
    ∃ new, GrowsTo fs inode n sectors diskLength
      (inodeGrowFirst fs diskLength sectors inode) new := by
  unfold inodeGrowFirst at h ⊢
  by_cases h138 : n < 138
  · have hdir : inode.data.directLevelIndex = firstLevIndex :=
      (counters_eq_iff.mp (levels_first h10 h138 ▸ hf.counters)).1
    simp only [if_pos hdir] at h ⊢
    generalize hg : firstIndirAlloc fs sectors inode = g at h ⊢
    have hfail : g.fs.allocFailed = false := by
      split_ifs at h
      · exact h
      · exact h
      · exact inodeGrowSecond_mono h
    obtain ⟨new, hcount, hsec, hext⟩ := firstIndirAlloc_extends ok hf h10 h138 hpos hg hfail
    rw [if_neg (by omega)] at h ⊢
    by_cases hzero : g.sectors = 0
    · rw [if_pos hzero]
      have hall : sectors - new.length = 0 := by omega
      exact ⟨new, by omega, by simp [hall], hext⟩
    · rw [if_neg hzero, hsec] at h ⊢
      obtain ⟨new', hnext⟩ := inodeGrowSecond_spec hext.grew.ok hext.file
        (by omega) (by omega) (by omega) hlen h
      exact ⟨new ++ new', GrowsTo.after ok hf hext (by omega) hnext⟩
  · have hdir := (counters_eq_iff.mp (levels_second (Nat.le_of_not_lt h138) ▸ hf.counters)).1
    have hne : inode.data.directLevelIndex ≠ firstLevIndex := by
      rw [hdir, firstLevIndex]
      omega
    rw [if_neg hne] at h ⊢
    exact inodeGrowSecond_spec ok hf (Nat.le_of_not_lt h138) hpos hfit hlen h

lemma inodeGrowDirect_spec
    (hfit : 512 * (sectors : Int) < diskLength + 512) (hlen : diskLength ≤ 2147483136)
    (h : (inodeGrowDirect fs diskLength sectors inode).fs.allocFailed = false) :
    ∃ new, GrowsTo fs inode n sectors diskLength
      (inodeGrowDirect fs diskLength sectors inode) new := by
  unfold inodeGrowDirect at h ⊢
  by_cases hs : sectors = 0
  · rw [if_pos hs]
    exact ⟨[], by simp [hs], by simp [hs], Extends.refl ok hf⟩
  · simp only [if_neg hs] at h ⊢
    generalize hloop : allocLoop firstLevIndex sectors inode.data.directLevelIndex
      inode.data.ptr fs = loop at h ⊢
    have hfail : loop.fs.allocFailed = false := by
      split_ifs at h
      · exact h
      · exact inodeGrowFirst_mono h
    obtain ⟨new, hcount, hsec, hext⟩ := direct_extends ok hf hloop hfail
    by_cases hzero : loop.sectors = 0
    · rw [if_pos hzero]
      have hall : sectors - new.length = 0 := by omega
      exact ⟨new, by omega, by simp [hall], hext⟩
    · rw [if_neg hzero, hsec] at h ⊢
      obtain ⟨new', hnext⟩ := inodeGrowFirst_spec hext.grew.ok hext.file
        (by omega) (by omega) (by omega) hlen h
      exact ⟨new ++ new', GrowsTo.after ok hf hext (by omega) hnext⟩

end

/-- When no allocation fails, `inode_grow` returns its length, less what is past the capacity. -/
lemma inodeGrow_spec (ok : FsOk fs)
    (hf : FileAt fs inode.data (bytesToSectors (inodeLength inode))) (h0 : 0 ≤ inodeLength inode)
    (hle : inodeLength inode ≤ diskLength) (hlen : diskLength ≤ 2147483136)
    (h : (inodeGrow fs diskLength inode).fs.allocFailed = false) :
    ∃ new, bytesToSectors (cappedLength diskLength) =
        bytesToSectors (inodeLength inode) + new.length ∧
      (inodeGrow fs diskLength inode).length = cappedLength diskLength ∧
      Extends fs (inodeGrow fs diskLength inode).fs inode.data
        (inodeGrow fs diskLength inode).inode.data (bytesToSectors (inodeLength inode)) new := by
  have hold := bytesToSectors_eq h0 (by omega)
  have hnew := bytesToSectors_eq (Int.le_trans h0 hle) hlen
  have hmono : bytesToSectors (inodeLength inode) ≤ bytesToSectors diskLength := by omega
  have hsub := subSize_eq hmono (by omega)
  unfold inodeGrow at h ⊢
  rw [hsub] at h ⊢
  obtain ⟨new, hg⟩ := inodeGrowDirect_spec ok hf (by omega) hlen h
  have hcount := hg.count
  have hbound := hf.bound
  have hcapped : cappedLength diskLength = diskLength - 512 * ((bytesToSectors diskLength -
      bytesToSectors (inodeLength inode) - new.length : Nat) : Int) := by
    unfold cappedLength
    omega
  refine ⟨new, ?_, by rw [hg.length_eq, hcapped], hg.extends_⟩
  rw [bytesToSectors_eq (by omega) (by omega)]
  omega

lemma le_of_le_maxFileLength (h : length ≤ maxFileLength) : length ≤ 2147483136 := by
  unfold maxFileLength at h
  omega

lemma cappedLength_of_le (h0 : 0 ≤ newLength) (h : newLength ≤ maxFileLength) :
    cappedLength newLength = newLength := by
  have hbound := (bytesToSectors_bounds h0 h).1
  unfold cappedLength
  omega

/-- An open inode whose length is in range and whose sectors are laid out. -/
structure LaidOut (fs : FileSys) (inode : Inode) : Prop where
  nonneg : 0 ≤ inodeLength inode
  le_max : inodeLength inode ≤ maxFileLength
  file : FileAt fs inode.data (bytesToSectors (inodeLength inode))

lemma LaidOut.placed (hl : LaidOut fs inode) (ok : FsOk fs) :
    Placed fs inode.data (bytesToSectors (inodeLength inode)) :=
  hl.file.layout.placed ok.bits

def ownSectors (fs : FileSys) (inode : Inode) : List BlockSector :=
  inodeData fs inode.data (bytesToSectors (inodeLength inode)) ++
    inodeIndex fs inode.data (bytesToSectors (inodeLength inode))

/-- The sector that holds the disk inode is one more sector in use. -/
structure LiveInode (fs : FileSys) (inode : Inode) : Prop extends LaidOut fs inode where
  sector_used : Used fs inode.sector
  sector_apart : inode.sector ∉ mapData fs ∧ inode.sector ∉ mapIndex fs
  sector_notMem : inode.sector ∉ ownSectors fs inode

lemma Extends.notMem {d' : InodeDisk} {new : List BlockSector} (h : Extends fs fs' d d' n new)
    {s : BlockSector} (hu : Used fs s) (hs : s ∉ inodeData fs d n ++ inodeIndex fs d n) :
    s ∉ inodeData fs' d' (n + new.length) ++ inodeIndex fs' d' (n + new.length) := by
  obtain ⟨pre, hperm, halloc⟩ := h.grew.alloc
  have hfresh : s ∉ pre ++ new := fun hmem => halloc.fresh s hmem hu
  rw [h.grew.data_eq]
  simp only [mem_append, hperm.mem_iff] at hs hfresh ⊢
  tauto

lemma extendTo_inode (fs : FileSys) (inode : Inode) (newLength : Int) :
    (extendTo fs inode newLength).1.openCnt = inode.openCnt ∧
      (extendTo fs inode newLength).1.denyWriteCnt = inode.denyWriteCnt ∧
      (extendTo fs inode newLength).1.removed = inode.removed ∧
      (extendTo fs inode newLength).1.sector = inode.sector := by
  have hg := inodeGrow_inode fs newLength inode
  unfold extendTo
  split
  · dsimp only
    rw [hg]
    exact ⟨rfl, rfl, rfl, rfl⟩
  · exact ⟨rfl, rfl, rfl, rfl⟩

lemma extendTo_mono (h : (extendTo fs inode newLength).2.allocFailed = false) :
    fs.allocFailed = false := by
  unfold extendTo at h
  split at h
  · exact inodeGrowDirect_mono h
  · exact h

def extendedLength (inode : Inode) (newLength : Int) : Int :=
  if inodeLength inode < newLength then cappedLength newLength else inodeLength inode

lemma extendedLength_of_le (h0 : 0 ≤ inodeLength inode) (h : newLength ≤ maxFileLength) :
    extendedLength inode newLength = max (inodeLength inode) newLength := by
  unfold extendedLength
  split
  · rw [cappedLength_of_le (by omega) h]
    omega
  · omega

lemma extendedLength_bounds (h0 : 0 ≤ inodeLength inode)
    (hle : inodeLength inode ≤ maxFileLength) (h : newLength ≤ 2147483136) :
    0 ≤ extendedLength inode newLength ∧ extendedLength inode newLength ≤ maxFileLength := by
  unfold extendedLength cappedLength maxFileLength
  unfold maxFileLength at hle
  split
  · have hn := bytesToSectors_eq (show 0 ≤ newLength by omega) h
    omega
  · omega

section

variable (ok : FsOk fs) (hl : LaidOut fs inode)
include ok hl

lemma extendTo_extends (hmax : newLength ≤ 2147483136)
    (h : (extendTo fs inode newLength).2.allocFailed = false) :
    ∃ new, inodeLength (extendTo fs inode newLength).1 = extendedLength inode newLength ∧
      bytesToSectors (extendedLength inode newLength) =
        bytesToSectors (inodeLength inode) + new.length ∧
      Extends fs (extendTo fs inode newLength).2 inode.data (extendTo fs inode newLength).1.data
        (bytesToSectors (inodeLength inode)) new := by
  unfold extendTo extendedLength at *
  by_cases hlt : inodeLength inode < newLength
  · simp only [if_pos hlt] at h ⊢
    obtain ⟨new, hcount, hret, hext⟩ :=
      inodeGrow_spec ok hl.file hl.nonneg (Int.le_of_lt hlt) hmax h
    exact ⟨new, hret, hcount, hext.bound, hext.counters, hext.grew⟩
  · simp only [if_neg hlt]
    exact ⟨[], trivial, rfl, Extends.refl ok hl.file⟩

lemma extendTo_spec (hmax : newLength ≤ maxFileLength)
    (h : (extendTo fs inode newLength).2.allocFailed = false) :
    ∃ new, inodeLength (extendTo fs inode newLength).1 = max (inodeLength inode) newLength ∧
      bytesToSectors (max (inodeLength inode) newLength) =
        bytesToSectors (inodeLength inode) + new.length ∧
      Extends fs (extendTo fs inode newLength).2 inode.data (extendTo fs inode newLength).1.data
        (bytesToSectors (inodeLength inode)) new := by
  rw [← extendedLength_of_le hl.nonneg hmax]
  exact extendTo_extends ok hl (le_of_le_maxFileLength hmax) h

lemma extendTo_laidOut (hmax : newLength ≤ 2147483136)
    (h : (extendTo fs inode newLength).2.allocFailed = false) :
    LaidOut (extendTo fs inode newLength).2 (extendTo fs inode newLength).1 := by
  obtain ⟨new, hlen, hcount, hext⟩ := extendTo_extends ok hl hmax h
  obtain ⟨h0, hle⟩ := extendedLength_bounds hl.nonneg hl.le_max hmax
  refine ⟨by rwa [hlen], by rwa [hlen], ?_⟩
  rw [hlen, hcount]
  exact hext.file

end

lemma extendTo_live (ok : FsOk fs) (hl : LiveInode fs inode) (hmax : newLength ≤ 2147483136)
    (h : (extendTo fs inode newLength).2.allocFailed = false) :
    LiveInode (extendTo fs inode newLength).2 (extendTo fs inode newLength).1 := by
  obtain ⟨new, hlen, hcount, hext⟩ := extendTo_extends ok hl.toLaidOut hmax h
  obtain ⟨pre, -, halloc⟩ := hext.grew.alloc
  have hsector := (extendTo_inode fs inode newLength).2.2.2
  refine ⟨extendTo_laidOut ok hl.toLaidOut hmax h, ?_, ?_, ?_⟩
  · rw [hsector]
    exact (halloc.used _).mpr (Or.inl hl.sector_used)
  · rw [hsector, halloc.mapData_eq, halloc.mapIndex_eq]
    exact hl.sector_apart
  · rw [ownSectors, hlen, hcount, hsector]
    exact hext.notMem hl.sector_used hl.sector_notMem

lemma ofBlock_toBlock_ptr (d : InodeDisk) {k : Nat} (h : k < 12) :
    (InodeDisk.ofBlock d.toBlock).ptr k = d.ptr k := by
  have hk : ¬ 111 + k = 0 ∧ ¬ 111 + k = 1 ∧ ¬ 111 + k < 111 ∧ 111 + k < 123 := by omega
  simp [InodeDisk.ofBlock, InodeDisk.toBlock, h, wordAt_packWords _ _ (show 4 * (111 + k) + 3 < 512
    by omega), InodeDisk.words, hk]

lemma ofBlock_toBlock_length (d : InodeDisk) (h0 : 0 ≤ d.length)
    (h : d.length ≤ maxFileLength) : (InodeDisk.ofBlock d.toBlock).length = d.length := by
  unfold maxFileLength at h
  have hmod : d.length % 2 ^ 32 = d.length := Int.emod_eq_of_lt h0 (by omega)
  have hword : wordAt d.toBlock 0 = ofNat d.length.toNat := by
    rw [InodeDisk.toBlock, wordAt_packWords _ _ (by omega), InodeDisk.words, if_pos rfl, hmod]
  have hnat : (ofNat d.length.toNat).toNat = d.length.toNat := by
    rw [toNat_ofNat']
    omega
  simp only [InodeDisk.ofBlock, hword, hnat]
  rw [wrap32_eq (by omega) (by omega)]
  omega

lemma ofBlock_toBlock_counters (d : InodeDisk) (hn : n ≤ 16522) (h : d.counters = levels n) :
    (InodeDisk.ofBlock d.toBlock).counters = levels n := by
  have hsmall : d.directLevelIndex < 2 ^ 32 ∧ d.firstLevelIndex < 2 ^ 32 ∧
      d.secondLevelIndex < 2 ^ 32 := by
    unfold levels at h
    split_ifs at h <;> rw [counters_eq_iff] at h <;> omega
  have hword : ∀ k, k < 128 → wordAt d.toBlock k = d.words k := fun k hk =>
    wordAt_packWords _ _ (by omega)
  have h124 : d.words 124 = ofNat d.directLevelIndex := rfl
  have h125 : d.words 125 = ofNat d.firstLevelIndex := rfl
  have h126 : d.words 126 = ofNat d.secondLevelIndex := rfl
  rw [← h]
  simp only [InodeDisk.counters, InodeDisk.ofBlock, hword 124 (by omega), hword 125 (by omega),
    hword 126 (by omega), h124, h125, h126, toNat_ofNat', Nat.mod_eq_of_lt hsmall.1,
    Nat.mod_eq_of_lt hsmall.2.1, Nat.mod_eq_of_lt hsmall.2.2]

lemma FileAt.congr_ptr (hf : FileAt fs d n) (d' : InodeDisk) (hc : d'.counters = levels n)
    (hp : ∀ k, k < 12 → d'.ptr k = d.ptr k) :
    FileAt fs d' n ∧ inodeData fs d' n = inodeData fs d n ∧
      inodeIndex fs d' n = inodeIndex fs d n := by
  have h10 := hp 10 (by omega)
  have h11 := hp 11 (by omega)
  have hsec : secondBlockOf fs d' = secondBlockOf fs d := by
    unfold secondBlockOf
    rw [h11]
  have hd : inodeData fs d' n = inodeData fs d n := by
    apply dataSectors_congr
    intro k hk
    rw [hsec, resolve, resolve, h10]
    by_cases hk10 : k < 10
    · rw [if_pos hk10, if_pos hk10, hp k (by omega)]
    · rw [if_neg hk10, if_neg hk10]
  have hi : inodeIndex fs d' n = inodeIndex fs d n := by
    rw [inodeIndex, hsec]
    exact indexSectors_congr (fun _ => h10) (fun _ => h11) fun _ _ => rfl
  exact ⟨⟨hf.bound, hc, by rw [hd, hi]; exact hf.owns⟩, hd, hi⟩

lemma FileAt.transport (hf : FileAt fs d n)
    (hdisk : ∀ s ∈ inodeIndex fs d n, fs'.disk s = fs.disk s)
    (hused : ∀ s ∈ inodeData fs d n ++ inodeIndex fs d n, Used fs s → Used fs' s)
    (hmd : mapData fs' = mapData fs) (hmi : mapIndex fs' = mapIndex fs) : FileAt fs' d n := by
  refine ⟨hf.bound, hf.counters, ?_⟩
  rw [inodeData_congr hdisk, inodeIndex_congr hdisk]
  refine ⟨hf.owns.nodup, fun s hs => hused s hs (hf.owns.used s hs), fun s hs => ?_⟩
  rw [hmd, hmi]
  exact hf.owns.apart s hs

lemma LaidOut.wrote {offset w start : Nat} {buffer : Nat → UInt8} (ok : FsOk fs)
    (hl : LaidOut fs inode)
    (hw : Wrote fs fs' inode.data (bytesToSectors (inodeLength inode)) offset w start buffer) :
    LaidOut fs' inode ∧ ownSectors fs' inode = ownSectors fs inode ∧ FsOk fs' ∧
      mapData fs' = mapData fs ∧ mapIndex fs' = mapIndex fs := by
  have hindex := hw.index_eq (hl.placed ok)
  obtain ⟨ok', hmd, hmi⟩ := ok.transport fs' (by rw [hw.rest]) (by rw [hw.rest]) (by rw [hw.rest])
    (fun s hs => hw.frame s fun hd => (hl.file.owns.apart s (mem_append_left _ hd)).2 hs)
    (fun s _ hs => (hw.used s).mpr hs)
  have hf := hl.file.transport hindex (fun s _ hs => (hw.used s).mpr hs) hmd hmi
  refine ⟨⟨hl.nonneg, hl.le_max, hf⟩, ?_, ok', hmd, hmi⟩
  rw [ownSectors, ownSectors, inodeData_congr hindex, inodeIndex_congr hindex]

/-! ## `inode_create` and `inode_open` -/

lemma inodeIndex_zero (fs : FileSys) (d : InodeDisk) : inodeIndex fs d 0 = [] :=
  indexSectors_direct (Nat.zero_le _)

lemma FileAt.empty (fs : FileSys) (hc : d.counters = (0, 0, 0)) : FileAt fs d 0 := by
  refine ⟨Nat.zero_le _, hc, ?_⟩
  rw [inodeIndex_zero]
  exact ⟨nodup_nil, by simp [inodeData, dataSectors], by simp [inodeData, dataSectors]⟩

lemma inodeAllocate_spec (ok : FsOk fs) (h0 : 0 ≤ d.length) (hmax : d.length ≤ maxFileLength)
    (h : (inodeAllocate fs d).2.allocFailed = false) :
    ∃ new, FileAt (inodeAllocate fs d).2 (inodeAllocate fs d).1 (bytesToSectors d.length) ∧
      Grew fs (inodeAllocate fs d).2 [] []
        (inodeData (inodeAllocate fs d).2 (inodeAllocate fs d).1 (bytesToSectors d.length))
        (inodeIndex (inodeAllocate fs d).2 (inodeAllocate fs d).1 (bytesToSectors d.length)) new ∧
      (inodeAllocate fs d).1.length = d.length := by
  unfold inodeAllocate at h ⊢
  dsimp only at h ⊢
  generalize hinode : (⟨0, 0, false, 0, { d with
    length := 0, ptr := fs.uninit fs.disk, directLevelIndex := 0, firstLevelIndex := 0,
    secondLevelIndex := 0 }⟩ : Inode) = inode at h ⊢
  have hzero : bytesToSectors (inodeLength inode) = 0 := by
    rw [← hinode]
    rfl
  have hf : FileAt fs inode.data (bytesToSectors (inodeLength inode)) := by
    rw [hzero, ← hinode]
    exact FileAt.empty fs rfl
  have hlen : inodeLength inode = 0 := by
    rw [← hinode]
    rfl
  obtain ⟨new, hcount, -, hext⟩ := inodeGrow_spec ok hf (by omega) (by omega)
    (le_of_le_maxFileLength hmax) h
  rw [cappedLength_of_le h0 hmax] at hcount
  have hdata : inodeData fs inode.data 0 = [] := rfl
  rw [hzero, Nat.zero_add] at hcount
  rw [hzero] at hext
  have hfile := hext.file
  have hgrew := hext.grew
  rw [Nat.zero_add, ← hcount] at hfile hgrew
  rw [hdata, inodeIndex_zero] at hgrew
  generalize inodeGrow fs d.length inode = g at hfile hgrew ⊢
  obtain ⟨hf', hd, hi⟩ := hfile.congr_ptr { d with
    ptr := g.inode.data.ptr
    directLevelIndex := g.inode.data.directLevelIndex
    firstLevelIndex := g.inode.data.firstLevelIndex
    secondLevelIndex := g.inode.data.secondLevelIndex } hfile.counters fun _ _ => rfl
  exact ⟨new, hf', by rw [hd, hi]; exact hgrew, rfl⟩

def createInode (fs : FileSys) (sector : BlockSector) (length : Int) (subDir : Bool) :
    Inode × FileSys :=
  inodeLoad (inodeCreate fs sector length subDir).2 sector

lemma inodeCreate_of_built (h0 : 0 ≤ length)
    (hbuilt : (inodeCreate fs sector length subDir).1 = true) :
    (inodeCreate fs sector length subDir).2 =
      blockWrite (inodeAllocate fs (newInodeDisk fs length subDir)).2 sector
        (inodeAllocate fs (newInodeDisk fs length subDir)).1.toBlock := by
  unfold inodeCreate at hbuilt ⊢
  rw [if_pos h0] at hbuilt ⊢
  dsimp only at hbuilt ⊢
  generalize inodeAllocate fs (newInodeDisk fs length subDir) = a at hbuilt ⊢
  by_cases hm : fs.mallocOk = true
  · rw [if_pos hm]
  · simp [if_neg hm] at hbuilt

lemma inodeLength_mk (openCnt denyWriteCnt : Int) (removed : Bool) (sector : BlockSector)
    (d : InodeDisk) : inodeLength ⟨openCnt, denyWriteCnt, removed, sector, d⟩ = d.length := rfl

/-- Writing a disk inode to a sector that is none of its own and reading it back
gives a live inode. -/
lemma inodeLoad_live (ok : FsOk fs) (hu : Used fs sector)
    (hmap : sector ∉ mapData fs ∧ sector ∉ mapIndex fs) (h0 : 0 ≤ d.length)
    (hmax : d.length ≤ maxFileLength) (hf : FileAt fs d (bytesToSectors d.length))
    (hnot : sector ∉ inodeData fs d (bytesToSectors d.length) ++
      inodeIndex fs d (bytesToSectors d.length)) :
    ∃ inode fs', inodeLoad (blockWrite fs sector d.toBlock) sector = (inode, fs') ∧
      LiveInode fs' inode ∧ Allocated (· = sector) fs fs' [] ∧
      inode = ⟨1, 0, false, sector, inode.data⟩ ∧ inodeLength inode = d.length ∧
      fs'.dataLog = fs.dataLog ∧ inodeData fs' inode.data (bytesToSectors d.length) =
        inodeData fs d (bytesToSectors d.length) ∧
      inodeIndex fs' inode.data (bytesToSectors d.length) =
        inodeIndex fs d (bytesToSectors d.length) := by
  have hlt := ok.lt_of_used hu
  have hw := Allocated.blockWrite ok hu hmap.2 d.toBlock
  have hself := blockWrite_disk_self hlt d.toBlock
  have hlog : (blockWrite fs sector d.toBlock).dataLog = fs.dataLog := by
    rw [blockWrite, if_pos hlt]
  generalize blockWrite fs sector d.toBlock = fs' at hw hself hlog ⊢
  have hu' : Used fs' sector := (hw.used sector).mpr (Or.inl hu)
  have hkeep : ∀ s ∈ inodeIndex fs d (bytesToSectors d.length), fs'.disk s = fs.disk s := by
    intro s hs
    have hmem := mem_append_right (inodeData fs d (bytesToSectors d.length)) hs
    exact hw.kept s (hf.owns.used s hmem) (fun he => hnot (he ▸ hmem)) (hf.owns.apart s hmem).1
  have hf' := hf.transport hkeep (fun s _ hs => (hw.used s).mpr (Or.inl hs)) hw.mapData_eq
    hw.mapIndex_eq
  obtain ⟨hfile, hd, hi⟩ := hf'.congr_ptr (InodeDisk.ofBlock d.toBlock)
    (ofBlock_toBlock_counters d hf.bound hf.counters) fun k hk => ofBlock_toBlock_ptr d hk
  have hlength := ofBlock_toBlock_length d h0 hmax
  have hload : inodeLoad fs' sector =
      (⟨1, 0, false, sector, InodeDisk.ofBlock d.toBlock⟩, fs') := by
    rw [inodeLoad, blockRead_of_lt (hw.ok.lt_of_used hu'), hself]
  generalize InodeDisk.ofBlock d.toBlock = d' at hfile hd hi hlength hload
  have hlen : inodeLength ⟨1, 0, false, sector, d'⟩ = d.length := by
    rw [inodeLength_mk, hlength]
  refine ⟨⟨1, 0, false, sector, d'⟩, fs', hload, ?_, hw, rfl, hlen, hlog, ?_, ?_⟩
  · refine ⟨⟨?_, ?_, ?_⟩, hu', ?_, ?_⟩
    · rwa [hlen]
    · rwa [hlen]
    · rwa [hlen]
    · rwa [hw.mapData_eq, hw.mapIndex_eq]
    · rwa [ownSectors, hlen, hd, hi, inodeData_congr hkeep, inodeIndex_congr hkeep]
  · rw [hd, inodeData_congr hkeep]
  · rw [hi, inodeIndex_congr hkeep]

lemma createInode_mono (h0 : 0 ≤ length) (hbuilt : (inodeCreate fs sector length subDir).1 = true)
    (h : (createInode fs sector length subDir).2.allocFailed = false) :
    (inodeAllocate fs (newInodeDisk fs length subDir)).2.allocFailed = false := by
  rw [createInode, inodeCreate_of_built h0 hbuilt, inodeLoad, blockRead] at h
  simpa using h

/-- A new file: its sectors are those allocated, logged in order and zero. -/
structure Created (fs fs' : FileSys) (sector : BlockSector) (length : Int) (inode : Inode) :
    Prop where
  live : LiveInode fs' inode
  inode_eq : inode = ⟨1, 0, false, sector, inode.data⟩
  length_eq : inodeLength inode = length
  alloc : Allocated (· = sector) fs fs' (ownSectors fs' inode)
  log : fs'.dataLog = fs.dataLog ++ inodeData fs' inode.data (bytesToSectors length)
  zeroed : ∀ s ∈ inodeData fs' inode.data (bytesToSectors length), fs'.disk s = zeros

lemma createInode_spec (ok : FsOk fs) (hu : Used fs sector)
    (hmap : sector ∉ mapData fs ∧ sector ∉ mapIndex fs) (h0 : 0 ≤ length)
    (hmax : length ≤ maxFileLength) (hbuilt : (inodeCreate fs sector length subDir).1 = true)
    (h : (createInode fs sector length subDir).2.allocFailed = false) :
    ∃ inode fs', createInode fs sector length subDir = (inode, fs') ∧
      Created fs fs' sector length inode := by
  have hlen₀ : (newInodeDisk fs length subDir).length = length := rfl
  obtain ⟨new, hf, hgrew, hlen⟩ := inodeAllocate_spec ok (hlen₀ ▸ h0) (hlen₀ ▸ hmax)
    (createInode_mono h0 hbuilt h)
  rw [createInode, inodeCreate_of_built h0 hbuilt]
  rw [hlen₀] at hf hgrew hlen
  generalize inodeAllocate fs (newInodeDisk fs length subDir) = a at hf hgrew hlen ⊢
  obtain ⟨d, fs₁⟩ := a
  dsimp only at hf hgrew hlen ⊢
  subst hlen
  obtain ⟨pre, hperm, halloc⟩ := hgrew.alloc
  have hdata₁ := hgrew.data_eq
  rw [nil_append] at hperm hdata₁
  have hall : Allocated (· ∈ []) fs fs₁ (inodeData fs₁ d (bytesToSectors d.length) ++
      inodeIndex fs₁ d (bytesToSectors d.length)) := by
    rw [hdata₁]
    exact halloc.perm (perm_append_comm.trans (hperm.symm.append_left new))
  -- the sector was in use before the allocations, so it is none of the new ones
  have hnot : sector ∉ inodeData fs₁ d (bytesToSectors d.length) ++
      inodeIndex fs₁ d (bytesToSectors d.length) := fun hmem => hall.fresh sector hmem hu
  obtain ⟨inode, fs', hload, hlive, hw, hinode, hlength, hlog, hdata, hindex⟩ := inodeLoad_live
    halloc.ok ((halloc.used sector).mpr (Or.inl hu))
    (by rwa [halloc.mapData_eq, halloc.mapIndex_eq]) h0 hmax hf hnot
  have hboth : Allocated (· = sector) fs fs' (ownSectors fs' inode) := by
    have htouch : Allocated (· = sector) fs fs₁ (inodeData fs₁ d (bytesToSectors d.length) ++
        inodeIndex fs₁ d (bytesToSectors d.length)) :=
      { hall with kept := fun s hs _ => hall.kept s hs (not_mem_nil) }
    rw [ownSectors, hlength, hdata, hindex]
    simpa using htouch.trans hw fun _ _ h => h
  refine ⟨inode, fs', hload, hlive, hinode, hlength, hboth, ?_, ?_⟩
  · rw [hlog, hgrew.log, hdata, hdata₁]
  · intro s hs
    rw [hdata] at hs
    have hmem := mem_append_left (inodeIndex fs₁ d (bytesToSectors d.length)) hs
    rw [hw.kept s (hf.owns.used s hmem) (fun he => hnot (he ▸ hmem)) (hf.owns.apart s hmem).1]
    exact hgrew.zeroed s (hdata₁ ▸ hs)

/-- The growth steps of a sequence of writes that end at the given positions. -/
def growRun (start : Inode × FileSys) (ends : List Int) : Inode × FileSys :=
  ends.foldl (fun state newLength => extendTo state.2 state.1 newLength) start

lemma growRun_mono {start : Inode × FileSys} {ends : List Int}
    (h : (growRun start ends).2.allocFailed = false) : start.2.allocFailed = false := by
  induction ends generalizing start with
  | nil => exact h
  | cons newLength ends ih => exact extendTo_mono (ih h)

lemma growRun_spec {ends : List Int} (ok : FsOk fs) (hl : LiveInode fs inode)
    (hends : ∀ l ∈ ends, l ≤ maxFileLength) (h : (growRun (inode, fs) ends).2.allocFailed = false) :
    ∃ new, FsOk (growRun (inode, fs) ends).2 ∧
      LiveInode (growRun (inode, fs) ends).2 (growRun (inode, fs) ends).1 ∧
      inodeLength (growRun (inode, fs) ends).1 = ends.foldl max (inodeLength inode) ∧
      (growRun (inode, fs) ends).2.dataLog = fs.dataLog ++ new ∧
      inodeData (growRun (inode, fs) ends).2 (growRun (inode, fs) ends).1.data
          (bytesToSectors (inodeLength (growRun (inode, fs) ends).1)) =
        inodeData fs inode.data (bytesToSectors (inodeLength inode)) ++ new := by
  induction ends generalizing inode fs with
  | nil => exact ⟨[], ok, hl, rfl, by simp [growRun], by simp [growRun]⟩
  | cons newLength ends ih =>
    have hfail : (extendTo fs inode newLength).2.allocFailed = false := growRun_mono h
    have hmax := hends newLength mem_cons_self
    obtain ⟨new, hlen, hcount, hext⟩ := extendTo_spec ok hl.toLaidOut hmax hfail
    obtain ⟨new', hok, hlive, hlen', hlog, hdata⟩ := ih hext.grew.ok
      (extendTo_live ok hl (le_of_le_maxFileLength hmax) hfail)
      (fun l hm => hends l (mem_cons_of_mem _ hm)) h
    refine ⟨new ++ new', hok, hlive, ?_, ?_, ?_⟩
    · rwa [foldl_cons, ← hlen]
    · rwa [← append_assoc, ← hext.grew.log]
    · rwa [← append_assoc, ← hext.grew.data_eq, ← hcount, ← hlen]

lemma LaidOut.byteToSector_eq (ok : FsOk fs) (hl : LaidOut fs inode) {k : Nat}
    (hk : k < (inodeData fs inode.data (bytesToSectors (inodeLength inode))).length) :
    byteToSector fs inode (512 * k) =
      ((inodeData fs inode.data (bytesToSectors (inodeLength inode)))[k], fs) := by
  obtain ⟨-, -, hlow⟩ := bytesToSectors_bounds hl.nonneg hl.le_max
  have hk' : k < bytesToSectors (inodeLength inode) := by
    simpa [inodeData] using hk
  have hdiv : 512 * k / 512 = k := by omega
  rw [Filesys.byteToSector_eq (hl.placed ok) (by omega) (by omega), hdiv]
  simp [inodeData, dataSectors]

/-- However a file came to its length, `byte_to_sector` returns its data sectors in the order of
their allocation, and all its sectors are distinct and in use. -/
theorem growRun_layout {fs fs' : FileSys} {sector : BlockSector} {length : Int} {subDir : Bool}
    {ends : List Int} {inode : Inode} (ok : FsOk fs) (hu : Used fs sector)
    (hmap : sector ∉ mapData fs ∧ sector ∉ mapIndex fs) (h0 : 0 ≤ length)
    (hmax : length ≤ maxFileLength) (hends : ∀ l ∈ ends, l ≤ maxFileLength)
    (hbuilt : (inodeCreate fs sector length subDir).1 = true)
    (hrun : growRun (createInode fs sector length subDir) ends = (inode, fs'))
    (hsucc : fs'.allocFailed = false) :
    inodeLength inode = ends.foldl max length ∧
      inode.data.counters = levels (bytesToSectors (inodeLength inode)) ∧
      ∃ data, fs'.dataLog = fs.dataLog ++ data ∧
        data.length = bytesToSectors (inodeLength inode) ∧
        (∀ k (hk : k < data.length), byteToSector fs' inode (512 * k) = (data[k], fs')) ∧
        (data ++ inodeIndex fs' inode.data (bytesToSectors (inodeLength inode))).Nodup ∧
        ∀ s ∈ data ++ inodeIndex fs' inode.data (bytesToSectors (inodeLength inode)),
          Used fs' s := by
  have hfail : (growRun (createInode fs sector length subDir) ends).2.allocFailed = false := by
    rw [hrun]
    exact hsucc
  obtain ⟨inode₀, fs₀, hcreate, hc⟩ :=
    createInode_spec ok hu hmap h0 hmax hbuilt (growRun_mono hfail)
  rw [hcreate] at hrun hfail
  obtain ⟨new, hok, hl, hlen, hlog, hdata⟩ := growRun_spec hc.alloc.ok hc.live hends hfail
  rw [hrun] at hok hl hlen hlog hdata
  rw [hc.length_eq] at hlen hdata
  refine ⟨hlen, hl.file.counters,
    inodeData fs' inode.data (bytesToSectors (inodeLength inode)), ?_, ?_, ?_, ?_, ?_⟩
  · rw [hlog, hc.log, hdata, append_assoc]
  · exact dataSectors_length _ _ _ _
  · exact fun k hk => hl.toLaidOut.byteToSector_eq hok hk
  · exact hl.file.owns.nodup
  · exact hl.file.owns.used

/-- A device of sixteen sectors on which only the first two are in use. -/
def smallVolume : FileSys where
  size := 16
  disk := fun _ => zeros
  freeMap := { map := ⟨16, fun _ => 3⟩, file := none, fits := by simp }
  rootDirSector := 1
  mallocOk := true
  uninit := fun _ _ => 0
  panicked := false
  allocFailed := false
  dataLog := []

lemma smallVolume_ok : FsOk smallVolume :=
  ⟨rfl, by decide, by simp [smallVolume]⟩

theorem growRun_layout_smallVolume :
    ∃ data, (growRun (createInode smallVolume 1 600 false) [700, 6000]).2.dataLog = [] ++ data ∧
      data.length = 12 := by
  have hrun := growRun_layout smallVolume_ok (by decide) (by decide) (by decide) (by decide)
    (by decide) (show (inodeCreate smallVolume 1 600 false).1 = true by decide +kernel)
    (show growRun (createInode smallVolume 1 600 false) [700, 6000] = (_, _) from rfl)
    (by decide +kernel)
  obtain ⟨hlen, -, data, hlog, hcount, -⟩ := hrun
  refine ⟨data, hlog, ?_⟩
  rw [hcount, hlen]
  decide

end Pintos.Filesys
