import Pintos.Filesys.FileGrowth
import Mathlib.Data.Finset.Card

/-!
# Growth succeeds while free sectors last

A `free_map_allocate` call fails only if the map is full or cannot be saved. So a
growth step succeeds when the free sectors cover its data sectors and the index
blocks it starts; `Room fs k` stands for `k` calls that are sure to succeed.
-/

namespace Pintos.Filesys

open Foundation Lib List

def freeSectors (fs : FileSys) : Finset Nat :=
  (Finset.range fs.freeMap.map.bitCnt).filter fun i => bitmapTest fs.freeMap.map i = false

/-- The map can be saved: its file is not write-protected, and there is memory. -/
structure MapWritable (fs : FileSys) : Prop where
  memory : fs.mallocOk = true
  allowed : ∀ inode ∈ fs.freeMap.file, inode.denyWriteCnt = 0

structure Room (fs : FileSys) (k : Nat) : Prop where
  ok : FsOk fs
  writable : MapWritable fs
  intact : fs.allocFailed = false
  room : k ≤ (freeSectors fs).card

variable {fs fs' : FileSys} {new : List BlockSector} {inode : Inode}
  {slots names second : Nat → BlockSector} {index i sectors n : Nat} {isNew : Bool}
  {diskLength : Int}

lemma Allocated.freeSectors_card {touched : BlockSector → Prop}
    (h : Allocated touched fs fs' new) (ok : FsOk fs) :
    (freeSectors fs').card + new.length = (freeSectors fs).card := by
  have hcnt : fs'.freeMap.map.bitCnt = fs.freeMap.map.bitCnt := by
    rw [h.ok.bits, ok.bits, h.size_eq]
  have hsmall : fs.freeMap.map.bitCnt ≤ 2 ^ 32 := ok.bits ▸ ok.size_le
  have hnat : ∀ i, i < fs.freeMap.map.bitCnt → (UInt32.ofNat i).toNat = i := by
    intro i hi
    rw [UInt32.toNat_ofNat']
    omega
  have hfree : ∀ fs' : FileSys, fs'.freeMap.map.bitCnt = fs.freeMap.map.bitCnt → ∀ i,
      i ∈ freeSectors fs' ↔ i < fs.freeMap.map.bitCnt ∧ ¬ Used fs' (UInt32.ofNat i) := by
    intro fs' hc i
    simp only [freeSectors, Finset.mem_filter, Finset.mem_range, hc]
    constructor
    · rintro ⟨hi, hbit⟩
      exact ⟨hi, fun hu => by simp [Used, hnat i hi, hbit] at hu⟩
    · rintro ⟨hi, hu⟩
      refine ⟨hi, ?_⟩
      simpa [Used, hnat i hi, hc, hi] using hu
  have hsub : (new.map UInt32.toNat).toFinset ⊆ freeSectors fs := by
    intro i hi
    obtain ⟨s, hs, rfl⟩ := mem_map.mp (mem_toFinset.mp hi)
    have hlt : s.toNat < fs.freeMap.map.bitCnt := hcnt ▸ ((h.used s).mpr (Or.inr hs)).1
    rw [hfree fs rfl]
    exact ⟨hlt, by simpa using h.fresh s hs⟩
  have heq : freeSectors fs' = freeSectors fs \ (new.map UInt32.toNat).toFinset := by
    ext i
    rw [Finset.mem_sdiff, hfree fs' hcnt, hfree fs rfl, h.used, mem_toFinset, mem_map]
    constructor
    · rintro ⟨hi, hu⟩
      refine ⟨⟨hi, fun hu' => hu (Or.inl hu')⟩, ?_⟩
      rintro ⟨s, hs, rfl⟩
      exact hu (Or.inr (by simpa using hs))
    · rintro ⟨⟨hi, hu⟩, hnew⟩
      exact ⟨hi, fun hor => hor.elim hu fun hs => hnew ⟨_, hs, hnat i hi⟩⟩
  have hcard : (new.map UInt32.toNat).toFinset.card = new.length := by
    rw [toFinset_card_of_nodup, length_map]
    exact h.nodup.map fun a b hab => UInt32.toNat_inj.mp hab
  rw [heq, ← hcard, Finset.card_sdiff_add_card_eq_card hsub]

lemma Room.after {touched : BlockSector → Prop} {k : Nat} (h : Room fs (new.length + k))
    (halloc : Allocated touched fs fs' new) (hf : fs'.allocFailed = false) : Room fs' k := by
  refine ⟨halloc.ok, ⟨by rw [halloc.mallocOk_eq]; exact h.writable.memory, ?_⟩, hf, ?_⟩
  · rw [halloc.file_eq]
    exact h.writable.allowed
  · have := halloc.freeSectors_card h.ok
    have := h.room
    omega

lemma Room.mono {j k : Nat} (h : Room fs k) (hle : j ≤ k) : Room fs j :=
  { h with room := Nat.le_trans hle h.room }

lemma bitmapWrite_succeeds (ok : FsOk fs) (hw : MapWritable fs)
    (hf : fs.freeMap.file = some inode) : (bitmapWrite fs inode).1 = true := by
  obtain ⟨h0, hmax, hl⟩ := ok.file inode hf
  obtain ⟨w, hres, -, -, hall⟩ := inodeWriteLoop_spec (bitmapByte fs.freeMap.map)
    (byteCnt fs.freeMap.map.bitCnt) (byteCnt fs.freeMap.map.bitCnt) 0 0 (hl.placed ok.bits)
    (bytesToSectors_bounds h0 hmax).2.1
  have hsize := hall hw.memory (by simp) (by have := fs.freeMap.fits inode hf; omega)
  have hdeny := hw.allowed inode hf
  unfold bitmapWrite
  simp only [hdeny, ne_eq, not_true_eq_false, if_false, hres]
  simp [hsize]

lemma freeMapAllocate_succeeds (h : Room fs 1) : (freeMapAllocate fs 1).2.allocFailed = false := by
  obtain ⟨i, hi⟩ := Finset.card_pos.mp h.room
  simp only [freeSectors, Finset.mem_filter, Finset.mem_range] at hi
  unfold freeMapAllocate bitmapScanAndFlip
  cases hscan : bitmapScan fs.freeMap.map 0 1 false with
  | none => simp [bitmapScan_none hscan i hi.1] at hi
  | some idx =>
    have halloc := setMap_spec h.ok hscan
    have hroom := h.writable
    have hintact : (fs.setMap (bitmapSetMultiple fs.freeMap.map idx 1 true)).allocFailed = false :=
      h.intact
    simp only [Bool.not_false]
    generalize fs.setMap (bitmapSetMultiple fs.freeMap.map idx 1 true) = fs₁ at halloc hintact ⊢
    cases hf : fs₁.freeMap.file with
    | none => exact hintact
    | some inode =>
      have hw : MapWritable fs₁ :=
        ⟨by rw [halloc.mallocOk_eq]; exact hroom.memory, by
          rw [halloc.file_eq]; exact hroom.allowed⟩
      simp only [bitmapWrite_succeeds halloc.ok hw hf, if_true, bitmapWrite_allocFailed]
      exact hintact

lemma allocSlot_succeeds (h : Room fs 1) : (allocSlot fs slots index).2.allocFailed = false := by
  have hfail := freeMapAllocate_succeeds h
  unfold allocSlot
  split <;> simp_all

lemma allocData_succeeds (h : Room fs 1) : (allocData fs slots index).2.allocFailed = false := by
  simpa [allocData] using allocSlot_succeeds h

lemma openIndexBlock_succeeds (h : Room fs 1) :
    (openIndexBlock fs isNew names i).fs.allocFailed = false := by
  cases isNew with
  | true => simpa [openIndexBlock] using allocSlot_succeeds h
  | false => simpa [openIndexBlock, blockRead] using h.intact

/-! ## The growth functions -/

lemma allocLoop_succeeds {bound : Nat} (h : Room fs (min sectors (bound - index))) :
    (allocLoop bound sectors index slots fs).fs.allocFailed = false := by
  induction sectors generalizing index slots fs with
  | zero => exact h.intact
  | succ sectors ih =>
    unfold allocLoop
    by_cases hb : index < bound
    · have hmin : min (sectors + 1) (bound - index) = 1 + min sectors (bound - (index + 1)) := by
        omega
      rw [hmin] at h
      have hok : (allocData fs slots index).2.allocFailed = false :=
        allocData_succeeds (h.mono (by omega))
      obtain ⟨s, -, halloc, -⟩ := allocData_spec h.ok hok
      simp only [if_pos hb]
      exact ih (h.after halloc hok)
    · rw [if_neg hb]
      exact h.intact

lemma Opened.pre_length {block : IndexBlock} {pre : List BlockSector}
    (h : Opened fs isNew names i block pre) : pre.length ≤ 1 := by
  cases hn : isNew with
  | true => simp [h.new hn]
  | false => simp [(h.old hn).1]

lemma blockGrown_succeeds {data index : List BlockSector} (owns : Owns fs data index)
    {start : Nat} (hold : isNew = false → names i ∈ index)
    (h : Room fs (1 + min sectors (128 - start))) :
    (allocLoop 128 sectors start (openIndexBlock fs isNew names i).slots
      (openIndexBlock fs isNew names i).fs).fs.allocFailed = false := by
  have hopen : (openIndexBlock fs isNew names i).fs.allocFailed = false :=
    openIndexBlock_succeeds (h.mono (by omega))
  obtain ⟨pre, ho⟩ := openIndexBlock_spec h.ok hopen fun hn => by
    have hmem := mem_append_right data (hold hn)
    exact ⟨owns.used _ hmem, owns.apart _ hmem⟩
  have hlen := ho.pre_length
  exact allocLoop_succeeds ((h.mono (by omega)).after ho.alloc hopen)

lemma firstIndirAlloc_succeeds (hf : FileAt fs inode.data n) (h10 : 10 ≤ n) (h138 : n < 138)
    (h : Room fs (1 + min sectors (138 - n))) :
    (firstIndirAlloc fs sectors inode).fs.allocFailed = false := by
  obtain ⟨-, hfirst, -⟩ := counters_eq_iff.mp (levels_first h10 h138 ▸ hf.counters)
  unfold firstIndirAlloc
  simp only [blockWrite_allocFailed, hfirst]
  refine blockGrown_succeeds hf.owns (fun hn => ptr10_mem_indexSectors ?_) (h.mono (by omega))
  simp at hn
  omega

lemma secondIndirAllocDeep_succeeds (hbld : Building fs inode.data second n)
    (h : Room fs (1 + min sectors (128 - (n - 138) % 128))) :
    (secondIndirAllocDeep fs sectors inode second).1.fs.allocFailed = false := by
  have hlow := hbld.low
  obtain ⟨-, hfirst, hsecond⟩ := counters_eq_iff.mp (levels_second hlow ▸ hbld.counters)
  unfold secondIndirAllocDeep
  simp only [blockWrite_allocFailed, hfirst, hsecond]
  refine blockGrown_succeeds hbld.owns (fun hn => inner_mem_deepIndex ?_) h
  rw [decide_eq_false_iff_not] at hn
  unfold innerCount
  omega

lemma Builds.pre_length {d d' : InodeDisk} {second' : Nat → BlockSector} (hn : 138 ≤ n)
    (h : Builds fs fs' d d' second second' n new) (hfit : new.length ≤ 128 - (n - 138) % 128) :
    ∃ pre, pre.length ≤ 1 ∧
      Allocated (· ∈ deepIndex d.ptr second n) fs fs' (pre ++ new) := by
  obtain ⟨pre, hperm, halloc⟩ := h.grew.alloc
  refine ⟨pre, ?_, halloc⟩
  have hlen := hperm.length_eq
  simp only [deepIndex, length_cons, length_append, length_map, length_range, innerCount] at hlen
  omega

lemma secondIndirLoop_succeeds {fuel : Nat} (hbld : Building fs inode.data second n)
    (hpos : 0 < sectors) (h : Room fs (2 * min sectors (16522 - n))) :
    (secondIndirLoop fuel fs sectors inode second).1.fs.allocFailed = false := by
  induction fuel generalizing fs inode second n sectors with
  | zero => exact h.intact
  | succ fuel ih =>
    have hlow := hbld.low
    have hfirst := (counters_eq_iff.mp (levels_second hlow ▸ hbld.counters)).2.1
    unfold secondIndirLoop
    dsimp only
    split_ifs with h1 h2
    · exact secondIndirAllocDeep_succeeds hbld (h.mono (by simp at h1; omega))
    · simp only [indexBlockSize, hfirst] at h1
      have hdeep := secondIndirAllocDeep_succeeds hbld
        (h.mono (show 1 + min sectors (128 - (n - 138) % 128) ≤ _ by omega))
      obtain ⟨new, hcount, hsec, hb⟩ :=
        secondIndirAllocDeep_builds h.ok hbld (by omega) hpos rfl hdeep
      obtain ⟨pre, hpre, halloc⟩ := hb.pre_length hlow (by omega)
      refine ih hb.building (by omega) ((h.mono ?_).after halloc hdeep)
      rw [length_append]
      omega
    · exact h.intact

lemma secondIndirAlloc_succeeds (hf : FileAt fs inode.data n) (h138 : 138 ≤ n)
    (hpos : 0 < sectors) (h : Room fs (1 + 2 * min sectors (16522 - n))) :
    (secondIndirAlloc fs sectors inode).fs.allocFailed = false := by
  obtain ⟨-, hfirst, hsecond⟩ := counters_eq_iff.mp (levels_second h138 ▸ hf.counters)
  have hiff : (inode.data.firstLevelIndex = 0 ∧ inode.data.secondLevelIndex = 0) ↔ n = 138 := by
    omega
  unfold secondIndirAlloc
  simp only [indexBlockSize, secondLevIndex, decide_eq_decide.mpr hiff, blockWrite_allocFailed]
  have hopen : (openIndexBlock fs (decide (n = 138)) inode.data.ptr 11).fs.allocFailed = false :=
    openIndexBlock_succeeds (h.mono (by omega))
  obtain ⟨pre, ho⟩ := openIndexBlock_spec h.ok hopen fun hn => by
    have hmem : inode.data.ptr 11 ∈ inodeData fs inode.data n ++ inodeIndex fs inode.data n :=
      mem_append_right _ (ptr11_mem_indexSectors (by simp at hn; omega))
    exact ⟨hf.owns.used _ hmem, hf.owns.apart _ hmem⟩
  have hlen := ho.pre_length
  have hgrew := ho.building h.ok hf h138 rfl
  refine secondIndirLoop_succeeds (n := n) ⟨h138, hf.bound, ?_, hgrew.owns⟩ hpos
    ((h.mono (by omega)).after ho.alloc hopen)
  exact hf.counters

def indexCount (n : Nat) : Nat :=
  (if 10 < n then 1 else 0) + (if 138 < n then 1 else 0) + innerCount n

lemma inodeIndex_length (fs : FileSys) (d : InodeDisk) (n : Nat) :
    (inodeIndex fs d n).length = indexCount n := by
  unfold inodeIndex indexSectors indexCount
  by_cases h1 : 10 < n <;> by_cases h2 : 138 < n <;> simp [h1, h2] <;> omega

lemma Extends.allocated {d d' : InodeDisk} (h : Extends fs fs' d d' n new) :
    ∃ pre, indexCount (n + new.length) = indexCount n + pre.length ∧
      Allocated (· ∈ inodeIndex fs d n) fs fs' (pre ++ new) := by
  obtain ⟨pre, hperm, halloc⟩ := h.grew.alloc
  refine ⟨pre, ?_, halloc⟩
  have hlen := hperm.length_eq
  rwa [length_append, inodeIndex_length, inodeIndex_length] at hlen

lemma inodeGrowSecond_succeeds (hf : FileAt fs inode.data n) (h138 : 138 ≤ n)
    (hpos : 0 < sectors) (h : Room fs (1 + 2 * min sectors (16522 - n))) :
    (inodeGrowSecond fs diskLength sectors inode).fs.allocFailed = false := by
  have hok := secondIndirAlloc_succeeds hf h138 hpos h
  unfold inodeGrowSecond
  dsimp only
  split_ifs
  · exact hok
  · exact hok
  · exact h.intact

lemma inodeGrowFirst_succeeds (hf : FileAt fs inode.data n) (h10 : 10 ≤ n) (hpos : 0 < sectors)
    (h : Room fs (2 + 2 * min sectors (16522 - n))) :
    (inodeGrowFirst fs diskLength sectors inode).fs.allocFailed = false := by
  unfold inodeGrowFirst
  dsimp only
  by_cases h138 : n < 138
  · have hroom : Room fs (1 + min sectors (138 - n)) := h.mono (by omega)
    have hok := firstIndirAlloc_succeeds hf h10 h138 hroom
    obtain ⟨new, hcount, hsec, hext⟩ := firstIndirAlloc_extends h.ok hf h10 h138 hpos rfl hok
    split_ifs
    · exact hok
    · exact hok
    · obtain ⟨pre, hpre, halloc⟩ := hext.allocated
      refine inodeGrowSecond_succeeds hext.file (by omega) (by omega) ((h.mono ?_).after halloc hok)
      have hone : pre.length ≤ 1 := by
        unfold indexCount innerCount at hpre
        split_ifs at hpre <;> omega
      rw [length_append]
      omega
    · exact inodeGrowSecond_succeeds hf (by
        have := (counters_eq_iff.mp (levels_first h10 h138 ▸ hf.counters)).1
        contradiction) hpos (h.mono (by omega))
  · have hne : inode.data.directLevelIndex ≠ firstLevIndex := by
      rw [(counters_eq_iff.mp (levels_second (Nat.le_of_not_lt h138) ▸ hf.counters)).1,
        firstLevIndex]
      omega
    rw [if_neg hne]
    exact inodeGrowSecond_succeeds hf (by omega) hpos (h.mono (by omega))

/-- Growth by `sectors` sectors, or as many as the index can hold, never starts more index
blocks than that and two. -/
lemma inodeGrowDirect_succeeds (hf : FileAt fs inode.data n)
    (h : Room fs (2 + 2 * min sectors (16522 - n))) :
    (inodeGrowDirect fs diskLength sectors inode).fs.allocFailed = false := by
  unfold inodeGrowDirect
  by_cases hs : sectors = 0
  · rw [if_pos hs]
    exact h.intact
  simp only [if_neg hs]
  generalize hloop : allocLoop firstLevIndex sectors inode.data.directLevelIndex
    inode.data.ptr fs = loop
  have hok : loop.fs.allocFailed = false := by
    rw [← hloop]
    by_cases hn : n ≤ 10
    · rw [(counters_eq_iff.mp (levels_direct hn ▸ hf.counters)).1]
      exact allocLoop_succeeds (h.mono (by rw [firstLevIndex]; omega))
    · have hfull : firstLevIndex ≤ inode.data.directLevelIndex := hf.direct_full (by omega)
      rw [allocLoop_of_le hfull]
      exact h.intact
  obtain ⟨new, hcount, hsec, hext⟩ := direct_extends h.ok hf hloop hok
  split_ifs
  · exact hok
  · obtain ⟨pre, hpre, halloc⟩ := hext.allocated
    have hzero : pre.length = 0 := by
      by_cases hn : n + new.length ≤ 10
      · unfold indexCount innerCount at hpre
        split_ifs at hpre <;> omega
      · have hnil : new.length = 0 := by omega
        rw [hnil, Nat.add_zero] at hpre
        omega
    refine inodeGrowFirst_succeeds hext.file (by omega) (by omega) ((h.mono ?_).after halloc hok)
    rw [length_append]
    omega

lemma extendTo_succeeds {newLength : Int} (hl : LaidOut fs inode)
    (h : Room fs (2 + 2 * (16522 - bytesToSectors (inodeLength inode)))) :
    (extendTo fs inode newLength).2.allocFailed = false := by
  unfold extendTo
  split
  · exact inodeGrowDirect_succeeds hl.file (h.mono (by omega))
  · exact h.intact

lemma createInode_succeeds {length : Int} (sector : BlockSector) (subDir : Bool)
    (h0 : 0 ≤ length) (hmax : length ≤ maxFileLength)
    (h : Room fs (2 + 2 * bytesToSectors length)) :
    (inodeCreate fs sector length subDir).1 = true ∧
      (createInode fs sector length subDir).2.allocFailed = false := by
  have hbuilt : (inodeCreate fs sector length subDir).1 = true := by
    unfold inodeCreate
    simp [if_pos h0, h.writable.memory]
  refine ⟨hbuilt, ?_⟩
  rw [createInode, inodeCreate_of_built h0 hbuilt, inodeLoad, blockRead]
  simp only [checkSector_allocFailed, blockWrite_allocFailed]
  have hbound := (bytesToSectors_bounds h0 hmax).1
  have hzero : bytesToSectors 0 = 0 := rfl
  have hsub : subSize (bytesToSectors length) (bytesToSectors 0) = bytesToSectors length := by
    rw [hzero, subSize_eq (Nat.zero_le _) (by omega), Nat.sub_zero]
  unfold inodeAllocate inodeGrow
  dsimp only
  rw [inodeLength_mk, show (newInodeDisk fs length subDir).length = length from rfl, hsub]
  exact inodeGrowDirect_succeeds (FileAt.empty fs rfl) (h.mono (by omega))

end Pintos.Filesys
