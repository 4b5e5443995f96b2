import Pintos.Filesys.Transfer

/-!
# What successful allocations do to the file system

`Allocated touched fs fs' new` says that `fs'` comes from `fs` by allocating the
sectors `new`, in this order, and by writing to nothing that was in use except
the sectors `touched` and the free-map file. Each growth function is described
by one such relation, and they compose.

The code ignores a failed allocation, so every statement starts from a final
state in which none has been recorded.
-/

namespace Pintos.Filesys

open Foundation Lib Function List

structure Allocated (touched : BlockSector → Prop) (fs fs' : FileSys)
    (new : List BlockSector) : Prop where
  size_eq : fs'.size = fs.size
  mallocOk_eq : fs'.mallocOk = fs.mallocOk
  panicked_eq : fs'.panicked = fs.panicked
  file_eq : fs'.freeMap.file = fs.freeMap.file
  ok : FsOk fs'
  mapData_eq : mapData fs' = mapData fs
  mapIndex_eq : mapIndex fs' = mapIndex fs
  nodup : new.Nodup
  fresh : ∀ s ∈ new, ¬ Used fs s
  used : ∀ s, Used fs' s ↔ Used fs s ∨ s ∈ new
  kept : ∀ s, Used fs s → ¬ touched s → s ∉ mapData fs → fs'.disk s = fs.disk s

variable {fs fs' : FileSys} {s : BlockSector} {touched : BlockSector → Prop}
  {new : List BlockSector} {slots : Nat → BlockSector} {index bound : Nat}

lemma FsOk.used_mapData (ok : FsOk fs) (h : s ∈ mapData fs) : Used fs s := by
  unfold mapData at h
  cases hf : fs.freeMap.file with
  | none => simp [hf] at h
  | some inode =>
    rw [hf] at h
    exact (ok.file inode hf).2.2.used _ (mem_append_left _ h)

lemma FsOk.used_mapIndex (ok : FsOk fs) (h : s ∈ mapIndex fs) : Used fs s := by
  unfold mapIndex at h
  cases hf : fs.freeMap.file with
  | none => simp [hf] at h
  | some inode =>
    rw [hf] at h
    exact (ok.file inode hf).2.2.used _ (mem_append_right _ h)

lemma FsOk.mapIndex_not_mem_mapData (ok : FsOk fs) (h : s ∈ mapIndex fs) : s ∉ mapData fs := by
  unfold mapIndex at h
  unfold mapData
  cases hf : fs.freeMap.file with
  | none => simp
  | some inode =>
    rw [hf] at h
    exact ((ok.file inode hf).2.2.placed ok.bits).index_not_mem_data h

/-- The free-map file stays where it is when its index sectors are kept. -/
lemma FsOk.transport (ok : FsOk fs) (fs' : FileSys) (hsize : fs'.size = fs.size)
    (hcnt : fs'.freeMap.map.bitCnt = fs.freeMap.map.bitCnt)
    (hfile : fs'.freeMap.file = fs.freeMap.file) (hdisk : ∀ s ∈ mapIndex fs, fs'.disk s = fs.disk s)
    (hused : ∀ s ∈ mapData fs ++ mapIndex fs, Used fs s → Used fs' s) :
    FsOk fs' ∧ mapData fs' = mapData fs ∧ mapIndex fs' = mapIndex fs := by
  unfold mapIndex at hdisk hused
  unfold mapData at hused
  refine ⟨⟨by rw [hcnt, hsize]; exact ok.bits, by rw [hsize]; exact ok.size_le, ?_⟩, ?_, ?_⟩
  · intro inode hi
    rw [hfile] at hi
    obtain ⟨h0, hmax, hl⟩ := ok.file inode hi
    refine ⟨h0, hmax, hl.transport (fun s hs => hdisk s ?_) (fun s hs => hused s ?_)⟩
    · simpa [Option.mem_def.mp hi] using hs
    · simpa [Option.mem_def.mp hi] using hs
  · unfold mapData
    rw [hfile]
    cases hf : fs.freeMap.file with
    | none => rfl
    | some inode => exact inodeData_congr (by simpa [hf] using hdisk)
  · unfold mapIndex
    rw [hfile]
    cases hf : fs.freeMap.file with
    | none => rfl
    | some inode => exact inodeIndex_congr (by simpa [hf] using hdisk)

lemma Allocated.refl (touched : BlockSector → Prop) (ok : FsOk fs) :
    Allocated touched fs fs [] := by
  constructor <;> simp [ok]

lemma Allocated.trans {touched₂ : BlockSector → Prop} {fs₁ fs₂ : FileSys}
    {new₁ new₂ : List BlockSector} (h₁ : Allocated touched fs fs₁ new₁)
    (h₂ : Allocated touched₂ fs₁ fs₂ new₂) (hsub : ∀ s, Used fs s → touched₂ s → touched s) :
    Allocated touched fs fs₂ (new₁ ++ new₂) := by
  refine ⟨h₂.size_eq.trans h₁.size_eq, h₂.mallocOk_eq.trans h₁.mallocOk_eq,
    h₂.panicked_eq.trans h₁.panicked_eq, h₂.file_eq.trans h₁.file_eq, h₂.ok,
    h₂.mapData_eq.trans h₁.mapData_eq, h₂.mapIndex_eq.trans h₁.mapIndex_eq, ?_, ?_, ?_, ?_⟩
  · rw [nodup_append]
    refine ⟨h₁.nodup, h₂.nodup, fun a ha b hb hab => ?_⟩
    subst hab
    exact h₂.fresh a hb ((h₁.used a).mpr (Or.inr ha))
  · intro s hs hu
    rcases mem_append.mp hs with hs | hs
    · exact h₁.fresh s hs hu
    · exact h₂.fresh s hs ((h₁.used s).mpr (Or.inl hu))
  · intro s
    rw [h₂.used, h₁.used, mem_append, or_assoc]
  · intro s hu ht hm
    rw [h₂.kept s ((h₁.used s).mpr (Or.inl hu)) (fun h => ht (hsub s hu h))
      (by rwa [h₁.mapData_eq]), h₁.kept s hu ht hm]

lemma Allocated.perm {new' : List BlockSector} (h : Allocated touched fs fs' new)
    (hp : new.Perm new') : Allocated touched fs fs' new' :=
  { h with
    nodup := hp.nodup_iff.mp h.nodup
    fresh := fun s hs => h.fresh s (hp.mem_iff.mpr hs)
    used := fun s => by rw [h.used, hp.mem_iff] }

lemma Allocated.not_mapData (h : Allocated touched fs fs' new) (ok : FsOk fs) (hs : s ∈ new) :
    s ∉ mapData fs ∧ s ∉ mapIndex fs :=
  ⟨fun hm => h.fresh s hs (ok.used_mapData hm), fun hm => h.fresh s hs (ok.used_mapIndex hm)⟩

lemma Allocated.blockWrite (ok : FsOk fs) (hu : Used fs s) (hi : s ∉ mapIndex fs)
    (block : Block) : Allocated (· = s) fs (blockWrite fs s block) [] := by
  rw [Filesys.blockWrite, if_pos (ok.lt_of_used hu)]
  have hkeep : ∀ t, t ≠ s → update fs.disk s block t = fs.disk t :=
    fun t ht => update_of_ne ht _ _
  obtain ⟨hok, hmd, hmi⟩ := ok.transport { fs with disk := update fs.disk s block } rfl rfl rfl
    (fun t ht => hkeep t (fun h => hi (h ▸ ht))) (fun _ _ h => h)
  exact ⟨rfl, rfl, rfl, rfl, hok, hmd, hmi, nodup_nil, by simp, by simp [Used],
    fun t _ ht _ => hkeep t ht⟩

lemma Allocated.setLog (h : Allocated touched fs fs' new) (log : List BlockSector) :
    Allocated touched fs { fs' with dataLog := log } new := by
  obtain ⟨hok, hmd, hmi⟩ := h.ok.transport { fs' with dataLog := log } rfl rfl rfl
    (fun _ _ => rfl) (fun _ _ h => h)
  exact { h with ok := hok, mapData_eq := hmd.trans h.mapData_eq,
                 mapIndex_eq := hmi.trans h.mapIndex_eq }

lemma blockWrite_disk_self (h : s.toNat < fs.size) (block : Block) :
    (blockWrite fs s block).disk s = block := by
  simp [blockWrite, h]

lemma blockWrite_disk_of_ne {t : BlockSector} (h : t ≠ s) (block : Block) :
    (blockWrite fs s block).disk t = fs.disk t := by
  unfold blockWrite
  split
  · exact update_of_ne h _ _
  · rfl

variable {inode : Inode} {sectors i : Nat} {isNew : Bool} {names : Nat → BlockSector}

lemma bitmapWrite_spec (ok : FsOk fs) (hf : fs.freeMap.file = some inode) :
    (bitmapWrite fs inode).2 = { fs with disk := (bitmapWrite fs inode).2.disk } ∧
      ∀ s, s ∉ mapData fs → (bitmapWrite fs inode).2.disk s = fs.disk s := by
  obtain ⟨h0, hmax, hl⟩ := ok.file inode hf
  have hlen := (bytesToSectors_bounds h0 hmax).2.1
  unfold bitmapWrite
  by_cases hdeny : inode.denyWriteCnt ≠ 0
  · simp [hdeny]
  · obtain ⟨w, -, hw, -⟩ := inodeWriteLoop_spec (bitmapByte fs.freeMap.map)
      (byteCnt fs.freeMap.map.bitCnt) (byteCnt fs.freeMap.map.bitCnt) 0 0 (hl.placed ok.bits) hlen
    simp only [hdeny, if_false]
    refine ⟨hw.rest, fun s hs => hw.frame s ?_⟩
    simpa [mapData, hf] using hs

lemma used_setMap {map : Bitmap} (hcnt : map.bitCnt = fs.freeMap.map.bitCnt) (s : BlockSector) :
    Used (fs.setMap map) s ↔
      s.toNat < fs.freeMap.map.bitCnt ∧ bitmapTest map s.toNat = true := by
  cases map with
  | mk cnt bits =>
    dsimp only at hcnt
    subst hcnt
    rfl

lemma setMap_spec (ok : FsOk fs) {idx : Nat}
    (hscan : bitmapScan fs.freeMap.map 0 1 false = some idx) :
    Allocated (fun _ => False) fs (fs.setMap (bitmapSetMultiple fs.freeMap.map idx 1 true))
      [UInt32.ofNat idx] := by
  obtain ⟨-, hlt, hfree⟩ := bitmapScan_some hscan
  have hfree := hfree idx (Nat.le_refl _) (by omega)
  have hnat : (UInt32.ofNat idx).toNat = idx := by
    have := ok.size_le
    have := ok.bits
    rw [UInt32.toNat_ofNat']
    omega
  have hused : ∀ s, Used (fs.setMap (bitmapSetMultiple fs.freeMap.map idx 1 true)) s ↔
      Used fs s ∨ s ∈ [UInt32.ofNat idx] := by
    intro s
    rw [used_setMap (bitmapSetMultiple_bitCnt _ _ _ _), bitmapTest_setMultiple, Used,
      mem_singleton, ← UInt32.toNat_inj, hnat]
    by_cases hs : s.toNat = idx
    · simp [hs, hfree]
      omega
    · rw [if_neg (by omega)]
      simp [hs]
  have hnew : ¬ Used fs (UInt32.ofNat idx) := by
    simp [Used, hnat, hfree]
  obtain ⟨hok, hmd, hmi⟩ := ok.transport
    (fs.setMap (bitmapSetMultiple fs.freeMap.map idx 1 true)) rfl rfl rfl
    (fun _ _ => rfl) (fun s _ hs => (hused s).mpr (Or.inl hs))
  exact ⟨rfl, rfl, rfl, rfl, hok, hmd, hmi, nodup_singleton _, by simpa using hnew, hused,
    fun _ _ _ _ => rfl⟩

lemma bitmapWrite_allocated (ok : FsOk fs) (hf : fs.freeMap.file = some inode) :
    Allocated (fun _ => False) fs (bitmapWrite fs inode).2 [] := by
  obtain ⟨hrest, hframe⟩ := bitmapWrite_spec ok hf
  obtain ⟨hok, hmd, hmi⟩ := ok.transport (bitmapWrite fs inode).2 (by rw [hrest]) (by rw [hrest])
    (by rw [hrest]) (fun s hs => hframe s (ok.mapIndex_not_mem_mapData hs))
    (fun s _ hs => by rw [hrest]; exact hs)
  exact ⟨by rw [hrest], by rw [hrest], by rw [hrest], by rw [hrest], hok, hmd, hmi,
    nodup_nil, by simp, fun s => by rw [hrest]; simp [Used], fun s _ _ hs => hframe s hs⟩

lemma freeMapAllocate_spec (ok : FsOk fs) (h : (freeMapAllocate fs 1).2.allocFailed = false) :
    ∃ s, (freeMapAllocate fs 1).1 = some s ∧
      Allocated (fun _ => False) fs (freeMapAllocate fs 1).2 [s] ∧
      (freeMapAllocate fs 1).2.dataLog = fs.dataLog := by
  unfold freeMapAllocate bitmapScanAndFlip at h ⊢
  cases hscan : bitmapScan fs.freeMap.map 0 1 false with
  | none => simp [hscan] at h
  | some idx =>
    have halloc := setMap_spec ok hscan
    simp only [hscan, Bool.not_false] at h ⊢
    generalize hfs : fs.setMap (bitmapSetMultiple fs.freeMap.map idx 1 true) = fs₁ at h halloc ⊢
    have hlog : fs₁.dataLog = fs.dataLog := by
      rw [← hfs]
      rfl
    cases hf : fs₁.freeMap.file with
    | none => exact ⟨UInt32.ofNat idx, rfl, halloc, hlog⟩
    | some inode =>
      simp only [hf] at h
      cases hb : (bitmapWrite fs₁ inode).1 with
      | false => simp [hb] at h
      | true =>
        simp only [hb, if_true]
        have hsave := bitmapWrite_allocated halloc.ok hf
        refine ⟨UInt32.ofNat idx, rfl, by simpa using halloc.trans hsave fun _ _ h => h, ?_⟩
        rwa [(bitmapWrite_spec halloc.ok hf).1]

@[simp] lemma blockWrite_allocFailed (fs : FileSys) (s : BlockSector) (block : Block) :
    (blockWrite fs s block).allocFailed = fs.allocFailed := by
  unfold blockWrite
  split <;> rfl

@[simp] lemma checkSector_allocFailed (fs : FileSys) (s : BlockSector) :
    (checkSector fs s).allocFailed = fs.allocFailed := by
  unfold checkSector
  split <;> rfl

@[simp] lemma inodeWriteLoop_allocFailed (inode : Inode) (buffer : Nat → UInt8) (fuel : Nat)
    (fs : FileSys) (size : Int) (offset start : Nat) :
    (inodeWriteLoop inode buffer fuel fs size offset start).2.allocFailed = fs.allocFailed := by
  rw [inodeWriteLoop_rest]

lemma bitmapWrite_rest (fs : FileSys) (inode : Inode) :
    (bitmapWrite fs inode).2 = { fs with
      disk := (bitmapWrite fs inode).2.disk
      panicked := (bitmapWrite fs inode).2.panicked } := by
  unfold bitmapWrite
  dsimp only
  split_ifs
  · rfl
  · exact inodeWriteLoop_rest inode _ _ fs _ _ _

@[simp] lemma bitmapWrite_allocFailed (fs : FileSys) (inode : Inode) :
    (bitmapWrite fs inode).2.allocFailed = fs.allocFailed := by
  rw [bitmapWrite_rest]

lemma freeMapAllocate_mono {cnt : Nat} (h : (freeMapAllocate fs cnt).2.allocFailed = false) :
    fs.allocFailed = false := by
  unfold freeMapAllocate bitmapScanAndFlip at h
  cases hscan : bitmapScan fs.freeMap.map 0 cnt false with
  | none => simp [hscan] at h
  | some idx =>
    simp only [hscan] at h
    cases hf : (fs.setMap (bitmapSetMultiple fs.freeMap.map idx cnt true)).freeMap.file with
    | none =>
      simp only [Bool.not_false, hf] at h
      exact h
    | some inode =>
      simp only [Bool.not_false, hf] at h
      split at h
      · rwa [bitmapWrite_allocFailed] at h
      · simp at h

lemma allocSlot_mono (h : (allocSlot fs slots index).2.allocFailed = false) :
    fs.allocFailed = false := by
  unfold allocSlot at h
  have hm : (freeMapAllocate fs 1).2.allocFailed = false → fs.allocFailed = false :=
    freeMapAllocate_mono
  split at h <;> simp_all

lemma allocData_mono (h : (allocData fs slots index).2.allocFailed = false) :
    fs.allocFailed = false :=
  allocSlot_mono (by simpa [allocData] using h)

lemma allocLoop_mono (h : (allocLoop bound sectors index slots fs).fs.allocFailed = false) :
    fs.allocFailed = false := by
  induction sectors generalizing index slots fs with
  | zero => exact h
  | succ sectors ih =>
    unfold allocLoop at h
    split at h
    · exact allocData_mono (ih h)
    · exact h

lemma openIndexBlock_mono (h : (openIndexBlock fs isNew names i).fs.allocFailed = false) :
    fs.allocFailed = false := by
  cases isNew with
  | true => exact allocSlot_mono (by simpa [openIndexBlock] using h)
  | false => simpa [openIndexBlock, blockRead] using h

/-! ## The growth loops -/

lemma allocSlot_spec (ok : FsOk fs) (h : (allocSlot fs slots index).2.allocFailed = false) :
    ∃ s, (allocSlot fs slots index).1 = update slots index s ∧
      Allocated (fun _ => False) fs (allocSlot fs slots index).2 [s] ∧
      (allocSlot fs slots index).2.dataLog = fs.dataLog := by
  have hfail : (freeMapAllocate fs 1).2.allocFailed = false := by
    unfold allocSlot at h
    split at h <;> simp_all
  obtain ⟨s, hs, halloc, hlog⟩ := freeMapAllocate_spec ok hfail
  refine ⟨s, ?_⟩
  unfold allocSlot
  rw [show freeMapAllocate fs 1 = (some s, (freeMapAllocate fs 1).2) from Prod.ext hs rfl]
  exact ⟨rfl, halloc, hlog⟩

lemma allocData_spec (ok : FsOk fs) (h : (allocData fs slots index).2.allocFailed = false) :
    ∃ s, (allocData fs slots index).1 = update slots index s ∧
      Allocated (fun _ => False) fs (allocData fs slots index).2 [s] ∧
      (allocData fs slots index).2.dataLog = fs.dataLog ++ [s] ∧
      (allocData fs slots index).2.disk s = zeros := by
  have hfail : (allocSlot fs slots index).2.allocFailed = false := by
    simpa [allocData] using h
  obtain ⟨s, hs, halloc, hlog⟩ := allocSlot_spec ok hfail
  have hused : Used (allocSlot fs slots index).2 s := (halloc.used s).mpr (Or.inr (by simp))
  have hidx : s ∉ mapIndex (allocSlot fs slots index).2 := by
    rw [halloc.mapIndex_eq]
    exact (halloc.not_mapData ok (by simp)).2
  have hwrite := Allocated.blockWrite halloc.ok hused hidx zeros
  have hboth : Allocated (fun _ => False) fs
      (blockWrite (allocSlot fs slots index).2 s zeros) [s] := by
    simpa using halloc.trans hwrite fun t ht hts => halloc.fresh t (by simp [hts]) ht
  have hdisk := blockWrite_disk_self (halloc.ok.lt_of_used hused) zeros
  have hdata : (blockWrite (allocSlot fs slots index).2 s zeros).dataLog = fs.dataLog := by
    rw [← hlog]
    unfold blockWrite
    split <;> rfl
  refine ⟨s, hs, ?_, ?_, ?_⟩
  all_goals simp only [allocData, hs, update_self]
  · exact hboth.setLog _
  · rw [hdata]
  · exact hdisk

/-- What a growth loop has done when it ends; `new` are the data sectors. -/
structure Filled (bound sectors index : Nat) (slots : Nat → BlockSector) (fs : FileSys)
    (loop : SlotLoop) (new : List BlockSector) : Prop where
  count : new.length = min sectors (bound - index)
  sectors_eq : loop.sectors = sectors - new.length
  index_eq : loop.index = index + new.length
  filled : ∀ k (h : k < new.length), loop.slots (index + k) = new[k]
  outside : ∀ j, j < index ∨ index + new.length ≤ j → loop.slots j = slots j
  alloc : Allocated (fun _ => False) fs loop.fs new
  log : loop.fs.dataLog = fs.dataLog ++ new
  zeroed : ∀ s ∈ new, loop.fs.disk s = zeros

lemma allocLoop_spec (ok : FsOk fs)
    (h : (allocLoop bound sectors index slots fs).fs.allocFailed = false) :
    ∃ new, Filled bound sectors index slots fs (allocLoop bound sectors index slots fs) new := by
  induction sectors generalizing index slots fs with
  | zero =>
    refine ⟨[], by simp, rfl, rfl, by simp, fun _ _ => rfl, Allocated.refl _ ok, ?_, by simp⟩
    simp [allocLoop]
  | succ sectors ih =>
    unfold allocLoop at h ⊢
    by_cases hb : index < bound
    · simp only [if_pos hb] at h ⊢
      obtain ⟨s, hslots, halloc, hlog, hzero⟩ := allocData_spec ok (allocLoop_mono h)
      obtain ⟨new, hf⟩ := ih halloc.ok h
      have hlen := hf.count
      refine ⟨s :: new, ?_, ?_, ?_, ?_, ?_, ?_, ?_, ?_⟩
      · simp only [length_cons]
        omega
      · rw [hf.sectors_eq, length_cons]
        omega
      · rw [hf.index_eq, length_cons]
        omega
      · intro k hk
        cases k with
        | zero =>
          rw [hf.outside _ (by omega), hslots]
          simp
        | succ k =>
          rw [show index + (k + 1) = index + 1 + k by omega]
          simpa using hf.filled k (by simpa using hk)
      · intro j hj
        simp only [length_cons] at hj
        rw [hf.outside j (by omega), hslots, update_of_ne (by omega)]
      · exact halloc.trans hf.alloc fun _ _ h => h
      · rw [hf.log, hlog, append_assoc]
        rfl
      · intro t ht
        rcases mem_cons.mp ht with rfl | ht
        · -- later allocations leave the first sector alone
          have hused := (halloc.used t).mpr (Or.inr (by simp))
          have hmap : t ∉ mapData (allocData fs slots index).2 := by
            rw [halloc.mapData_eq]
            exact (halloc.not_mapData ok (by simp)).1
          rw [hf.alloc.kept t hused id hmap, hzero]
        · exact hf.zeroed t ht
    · simp only [if_neg hb]
      refine ⟨[], ?_, rfl, rfl, by simp, fun _ _ => rfl, Allocated.refl _ ok, by simp, by simp⟩
      simp only [length_nil]
      omega

/-- What opening an index block does: it allocates the sector if the block is new,
and nothing else. -/
structure Opened (fs : FileSys) (isNew : Bool) (names : Nat → BlockSector) (i : Nat)
    (block : IndexBlock) (pre : List BlockSector) : Prop where
  alloc : Allocated (fun _ => False) fs block.fs pre
  log : block.fs.dataLog = fs.dataLog
  names_eq : ∀ k, k ≠ i → block.names k = names k
  used : Used block.fs (block.names i)
  apart : block.names i ∉ mapData fs ∧ block.names i ∉ mapIndex fs
  old : isNew = false → pre = [] ∧ block = ⟨names, wordAt (fs.disk (names i)), fs⟩
  new : isNew = true → pre = [block.names i]

lemma openIndexBlock_spec (ok : FsOk fs)
    (h : (openIndexBlock fs isNew names i).fs.allocFailed = false)
    (hold : isNew = false → Used fs (names i) ∧ names i ∉ mapData fs ∧ names i ∉ mapIndex fs) :
    ∃ pre, Opened fs isNew names i (openIndexBlock fs isNew names i) pre := by
  cases isNew with
  | true =>
    have hfail : (allocSlot fs names i).2.allocFailed = false := by
      simpa [openIndexBlock] using h
    obtain ⟨s, hs, halloc, hlog⟩ := allocSlot_spec ok hfail
    have hnames : (openIndexBlock fs true names i).names = update names i s := by
      simp [openIndexBlock, hs]
    have hself : (openIndexBlock fs true names i).names i = s := by
      rw [hnames, update_self]
    have hfs : (openIndexBlock fs true names i).fs = (allocSlot fs names i).2 := by
      simp [openIndexBlock]
    have hmem : s ∈ [s] := mem_singleton_self s
    refine ⟨[s], hfs ▸ halloc, hfs ▸ hlog, ?_, ?_, ?_, by simp, fun _ => by rw [hself]⟩
    · intro k hk
      rw [hnames, update_of_ne hk]
    · rw [hself, hfs]
      exact (halloc.used s).mpr (Or.inr hmem)
    · rw [hself]
      exact halloc.not_mapData ok hmem
  | false =>
    obtain ⟨hu, hapart⟩ := hold rfl
    have hopen : openIndexBlock fs false names i = ⟨names, wordAt (fs.disk (names i)), fs⟩ := by
      simp [openIndexBlock, blockRead_of_lt (ok.lt_of_used hu)]
    rw [hopen]
    exact ⟨[], Allocated.refl _ ok, rfl, fun _ _ => rfl, hu, hapart, fun _ => ⟨rfl, rfl⟩, by simp⟩

lemma allocLoop_of_le (h : bound ≤ index) (sectors : Nat) (slots : Nat → BlockSector)
    (fs : FileSys) : allocLoop bound sectors index slots fs = ⟨sectors, index, slots, fs⟩ := by
  cases sectors with
  | zero => rfl
  | succ sectors => rw [allocLoop, if_neg (by omega)]

end Pintos.Filesys
