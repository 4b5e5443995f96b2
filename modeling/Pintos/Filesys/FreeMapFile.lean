import Pintos.Foundation.Transition
import Pintos.Filesys.FreeMap
import Pintos.Filesys.Writing

/-!
# The free-map file

`bitmap_write` and `bitmap_read` move the elements of a bitmap to a file and back, and
`free_map_create` and `free_map_open` do so with the free map. The file takes its sectors
from the map it stores. Once it is made, every call that changes the map rewrites it, so
that opening it again gives the map of that moment, even if its own sectors were released
in between: nothing but the map is ever written to them.
-/

namespace Pintos.Filesys

open Foundation Lib

/-! ## Bitmaps in files -/

/-- Element `k` of the array whose bytes are `bytes`. -/
def elemOfBytes (bytes : Nat → UInt8) (k : Nat) : BitVec 32 :=
  (wordOfBytes (bytes (4 * k)) (bytes (4 * k + 1)) (bytes (4 * k + 2))
    (bytes (4 * k + 3))).toBitVec

def bitmapWriteFile (fs : FileSys) (b : Bitmap) (inode : Inode) : Bool × Inode × FileSys :=
  let size := byteCnt b.bitCnt
  let (written, inode, fs) := inodeWriteAt fs inode (bitmapByte b) size 0
  (written == size, inode, fs)

/-- `b` with the elements `bits`, the last of them masked. -/
def maskLast (b : Bitmap) (bits : Nat → BitVec 32) : Bitmap :=
  let last := elemCnt b.bitCnt - 1
  ⟨b.bitCnt, Function.update bits last (bits last &&& lastMask b)⟩

def bitmapRead (fs : FileSys) (b : Bitmap) (inode : Inode) : Bool × Bitmap × FileSys :=
  if 0 < b.bitCnt then
    let size := byteCnt b.bitCnt
    let (bytesRead, bytes, fs) := inodeReadAt fs inode (bitmapByte b) size 0
    (bytesRead == size, maskLast b (elemOfBytes bytes), fs)
  else (true, b, fs)

lemma elemOfBytes_bitmapByte (b : Bitmap) (k : Nat) : elemOfBytes (bitmapByte b) k = b.bits k := by
  have hbyte : ∀ j, j < 4 → bitmapByte b (4 * k + j) = wordByte (UInt32.ofBitVec (b.bits k)) j := by
    intro j hj
    have hdiv : (4 * k + j) / 4 = k := by omega
    have hmod : (4 * k + j) % 4 = j := by omega
    rw [bitmapByte, hdiv, hmod]
    rfl
  have h0 := hbyte 0 (by decide)
  rw [Nat.add_zero] at h0
  rw [elemOfBytes, h0, hbyte 1 (by decide), hbyte 2 (by decide), hbyte 3 (by decide),
    wordOfBytes_wordByte]

variable {n cnt : Nat} {bits : Nat → BitVec 32} {sector : BlockSector}

lemma elemOfBytes_congr {bytes bytes' : Nat → UInt8} {k : Nat} (hk : k < n)
    (h : ∀ i, i < 4 * n → bytes i = bytes' i) : elemOfBytes bytes k = elemOfBytes bytes' k := by
  rw [elemOfBytes, elemOfBytes, h _ (by omega), h _ (by omega), h _ (by omega), h _ (by omega)]

lemma byteCnt_le {bitCnt : Nat} (h : bitCnt ≤ 4294967296) : byteCnt bitCnt ≤ 536870912 := by
  unfold byteCnt elemCnt
  omega

variable {fs fs' : FileSys} {inode : Inode} {b saved : Bitmap} {freeMapSector : BlockSector}

/-- For a file that is long enough, `bitmap_write` is the function the free map is saved
with. -/
lemma bitmapWriteFile_eq_bitmapWrite (hcnt : fs.freeMap.map.bitCnt ≤ 4294967296)
    (hfits : (byteCnt fs.freeMap.map.bitCnt : Int) ≤ inodeLength inode) :
    bitmapWriteFile fs fs.freeMap.map inode =
      ((bitmapWrite fs inode).1, inode, (bitmapWrite fs inode).2) := by
  have hle := byteCnt_le hcnt
  have hw : wrap32 ((0 : Nat) + (byteCnt fs.freeMap.map.bitCnt : Int)) ≤ inodeLength inode := by
    rw [wrap32_eq (by omega) (by omega)]
    omega
  unfold bitmapWriteFile bitmapWrite
  dsimp only
  by_cases hdeny : inode.denyWriteCnt = 0
  · rw [inodeWriteAt_of_le _ hdeny hw, if_neg (not_not.mpr hdeny), Int.toNat_natCast]
  · have hcall : inodeWriteAt fs inode (bitmapByte fs.freeMap.map)
        (byteCnt fs.freeMap.map.bitCnt) 0 = (0, inode, fs) := if_pos hdeny
    rw [hcall, if_pos hdeny, Bool.beq_comm]

/-- `b` has the bits of `saved`, and no others in its last element. -/
structure Restored (b saved : Bitmap) : Prop where
  bitCnt_eq : b.bitCnt = saved.bitCnt
  bits_eq : ∀ i, i < saved.bitCnt → bitmapTest b i = bitmapTest saved i
  unused : ∀ i, saved.bitCnt ≤ i → i < 32 * elemCnt saved.bitCnt → bitmapTest b i = false

/-- Masking the last element clears what lies past the end of the bitmap. -/
lemma bitmapTest_maskLast {i : Nat} (hbits : ∀ k, k < elemCnt b.bitCnt → bits k = saved.bits k)
    (hi : i < 32 * elemCnt b.bitCnt) :
    bitmapTest (maskLast b bits) i = (bitmapTest saved i && decide (i < b.bitCnt)) := by
  have hidx : elemIdx i < elemCnt b.bitCnt := by
    unfold elemIdx
    omega
  rw [bitmapTest_eq_getLsbD, bitmapTest_eq_getLsbD]
  dsimp only [maskLast]
  by_cases hlast : elemIdx i = elemCnt b.bitCnt - 1
  · rw [hlast, Function.update_self, BitVec.getLsbD_and, hbits _ (by omega),
      lastMask_getLsbD _ (Nat.mod_lt _ (by decide))]
    congr 1
    apply decide_eq_decide.mpr
    unfold elemIdx elemCnt at hlast
    unfold elemCnt at hi
    omega
  · have hin : i < b.bitCnt := by
      unfold elemIdx elemCnt at hlast hidx
      omega
    rw [Function.update_of_ne hlast, hbits _ hidx]
    simp [hin]

lemma restored_maskLast (hcnt : b.bitCnt = saved.bitCnt)
    (hbits : ∀ k, k < elemCnt b.bitCnt → bits k = saved.bits k) :
    Restored (maskLast b bits) saved := by
  refine ⟨hcnt, fun i hi => ?_, fun i hlo hhi => ?_⟩
  · rw [bitmapTest_maskLast hbits (by unfold elemCnt; omega)]
    simp [hcnt, hi]
  · rw [bitmapTest_maskLast hbits (by rwa [hcnt])]
    simp [hcnt, hlo]

lemma bitmapRead_restored (hp : Placed fs inode.data n) (hlen : inodeLength inode ≤ 512 * n)
    (hm : fs.mallocOk = true) (hpos : 0 < b.bitCnt) (hcnt : b.bitCnt = saved.bitCnt)
    (hfits : (byteCnt b.bitCnt : Int) ≤ inodeLength inode)
    (hbytes : ∀ k, k < byteCnt b.bitCnt → fileByte fs inode.data k = bitmapByte saved k) :
    ∃ b', bitmapRead fs b inode = (true, b', fs) ∧ Restored b' saved := by
  have hread := inodeReadLoop_spec (bitmapByte b) (byteCnt b.bitCnt) (byteCnt b.bitCnt) 0 0 hp hlen
    hm (by omega)
  have hmin : (min (byteCnt b.bitCnt : Int) (inodeLength inode - (0 : Nat))).toNat =
      byteCnt b.bitCnt := by omega
  rw [hmin, Nat.zero_add] at hread
  unfold bitmapRead inodeReadAt
  simp only [if_pos hpos, Int.toNat_natCast, hread, beq_self_eq_true]
  refine ⟨_, rfl, restored_maskLast hcnt fun k hk => ?_⟩
  rw [← elemOfBytes_bitmapByte saved k]
  refine elemOfBytes_congr hk fun i hi => ?_
  rw [copyRange, if_pos ⟨Nat.zero_le _, by unfold byteCnt; omega⟩, Nat.sub_zero, Nat.zero_add]
  exact hbytes i hi

lemma bitmapWriteFile_bitmapRead {inode' : Inode} (ok : FsOk fs) (hl : LaidOut fs inode)
    (hm : fs.mallocOk = true) (hpos : 0 < b.bitCnt) (hcnt : b.bitCnt ≤ 4294967296)
    (hwrite : bitmapWriteFile fs b inode = (true, inode', fs')) (hsucc : fs'.allocFailed = false)
    (b₀ : Bitmap) (h₀ : b₀.bitCnt = b.bitCnt) :
    ∃ b', bitmapRead fs' b₀ inode' = (true, b', fs') ∧ Restored b' b := by
  unfold bitmapWriteFile at hwrite
  have hstate : (inodeWriteAt fs inode (bitmapByte b) (byteCnt b.bitCnt) 0).2.2 = fs' :=
    congrArg (·.2.2) hwrite
  obtain ⟨written, inode₁, fs₁, hrun, hw, -, -⟩ := inodeWriteAt_written (bitmapByte b) ok hl
    (show -2147483648 ≤ (byteCnt b.bitCnt : Int) by omega)
    (show ((0 : Nat) : Int) + byteCnt b.bitCnt ≤ 2147483136 by have := byteCnt_le hcnt; omega)
    (by rw [hstate]; exact hsucc)
  simp only [hrun, Prod.mk.injEq, beq_iff_eq] at hwrite
  obtain ⟨rfl, rfl, rfl⟩ := hwrite
  have hlen := (bytesToSectors_bounds hw.laid.nonneg hw.laid.le_max).2.1
  have hsize : 0 < byteCnt b.bitCnt := by
    unfold byteCnt elemCnt
    omega
  have hfits : (byteCnt b.bitCnt : Int) ≤ inodeLength inode₁ := by
    have := hw.inside
    omega
  refine bitmapRead_restored (hw.laid.placed hw.ok) hlen (by rw [hw.mallocOk_eq, hm])
    (by omega) h₀ (by rwa [h₀]) fun k hk => ?_
  rw [h₀] at hk
  rw [hw.bytes k (by omega), if_pos (by omega), Nat.sub_zero]

/-- `free_map_init`; `bits` is what the memory of the new bitmap holds. -/
def freeMapInit (fs : FileSys) (freeMapSector : BlockSector) (bits : Nat → BitVec 32) : FileSys :=
  match bitmapCreate fs.mallocOk fs.size bits with
  | none => fs.panic
  | some map =>
      let map := bitmapMark (bitmapMark map freeMapSector.toNat) fs.rootDirSector.toNat
      { fs with freeMap := { map := map, file := none, fits := by simp } }

/-- `free_map_file = inode`, for an inode that has room for the map. -/
def FileSys.attach (fs : FileSys) (map : Bitmap) (inode : Inode)
    (h : (byteCnt map.bitCnt : Int) ≤ inodeLength inode) : FileSys :=
  { fs with freeMap := { map := map, file := some inode, fits := by simpa using h } }

/-- The end of `free_map_create`: `inode` is the file, and the map is written to it. -/
def freeMapStore (fs : FileSys) (inode : Inode) : FileSys :=
  if h : (byteCnt fs.freeMap.map.bitCnt : Int) ≤ inodeLength inode then
    let (success, fs) := bitmapWrite (fs.attach fs.freeMap.map inode h) inode
    if success then fs else fs.panic
  else
    -- the inode was not written, and the device has panicked already
    fs.panic

def freeMapCreate (fs : FileSys) (freeMapSector : BlockSector) : FileSys :=
  let (success, fs) := inodeCreate fs freeMapSector (byteCnt fs.freeMap.map.bitCnt) false
  if success then
    let (inode, fs) := inodeLoad fs freeMapSector
    freeMapStore fs inode
  else fs.panic

/-- The end of `free_map_open`. When `bitmap_read` succeeds the file is not too short. -/
def freeMapAdopt (fs : FileSys) (map : Bitmap) (inode : Inode) : FileSys :=
  if h : (byteCnt map.bitCnt : Int) ≤ inodeLength inode then fs.attach map inode h else fs.panic

def freeMapOpen (fs : FileSys) (freeMapSector : BlockSector) : FileSys :=
  if fs.mallocOk then
    let (inode, fs) := inodeLoad fs freeMapSector
    let (success, map, fs) := bitmapRead fs fs.freeMap.map inode
    if success then freeMapAdopt fs map inode else fs.panic
  else fs.panic

/-- Whether `free_map_release` saves the map. -/
def releaseSaves (fs : FileSys) (sector : BlockSector) (cnt : Nat) : Bool :=
  match fs.freeMap.file with
  | none => false
  | some inode =>
      (bitmapWrite (fs.setMap (bitmapSetMultiple fs.freeMap.map sector.toNat cnt false)) inode).1

inductive FreeMapOp
  | allocate (cnt : Nat)
  | release (sector : BlockSector) (cnt : Nat)

/-- One call that saves the map; no state follows a call that cannot, or that fails its
assertion. -/
def FreeMapOp.step (fs : FileSys) : FreeMapOp → Option FileSys
  | .allocate cnt => if saveFails fs cnt then none else some (freeMapAllocate fs cnt).2
  | .release sector cnt =>
      if sector.toNat + cnt ≤ fs.freeMap.map.bitCnt ∧
          bitmapAll fs.freeMap.map sector.toNat cnt = true ∧ releaseSaves fs sector cnt = true then
        some (freeMapRelease fs sector cnt)
      else none

/-- The calls made after `free_map_create` has left the state `fs`. -/
def freeMapMachine (fs : FileSys) : Machine FileSys FreeMapOp where
  start := (· = fs)
  step := FreeMapOp.step

lemma freeMapStore_allocFailed (fs : FileSys) (inode : Inode) :
    (freeMapStore fs inode).allocFailed = fs.allocFailed := by
  unfold freeMapStore
  split
  case isTrue h =>
      dsimp only
      split
      · rw [bitmapWrite_allocFailed]
        rfl
      · exact bitmapWrite_allocFailed _ _
  case isFalse => rfl

/-- The free-map file: its inode is on disk as it is in memory, and apart from its data. -/
structure MapFile (fs : FileSys) (freeMapSector : BlockSector) (inode : Inode) : Prop where
  file_eq : fs.freeMap.file = some inode
  bits : fs.freeMap.map.bitCnt = fs.size
  stored : InodeDisk.ofBlock (fs.disk freeMapSector) = inode.data
  sector_lt : freeMapSector.toNat < fs.size
  nonneg : 0 ≤ inodeLength inode
  le_max : inodeLength inode ≤ maxFileLength
  placed : Placed fs inode.data (bytesToSectors (inodeLength inode))
  apart : freeMapSector ∉ inodeData fs inode.data (bytesToSectors (inodeLength inode))

/-- The file holds the map that is in memory. -/
structure MapSaved (fs : FileSys) (freeMapSector : BlockSector) (inode : Inode) : Prop
    extends MapFile fs freeMapSector inode where
  saved : ∀ k, k < byteCnt fs.freeMap.map.bitCnt →
    fileByte fs inode.data k = bitmapByte fs.freeMap.map k

lemma MapFile.setMap (h : MapFile fs freeMapSector inode) (map : Bitmap) :
    MapFile (fs.setMap map) freeMapSector inode :=
  ⟨h.file_eq, h.bits, h.stored, h.sector_lt, h.nonneg, h.le_max, ⟨h.placed.bound, h.placed.nodup,
    h.placed.lt⟩, h.apart⟩

lemma MapFile.bitmapWrite (h : MapFile fs freeMapSector inode)
    (hsave : (bitmapWrite fs inode).1 = true) :
    MapSaved (Filesys.bitmapWrite fs inode).2 freeMapSector inode := by
  have hlen := (bytesToSectors_bounds h.nonneg h.le_max).2.1
  have hfits := fs.freeMap.fits inode h.file_eq
  unfold Filesys.bitmapWrite at hsave ⊢
  dsimp only at hsave ⊢
  by_cases hdeny : inode.denyWriteCnt ≠ 0
  · rw [if_pos hdeny] at hsave ⊢
    have hzero : byteCnt fs.freeMap.map.bitCnt = 0 := by simpa using hsave
    refine ⟨h, fun k hk => ?_⟩
    have hk' : k < byteCnt fs.freeMap.map.bitCnt := hk
    omega
  rw [if_neg hdeny] at hsave ⊢
  obtain ⟨w, hres, hw, -, -⟩ := inodeWriteLoop_spec (bitmapByte fs.freeMap.map)
    (byteCnt fs.freeMap.map.bitCnt) (byteCnt fs.freeMap.map.bitCnt) 0 0 h.placed hlen
  have hwritten : w = byteCnt fs.freeMap.map.bitCnt := by
    rw [hres, Nat.zero_add] at hsave
    simpa using hsave
  subst hwritten
  generalize (inodeWriteLoop inode (bitmapByte fs.freeMap.map) (byteCnt fs.freeMap.map.bitCnt) fs
    (byteCnt fs.freeMap.map.bitCnt) 0 0).2 = fs' at hw ⊢
  have hmap := hw.freeMap_eq
  have hdata := inodeData_congr (hw.index_eq h.placed)
  refine ⟨⟨by rw [hmap]; exact h.file_eq, by rw [hw.rest]; exact h.bits, ?_, ?_, h.nonneg,
    h.le_max, hw.placed h.placed, ?_⟩, ?_⟩
  · rw [hw.frame _ h.apart]
    exact h.stored
  · rw [hw.rest]
    exact h.sector_lt
  · rw [hdata]
    exact h.apart
  · rw [hmap]
    intro k hk
    rw [hw.bytes k (by omega), if_pos (by omega), Nat.zero_add, Nat.sub_zero]

section

variable (h : MapSaved fs freeMapSector inode)
include h

lemma MapSaved.allocate (hsave : saveFails fs cnt = false) :
    MapSaved (freeMapAllocate fs cnt).2 freeMapSector inode := by
  have hfile := h.file_eq
  unfold saveFails at hsave
  unfold freeMapAllocate bitmapScanAndFlip at *
  cases hscan : bitmapScan fs.freeMap.map 0 cnt false with
  | none =>
    exact ⟨⟨hfile, h.bits, h.stored, h.sector_lt, h.nonneg, h.le_max,
      ⟨h.placed.bound, h.placed.nodup, h.placed.lt⟩, h.apart⟩, h.saved⟩
  | some idx =>
    have hfile₁ : (fs.setMap (bitmapSetMultiple fs.freeMap.map idx cnt true)).freeMap.file =
        some inode := hfile
    have hmap := h.toMapFile.setMap (bitmapSetMultiple fs.freeMap.map idx cnt true)
    simp only [hscan, hfile, Bool.not_false, Bool.not_eq_false'] at hsave
    simp only [Bool.not_false, hfile₁, hsave, if_true]
    exact hmap.bitmapWrite hsave

lemma MapSaved.release (hassert : sector.toNat + cnt ≤ fs.freeMap.map.bitCnt ∧
      bitmapAll fs.freeMap.map sector.toNat cnt = true)
    (hsave : releaseSaves fs sector cnt = true) :
    MapSaved (freeMapRelease fs sector cnt) freeMapSector inode := by
  have hfile := h.file_eq
  have hfile₁ : (fs.setMap (bitmapSetMultiple fs.freeMap.map sector.toNat cnt false)).freeMap.file =
      some inode := hfile
  unfold releaseSaves at hsave
  unfold freeMapRelease
  simp only [hfile] at hsave
  simp only [if_pos hassert, hfile₁]
  exact (h.toMapFile.setMap _).bitmapWrite hsave

lemma MapSaved.step {op : FreeMapOp}
    (hstep : op.step fs = some fs') : MapSaved fs' freeMapSector inode := by
  cases op with
  | allocate cnt =>
    simp only [FreeMapOp.step] at hstep
    split at hstep
    case isTrue => cases hstep
    case isFalse hsave =>
        cases hstep
        exact h.allocate (by simpa using hsave)
  | release sector cnt =>
    simp only [FreeMapOp.step] at hstep
    split at hstep
    case isTrue hok =>
        cases hstep
        exact h.release ⟨hok.1, hok.2.1⟩ hok.2.2
    case isFalse => cases hstep

lemma MapSaved.run {ops : List FreeMapOp}
    (hrun : (freeMapMachine fs).run fs ops = some fs') : MapSaved fs' freeMapSector inode := by
  have hreach := Machine.reachable_run (Machine.Reachable.start (m := freeMapMachine fs) rfl) hrun
  refine hreach.invariant (I := fun s => MapSaved s freeMapSector inode) ?_ ?_
  · rintro s rfl
    exact h
  · intro s op s' hs hstep
    exact hs.step hstep

end

/-- A free map whose file was created without a failed allocation is on disk. -/
lemma freeMapCreate_saved (ok : FsOk fs) (hfile : fs.freeMap.file = none)
    (hu : Used fs freeMapSector) (hmax : (byteCnt fs.freeMap.map.bitCnt : Int) ≤ maxFileLength)
    (hsucc : (freeMapCreate fs freeMapSector).allocFailed = false)
    (hrun : (freeMapCreate fs freeMapSector).panicked = false) :
    ∃ inode, MapSaved (freeMapCreate fs freeMapSector) freeMapSector inode := by
  have hcall : freeMapCreate fs freeMapSector =
      if (inodeCreate fs freeMapSector (byteCnt fs.freeMap.map.bitCnt) false).1 = true then
        freeMapStore (createInode fs freeMapSector (byteCnt fs.freeMap.map.bitCnt) false).2
          (createInode fs freeMapSector (byteCnt fs.freeMap.map.bitCnt) false).1
      else (inodeCreate fs freeMapSector (byteCnt fs.freeMap.map.bitCnt) false).2.panic := rfl
  by_cases hbuilt : (inodeCreate fs freeMapSector (byteCnt fs.freeMap.map.bitCnt) false).1 = true
  swap
  · rw [hcall, if_neg hbuilt] at hrun
    cases hrun
  rw [if_pos hbuilt] at hcall
  rw [hcall] at hsucc hrun ⊢
  rw [freeMapStore_allocFailed] at hsucc
  have hmap : freeMapSector ∉ mapData fs ∧ freeMapSector ∉ mapIndex fs := by
    simp [mapData, mapIndex, hfile]
  obtain ⟨inode, fs', hcreate, hc⟩ :=
    createInode_spec ok hu hmap (Int.natCast_nonneg _) hmax hbuilt hsucc
  have hdata : inode.data = InodeDisk.ofBlock (fs'.disk freeMapSector) := by
    have hload := hcreate
    unfold createInode inodeLoad blockRead at hload
    simp only [Prod.mk.injEq] at hload
    rw [← hload.1, ← hload.2, checkSector_rest]
  rw [hcreate] at hrun ⊢
  dsimp only at hrun ⊢
  have hcnt : fs'.freeMap.map.bitCnt = fs.freeMap.map.bitCnt := by
    rw [hc.alloc.ok.bits, hc.alloc.size_eq, ok.bits]
  have hfits : (byteCnt fs'.freeMap.map.bitCnt : Int) ≤ inodeLength inode := by
    rw [hc.length_eq, hcnt]
  have hsector : inode.sector = freeMapSector := by rw [hc.inode_eq]
  have hmapFile : MapFile (fs'.attach fs'.freeMap.map inode hfits) freeMapSector inode := by
    have hplaced := hc.live.placed hc.alloc.ok
    refine ⟨rfl, hc.alloc.ok.bits, hdata.symm, ?_, hc.live.nonneg, hc.live.le_max,
      ⟨hplaced.bound, hplaced.nodup, hplaced.lt⟩, ?_⟩
    · rw [← hsector]
      exact hc.alloc.ok.lt_of_used hc.live.sector_used
    · rw [← hsector]
      exact fun hs => hc.live.sector_notMem (List.mem_append_left _ hs)
  unfold freeMapStore at hrun ⊢
  rw [dif_pos hfits] at hrun ⊢
  dsimp only at hrun ⊢
  by_cases hsave : (bitmapWrite (fs'.attach fs'.freeMap.map inode hfits) inode).1 = true
  · rw [if_pos hsave]
    exact ⟨inode, hmapFile.bitmapWrite hsave⟩
  · rw [if_neg hsave] at hrun
    cases hrun

lemma inodeLoad_of_stored {d : InodeDisk} (hlt : sector.toNat < fs.size)
    (hstored : InodeDisk.ofBlock (fs.disk sector) = d) :
    ∃ inode, inodeLoad fs sector = (inode, fs) ∧ inode.data = d := by
  refine ⟨⟨1, 0, false, sector, d⟩, ?_, rfl⟩
  unfold inodeLoad
  simp only [blockRead_of_lt hlt, hstored]

lemma MapSaved.freeMapOpen (h : MapSaved fs freeMapSector inode) (hdisk : fs'.disk = fs.disk)
    (hsize : fs'.size = fs.size) (hcnt : fs'.freeMap.map.bitCnt = fs.freeMap.map.bitCnt)
    (hm : fs'.mallocOk = true) :
    (freeMapOpen fs' freeMapSector).panicked = fs'.panicked ∧
      Restored (freeMapOpen fs' freeMapSector).freeMap.map fs.freeMap.map := by
  have hfits := fs.freeMap.fits inode h.file_eq
  have hpos : 0 < fs'.freeMap.map.bitCnt := by
    rw [hcnt, h.bits]
    exact Nat.zero_lt_of_lt h.sector_lt
  have hstored : InodeDisk.ofBlock (fs'.disk freeMapSector) = inode.data := by
    rw [hdisk]
    exact h.stored
  obtain ⟨loaded, hload, hdata⟩ := inodeLoad_of_stored (hsize ▸ h.sector_lt) hstored
  have hlength : inodeLength loaded = inodeLength inode := by rw [inodeLength, hdata, inodeLength]
  have hplaced : Placed fs' loaded.data (bytesToSectors (inodeLength inode)) := by
    rw [hdata]
    exact h.placed.transport hsize fun s _ => by rw [hdisk]
  have hbytes : ∀ k, k < byteCnt fs'.freeMap.map.bitCnt →
      fileByte fs' loaded.data k = bitmapByte fs.freeMap.map k := by
    intro k hk
    rw [hcnt] at hk
    rw [hdata, ← h.saved k hk, fileByte, fileByte, sectorOf, sectorOf, secondBlockOf,
      secondBlockOf, hdisk]
  obtain ⟨map, hread, hrestored⟩ := bitmapRead_restored hplaced
    (by rw [hlength]; exact (bytesToSectors_bounds h.nonneg h.le_max).2.1) hm hpos hcnt
    (by rw [hcnt, hlength]; exact hfits) hbytes
  have hlong : (byteCnt map.bitCnt : Int) ≤ inodeLength loaded := by
    rwa [hrestored.bitCnt_eq, hlength]
  have hopen : Filesys.freeMapOpen fs' freeMapSector = fs'.attach map loaded hlong := by
    unfold Filesys.freeMapOpen
    rw [if_pos hm, hload]
    dsimp only
    rw [hread]
    exact dif_pos hlong
  rw [hopen]
  exact ⟨rfl, hrestored⟩

lemma freeMapInit_ok (bits : Nat → BitVec 32) (hm : fs.mallocOk = true)
    (hsize : fs.size ≤ 4294967296) (hlt : freeMapSector.toNat < fs.size) :
    FsOk (freeMapInit fs freeMapSector bits) ∧
      (freeMapInit fs freeMapSector bits).freeMap.file = none ∧
      (freeMapInit fs freeMapSector bits).freeMap.map.bitCnt = fs.size ∧
      Used (freeMapInit fs freeMapSector bits) freeMapSector := by
  have hcnt : (bitmapSetAll ⟨fs.size, bits⟩ false).bitCnt = fs.size :=
    bitmapSetMultiple_bitCnt _ _ _ _
  unfold freeMapInit bitmapCreate
  simp only [hm, if_true]
  refine ⟨⟨hcnt, hsize, by simp⟩, trivial, hcnt, ?_, ?_⟩
  · exact lt_of_lt_of_eq hlt hcnt.symm
  · simp [bitmapTest_mark]

/-- Calls on the free map of the small volume, the last of them on its own data sector. -/
def freeMapCalls : List FreeMapOp := [.allocate 3, .release 4 1, .release 2 1]

/-- A device of two sectors, which has no sector left for the free-map file. -/
def tinyVolume : FileSys where
  size := 2
  disk := fun _ => zeros
  freeMap := { map := ⟨2, fun _ => 0⟩, file := none, fits := by simp }
  rootDirSector := 1
  mallocOk := true
  uninit := fun _ _ => 0
  panicked := false
  allocFailed := false
  dataLog := []

end Pintos.Filesys
