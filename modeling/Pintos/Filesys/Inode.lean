import Pintos.Foundation.PackedWords
import Pintos.Lib.Bitmap

/-!
# Inodes, sectors and the free map: data model and single accesses

The state of the file system is the device, the in-memory free map and two
observations that no code reads: whether some `free_map_allocate` call failed,
and which data sectors the growth loops allocated, in order. A failed `ASSERT`
and an access past the end of the device set `panicked`.

`off_t` values are integers, reduced to 32 bits where the source can wrap;
offsets, which every caller keeps non-negative, are naturals. In-memory inodes
are passed by value: each operation returns the inode it changed.
-/

namespace Pintos.Filesys

open Foundation Lib UInt32

abbrev BlockSector := UInt32

@[simp] def blockSectorSize : Nat := 512
@[simp] def indexBlockSize : Nat := 128
@[simp] def directBlockSize : Nat := 12
@[simp] def firstLevIndex : Nat := 10
@[simp] def secondLevIndex : Nat := 11
def inodeMagic : UInt32 := 0x494e4f44

/-- `ERROR`, which is -1, as a sector number. -/
def errorSector : BlockSector := 0xFFFFFFFF

/-- The largest length the three-level index can map: 10 + 128 + 128 * 128 sectors. -/
def maxFileLength : Int := 8459264

abbrev Block := ByteBlock 512

def zeros : Block := fun _ => 0

def Block.byte (block : Block) (k : Nat) : UInt8 := if h : k < 512 then block ⟨k, h⟩ else 0

def wrap32 (x : Int) : Int := x.bmod (2 ^ 32)

def subSize (a b : Nat) : Nat := (2 ^ 32 + a - b) % 2 ^ 32

/-- `struct inode_disk`; the `unused` words are written as zero and never read. -/
structure InodeDisk where
  length : Int
  magic : UInt32
  ptr : Nat → BlockSector
  parent : BlockSector
  directLevelIndex : Nat
  firstLevelIndex : Nat
  secondLevelIndex : Nat
  subDir : Bool

/-- `struct inode`, without its list element and its lock. -/
structure Inode where
  openCnt : Int
  denyWriteCnt : Int
  removed : Bool
  sector : BlockSector
  data : InodeDisk

def inodeLength (inode : Inode) : Int := inode.data.length

/-- `DIV_ROUND_UP (size, BLOCK_SECTOR_SIZE)` in `off_t`, then converted to `size_t`. -/
def bytesToSectors (size : Int) : Nat :=
  ((wrap32 (size + 511)).tdiv 512 % 2 ^ 32).toNat

/-- The free map and its file, which has the size of the bitmap and is never extended. -/
structure FreeMap where
  map : Bitmap
  file : Option Inode
  fits : ∀ inode ∈ file, (byteCnt map.bitCnt : Int) ≤ inodeLength inode

structure FileSys where
  /-- `block_size (fs_device)` -/
  size : Nat
  disk : BlockSector → Block
  freeMap : FreeMap
  /-- `ROOT_DIR_SECTOR`, which the repository does not define. -/
  rootDirSector : BlockSector
  /-- Whether `malloc` and `calloc` find memory. -/
  mallocOk : Bool
  /-- What a local array holds before it is written: anything. -/
  uninit : (BlockSector → Block) → Nat → BlockSector
  panicked : Bool
  allocFailed : Bool
  dataLog : List BlockSector

def FileSys.panic (fs : FileSys) : FileSys := { fs with panicked := true }

def FileSys.setMap (fs : FileSys) (map : Bitmap) : FileSys :=
  { fs with freeMap := { fs.freeMap with map := { fs.freeMap.map with bits := map.bits } } }

def checkSector (fs : FileSys) (sector : BlockSector) : FileSys :=
  if sector.toNat < fs.size then fs else fs.panic

def blockRead (fs : FileSys) (sector : BlockSector) : Block × FileSys :=
  (fs.disk sector, checkSector fs sector)

def blockWrite (fs : FileSys) (sector : BlockSector) (block : Block) : FileSys :=
  if sector.toNat < fs.size then { fs with disk := Function.update fs.disk sector block }
  else fs.panic

def InodeDisk.words (d : InodeDisk) (k : Nat) : UInt32 :=
  if k = 0 then UInt32.ofNat (d.length % 2 ^ 32).toNat
  else if k = 1 then d.magic
  else if k < 111 then 0
  else if k < 123 then d.ptr (k - 111)
  else if k = 123 then d.parent
  else if k = 124 then UInt32.ofNat d.directLevelIndex
  else if k = 125 then UInt32.ofNat d.firstLevelIndex
  else if k = 126 then UInt32.ofNat d.secondLevelIndex
  else if d.subDir then 1 else 0

def InodeDisk.toBlock (d : InodeDisk) : Block := packWords 512 d.words

def InodeDisk.ofBlock (block : Block) : InodeDisk where
  length := wrap32 (wordAt block 0).toNat
  magic := wordAt block 1
  ptr k := if k < 12 then wordAt block (111 + k) else 0
  parent := wordAt block 123
  directLevelIndex := (wordAt block 124).toNat
  firstLevelIndex := (wordAt block 125).toNat
  secondLevelIndex := (wordAt block 126).toNat
  subDir := decide ((wordAt block 127).toNat % 256 ≠ 0)

def byteToSector (fs : FileSys) (inode : Inode) (pos : Nat) : BlockSector × FileSys :=
  if (pos : Int) < inodeLength inode then
    let pos := pos / blockSectorSize
    if pos < firstLevIndex then (inode.data.ptr pos, fs)
    else
      let pos := pos - firstLevIndex
      if pos < indexBlockSize then
        let (block, fs) := blockRead fs (inode.data.ptr firstLevIndex)
        (wordAt block pos, fs)
      else
        let pos := pos - indexBlockSize
        if pos < indexBlockSize * indexBlockSize then
          let off := pos % indexBlockSize
          let pos := pos / indexBlockSize
          let (secondBlock, fs) := blockRead fs (inode.data.ptr secondLevIndex)
          let (block, fs) := blockRead fs (wordAt secondBlock pos)
          (wordAt block off, fs)
        else
          -- the source falls off the end of the function here
          (fs.uninit fs.disk 0, fs)
  else (errorSector, fs)

/-- The bytes one iteration moves: the least of size, rest of the sector and of the inode. -/
def chunkSize (inode : Inode) (size : Int) (offset : Nat) : Int :=
  let sectorOfs := offset % blockSectorSize
  let inodeLeft := inodeLength inode - offset
  let sectorLeft : Int := blockSectorSize - sectorOfs
  let minLeft := if inodeLeft < sectorLeft then inodeLeft else sectorLeft
  if size < minLeft then size else minLeft

def copyOut (buffer : Nat → UInt8) (start : Nat) (block : Block) (ofs n : Nat) : Nat → UInt8 :=
  fun i => if start ≤ i ∧ i < start + n then block.byte (ofs + (i - start)) else buffer i

def copyIn (block : Block) (ofs : Nat) (buffer : Nat → UInt8) (start n : Nat) : Block :=
  fun i => if ofs ≤ i.val ∧ i.val < ofs + n then buffer (start + (i.val - ofs)) else block i

/-- The loop of `inode_read_at`. Every iteration but the last moves a byte: `size` is fuel enough.
-/
def inodeReadLoop (inode : Inode) : Nat → FileSys → (Nat → UInt8) → Int → Nat → Nat →
    Nat × (Nat → UInt8) × FileSys
  | 0, fs, buffer, _, _, bytesRead => (bytesRead, buffer, fs)
  | fuel + 1, fs, buffer, size, offset, bytesRead =>
      if 0 < size then
        let (sectorIdx, fs) := byteToSector fs inode offset
        let sectorOfs := offset % blockSectorSize
        let chunk := chunkSize inode size offset
        if chunk ≤ 0 then (bytesRead, buffer, fs)
        else if sectorOfs = 0 ∧ chunk = blockSectorSize then
          let (block, fs) := blockRead fs sectorIdx
          let buffer := copyOut buffer bytesRead block 0 blockSectorSize
          inodeReadLoop inode fuel fs buffer (size - chunk) (offset + chunk.toNat)
            (bytesRead + chunk.toNat)
        else if fs.mallocOk then
          let (bounce, fs) := blockRead fs sectorIdx
          let buffer := copyOut buffer bytesRead bounce sectorOfs chunk.toNat
          inodeReadLoop inode fuel fs buffer (size - chunk) (offset + chunk.toNat)
            (bytesRead + chunk.toNat)
        else (bytesRead, buffer, fs)
      else (bytesRead, buffer, fs)

def inodeReadAt (fs : FileSys) (inode : Inode) (buffer : Nat → UInt8) (size : Int)
    (offset : Nat) : Nat × (Nat → UInt8) × FileSys :=
  inodeReadLoop inode size.toNat fs buffer size offset 0

/-- The loop of `inode_write_at`, after the inode has been extended. -/
def inodeWriteLoop (inode : Inode) (buffer : Nat → UInt8) : Nat → FileSys → Int → Nat → Nat →
    Nat × FileSys
  | 0, fs, _, _, bytesWritten => (bytesWritten, fs)
  | fuel + 1, fs, size, offset, bytesWritten =>
      if 0 < size then
        let (sectorIdx, fs) := byteToSector fs inode offset
        let sectorOfs := offset % blockSectorSize
        let sectorLeft : Int := blockSectorSize - sectorOfs
        let chunk := chunkSize inode size offset
        if chunk ≤ 0 then (bytesWritten, fs)
        else if sectorOfs = 0 ∧ chunk = blockSectorSize then
          let fs := blockWrite fs sectorIdx (copyIn zeros 0 buffer bytesWritten blockSectorSize)
          inodeWriteLoop inode buffer fuel fs (size - chunk) (offset + chunk.toNat)
            (bytesWritten + chunk.toNat)
        else if fs.mallocOk then
          let (bounce, fs) :=
            if 0 < sectorOfs ∨ chunk < sectorLeft then blockRead fs sectorIdx else (zeros, fs)
          let fs := blockWrite fs sectorIdx
            (copyIn bounce sectorOfs buffer bytesWritten chunk.toNat)
          inodeWriteLoop inode buffer fuel fs (size - chunk) (offset + chunk.toNat)
            (bytesWritten + chunk.toNat)
        else (bytesWritten, fs)
      else (bytesWritten, fs)

/-- `bitmap_write` on the free-map file; `FreeMap.fits` rules out its growth. -/
def bitmapWrite (fs : FileSys) (inode : Inode) : Bool × FileSys :=
  let size := byteCnt fs.freeMap.map.bitCnt
  if inode.denyWriteCnt ≠ 0 then (size == 0, fs)
  else
    let (written, fs) := inodeWriteLoop inode (bitmapByte fs.freeMap.map) size fs size 0 0
    (written == size, fs)

/-- Returns what is stored in `*sectorp`, `none` for the result false. -/
def freeMapAllocate (fs : FileSys) (cnt : Nat) : Option BlockSector × FileSys :=
  match bitmapScanAndFlip fs.freeMap.map 0 cnt false with
  | (none, _) => (none, { fs with allocFailed := true })
  | (some sector, map) =>
      let fs := fs.setMap map
      match fs.freeMap.file with
      | none => (some (UInt32.ofNat sector), fs)
      | some inode =>
          let (ok, fs) := bitmapWrite fs inode
          if ok then (some (UInt32.ofNat sector), fs)
          else
            let fs := fs.setMap (bitmapSetMultiple fs.freeMap.map sector cnt false)
            (none, { fs with allocFailed := true })

def freeMapRelease (fs : FileSys) (sector : BlockSector) (cnt : Nat) : FileSys :=
  let inRange := sector.toNat + cnt ≤ fs.freeMap.map.bitCnt
  let fs := if inRange ∧ bitmapAll fs.freeMap.map sector.toNat cnt = true then fs else fs.panic
  let fs := fs.setMap (bitmapSetMultiple fs.freeMap.map sector.toNat cnt false)
  match fs.freeMap.file with
  | none => fs.panic
  | some inode => (bitmapWrite fs inode).2

end Pintos.Filesys
