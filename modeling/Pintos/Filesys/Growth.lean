import Pintos.Filesys.Inode

/-!
# Growing, writing, closing and deallocating an inode (filesys/inode.c)

The three growth loops of the source differ in the array they fill and in its
bound; `allocLoop` is that loop, `openIndexBlock` the way it gets an index block,
and `releaseLoop` the loop deallocation repeats. The results of
`free_map_allocate` are ignored here as they are in the source: a failed call
leaves its slot as it was.
-/

namespace Pintos.Filesys

open Foundation Lib

/-! ## Growth -/

/-- `free_map_allocate (1, &slots[index])` -/
def allocSlot (fs : FileSys) (slots : Nat → BlockSector) (index : Nat) :
    (Nat → BlockSector) × FileSys :=
  match freeMapAllocate fs 1 with
  | (some sector, fs) => (Function.update slots index sector, fs)
  | (none, fs) => (slots, fs)

/-- One iteration of a growth loop; the log records the data sector. -/
def allocData (fs : FileSys) (slots : Nat → BlockSector) (index : Nat) :
    (Nat → BlockSector) × FileSys :=
  let (slots, fs) := allocSlot fs slots index
  let fs := blockWrite fs (slots index) zeros
  (slots, { fs with dataLog := fs.dataLog ++ [slots index] })

/-- The variables of a growth loop when it ends. -/
structure SlotLoop where
  sectors : Nat
  index : Nat
  slots : Nat → BlockSector
  fs : FileSys

/-- `for (; index < bound && sectors != 0; index++, sectors--)` -/
def allocLoop (bound : Nat) : Nat → Nat → (Nat → BlockSector) → FileSys → SlotLoop
  | 0, index, slots, fs => ⟨0, index, slots, fs⟩
  | sectors + 1, index, slots, fs =>
      if index < bound then
        let (slots, fs) := allocData fs slots index
        allocLoop bound sectors (index + 1) slots fs
      else ⟨sectors + 1, index, slots, fs⟩

/-- An index block in memory: the array that names its sector, and its entries. -/
structure IndexBlock where
  names : Nat → BlockSector
  slots : Nat → BlockSector
  fs : FileSys

/-- The index block named by `names[i]`: a new sector if it has no entries, else from disk. -/
def openIndexBlock (fs : FileSys) (isNew : Bool) (names : Nat → BlockSector) (i : Nat) :
    IndexBlock :=
  if isNew then
    let (names, fs) := allocSlot fs names i
    ⟨names, fs.uninit fs.disk, fs⟩
  else
    let (block, fs) := blockRead fs (names i)
    ⟨names, wordAt block, fs⟩

/-- What a growth function hands back: the sectors still wanted, and the state. -/
structure Growth where
  sectors : Nat
  inode : Inode
  fs : FileSys

def firstIndirAlloc (fs : FileSys) (sectors : Nat) (inode : Inode) : Growth :=
  let block := openIndexBlock fs (inode.data.firstLevelIndex = 0) inode.data.ptr firstLevIndex
  let loop := allocLoop indexBlockSize sectors inode.data.firstLevelIndex block.slots block.fs
  let fs := blockWrite loop.fs (block.names firstLevIndex) (packWords 512 loop.slots)
  let data := { inode.data with ptr := block.names, firstLevelIndex := loop.index }
  let data :=
    if data.firstLevelIndex = indexBlockSize then
      { data with firstLevelIndex := 0, directLevelIndex := data.directLevelIndex + 1 }
    else data
  ⟨loop.sectors, { inode with data := data }, fs⟩

/-- Fills one inner index block; returns the doubly indirect block as well. -/
def secondIndirAllocDeep (fs : FileSys) (sectors : Nat) (inode : Inode)
    (secondBlock : Nat → BlockSector) : Growth × (Nat → BlockSector) :=
  let first := inode.data.firstLevelIndex
  let block := openIndexBlock fs (inode.data.secondLevelIndex = 0) secondBlock first
  let loop := allocLoop indexBlockSize sectors inode.data.secondLevelIndex block.slots block.fs
  let fs := blockWrite loop.fs (block.names first) (packWords 512 loop.slots)
  let data := { inode.data with secondLevelIndex := loop.index }
  let data :=
    if data.secondLevelIndex = indexBlockSize then
      { data with firstLevelIndex := data.firstLevelIndex + 1, secondLevelIndex := 0 }
    else data
  (⟨loop.sectors, { inode with data := data }, fs⟩, block.names)

/-- The loop of `second_indir_alloc`. An iteration that does not end it fills an inner block: 128
are enough. -/
def secondIndirLoop : Nat → FileSys → Nat → Inode → (Nat → BlockSector) →
    Growth × (Nat → BlockSector)
  | 0, fs, sectors, inode, secondBlock => (⟨sectors, inode, fs⟩, secondBlock)
  | fuel + 1, fs, sectors, inode, secondBlock =>
      if inode.data.firstLevelIndex < indexBlockSize then
        let (g, secondBlock) := secondIndirAllocDeep fs sectors inode secondBlock
        if g.sectors = 0 then (g, secondBlock)
        else secondIndirLoop fuel g.fs g.sectors g.inode secondBlock
      else (⟨sectors, inode, fs⟩, secondBlock)

def secondIndirAlloc (fs : FileSys) (sectors : Nat) (inode : Inode) : Growth :=
  let isNew := inode.data.firstLevelIndex = 0 ∧ inode.data.secondLevelIndex = 0
  let block := openIndexBlock fs isNew inode.data.ptr secondLevIndex
  let inode := { inode with data := { inode.data with ptr := block.names } }
  let (g, secondBlock) := secondIndirLoop indexBlockSize block.fs sectors inode block.slots
  let fs := blockWrite g.fs (g.inode.data.ptr secondLevIndex) (packWords 512 secondBlock)
  ⟨g.sectors, g.inode, fs⟩

structure GrowReturn where
  length : Int
  inode : Inode
  fs : FileSys

/-- `inode_grow` from its test for the doubly indirect block on. -/
def inodeGrowSecond (fs : FileSys) (diskLength : Int) (sectors : Nat) (inode : Inode) :
    GrowReturn :=
  if inode.data.directLevelIndex = secondLevIndex then
    let g := secondIndirAlloc fs sectors inode
    if g.sectors = 2 ^ 32 - 1 then ⟨-1, g.inode, g.fs⟩
    else ⟨wrap32 (diskLength - g.sectors * blockSectorSize), g.inode, g.fs⟩
  else ⟨wrap32 (diskLength - sectors * blockSectorSize), inode, fs⟩

def inodeGrowFirst (fs : FileSys) (diskLength : Int) (sectors : Nat) (inode : Inode) :
    GrowReturn :=
  if inode.data.directLevelIndex = firstLevIndex then
    let g := firstIndirAlloc fs sectors inode
    if g.sectors = 2 ^ 32 - 1 then ⟨-1, g.inode, g.fs⟩
    else if g.sectors = 0 then ⟨diskLength, g.inode, g.fs⟩
    else inodeGrowSecond g.fs diskLength g.sectors g.inode
  else inodeGrowSecond fs diskLength sectors inode

/-- `inode_grow` from its test for the case that no sector is needed on. -/
def inodeGrowDirect (fs : FileSys) (diskLength : Int) (sectors : Nat) (inode : Inode) :
    GrowReturn :=
  if sectors = 0 then ⟨diskLength, inode, fs⟩
  else
    let loop := allocLoop firstLevIndex sectors inode.data.directLevelIndex inode.data.ptr fs
    let data := { inode.data with ptr := loop.slots, directLevelIndex := loop.index }
    let inode := { inode with data := data }
    if loop.sectors = 0 then ⟨diskLength, inode, loop.fs⟩
    else inodeGrowFirst loop.fs diskLength loop.sectors inode

def inodeGrow (fs : FileSys) (diskLength : Int) (inode : Inode) : GrowReturn :=
  inodeGrowDirect fs diskLength
    (subSize (bytesToSectors diskLength) (bytesToSectors (inodeLength inode))) inode

/-- `inode_allocate` grows a local inode whose pointers were never initialised. -/
def inodeAllocate (fs : FileSys) (diskInode : InodeDisk) : InodeDisk × FileSys :=
  let data := { diskInode with
    length := 0
    ptr := fs.uninit fs.disk
    directLevelIndex := 0
    firstLevelIndex := 0
    secondLevelIndex := 0 }
  let inode : Inode := ⟨0, 0, false, 0, data⟩
  let g := inodeGrow fs diskInode.length inode
  ({ diskInode with
      ptr := g.inode.data.ptr
      directLevelIndex := g.inode.data.directLevelIndex
      firstLevelIndex := g.inode.data.firstLevelIndex
      secondLevelIndex := g.inode.data.secondLevelIndex }, g.fs)

/-- The zeroed disk inode with the fields `inode_create` sets. -/
def newInodeDisk (fs : FileSys) (length : Int) (subDir : Bool) : InodeDisk where
  length := length
  magic := inodeMagic
  ptr := fun _ => 0
  parent := fs.rootDirSector
  directLevelIndex := 0
  firstLevelIndex := 0
  secondLevelIndex := 0
  subDir := subDir

def inodeCreate (fs : FileSys) (sector : BlockSector) (length : Int) (subDir : Bool) :
    Bool × FileSys :=
  let fs := if 0 ≤ length then fs else fs.panic
  if fs.mallocOk then
    let (diskInode, fs) := inodeAllocate fs (newInodeDisk fs length subDir)
    (true, blockWrite fs sector diskInode.toBlock)
  else (false, fs)

/-- `inode_open` on a sector that is not open yet. -/
def inodeLoad (fs : FileSys) (sector : BlockSector) : Inode × FileSys :=
  let (block, fs) := blockRead fs sector
  (⟨1, 0, false, sector, InodeDisk.ofBlock block⟩, fs)

/-- The growth step of `inode_write_at`, with `newLength` for `offset + size`. -/
def extendTo (fs : FileSys) (inode : Inode) (newLength : Int) : Inode × FileSys :=
  if inodeLength inode < newLength then
    let g := inodeGrow fs newLength inode
    ({ g.inode with data := { g.inode.data with length := g.length } }, g.fs)
  else (inode, fs)

def inodeWriteAt (fs : FileSys) (inode : Inode) (buffer : Nat → UInt8) (size : Int)
    (offset : Nat) : Nat × Inode × FileSys :=
  if inode.denyWriteCnt ≠ 0 then (0, inode, fs)
  else
    let (inode, fs) := extendTo fs inode (wrap32 (offset + size))
    let (bytesWritten, fs) := inodeWriteLoop inode buffer size.toNat fs size offset 0
    (bytesWritten, inode, fs)

/-- Releases `slots index`, .. until `size` reaches zero or no slots are left. -/
def releaseLoop (slots : Nat → BlockSector) : Nat → Nat → Nat → FileSys → Nat × FileSys
  | 0, _, size, fs => (size, fs)
  | left + 1, index, size, fs =>
      let fs := freeMapRelease fs (slots index) 1
      let size := subSize size 1
      if size = 0 then (size, fs) else releaseLoop slots left (index + 1) size fs

def firstLevelDealloc (fs : FileSys) (size : Nat) (inode : Inode) : Nat × FileSys :=
  let (block, fs) := blockRead fs (inode.data.ptr firstLevIndex)
  releaseLoop (wordAt block) indexBlockSize 0 size fs

def secondLevelDeallocDeep (fs : FileSys) (size index : Nat) (secondBlock : Nat → BlockSector) :
    Nat × FileSys :=
  let (block, fs) := blockRead fs (secondBlock index)
  releaseLoop (wordAt block) indexBlockSize 0 size fs

/-- The loop of `second_level_dealloc`, with the number of inner blocks left. -/
def secondLevelDeallocLoop (secondBlock : Nat → BlockSector) : Nat → Nat → Nat → FileSys →
    Nat × FileSys
  | 0, _, size, fs => (size, fs)
  | left + 1, index, size, fs =>
      let (size, fs) := secondLevelDeallocDeep fs size index secondBlock
      if size = 0 then (size, fs) else secondLevelDeallocLoop secondBlock left (index + 1) size fs

def secondLevelDealloc (fs : FileSys) (size : Nat) (inode : Inode) : Nat × FileSys :=
  let (block, fs) := blockRead fs (inode.data.ptr secondLevIndex)
  secondLevelDeallocLoop (wordAt block) indexBlockSize 0 size fs

def inodeDeallocate (fs : FileSys) (inode : Inode) : FileSys :=
  let size := bytesToSectors (inodeLength inode)
  if size = 0 then fs
  else
    let (size, fs) := releaseLoop inode.data.ptr firstLevIndex 0 size fs
    if size = 0 then fs
    else
      let (size, fs) := firstLevelDealloc fs size inode
      let fs := freeMapRelease fs (inode.data.ptr firstLevIndex) 1
      if size = 0 then fs
      else
        let (_, fs) := secondLevelDealloc fs size inode
        freeMapRelease fs (inode.data.ptr secondLevIndex) 1

def inodeRemove (inode : Inode) : Inode := { inode with removed := true }

/-- Returns the inode if somebody still has it open. -/
def inodeClose (fs : FileSys) (inode : Inode) : Option Inode × FileSys :=
  let inode := { inode with openCnt := inode.openCnt - 1 }
  if inode.openCnt = 0 then
    if inode.removed then
      let fs := freeMapRelease fs inode.sector 1
      (none, inodeDeallocate fs inode)
    else (none, blockWrite fs inode.sector inode.data.toBlock)
  else (some inode, fs)

end Pintos.Filesys
