import Pintos.Filesys.Growth
import Mathlib.Data.List.Nodup

/-!
# Where the sectors of an inode are

The index of an inode maps block number `k` to a sector: through `ptr` below 10,
through the block at `ptr[10]` below 138, and past that through an inner block
named by the doubly indirect block. `resolve` is this map, with the doubly
indirect block given as an array, because growth keeps it in memory while it
fills inner blocks. `Layout` says that an inode of `n` data sectors is indexed
this way, with its counters in step and all its sectors distinct and in use.
-/

namespace Pintos.Filesys

open Foundation Lib List

/-- The sector is on the device and its bit in the free map is set. -/
def Used (fs : FileSys) (s : BlockSector) : Prop :=
  s.toNat < fs.freeMap.map.bitCnt ∧ bitmapTest fs.freeMap.map s.toNat = true

instance (fs : FileSys) (s : BlockSector) : Decidable (Used fs s) :=
  inferInstanceAs (Decidable (_ ∧ _))

def resolve (disk : BlockSector → Block) (ptr second : Nat → BlockSector) (k : Nat) :
    BlockSector :=
  if k < 10 then ptr k
  else if k < 138 then wordAt (disk (ptr 10)) (k - 10)
  else wordAt (disk (second ((k - 138) / 128))) ((k - 138) % 128)

def secondBlockOf (fs : FileSys) (d : InodeDisk) : Nat → BlockSector :=
  wordAt (fs.disk (d.ptr 11))

def dataSectors (disk : BlockSector → Block) (ptr second : Nat → BlockSector) (n : Nat) :
    List BlockSector :=
  (List.range n).map (resolve disk ptr second)

def innerCount (n : Nat) : Nat := (n - 138 + 127) / 128

def indexSectors (ptr second : Nat → BlockSector) (n : Nat) : List BlockSector :=
  (if 10 < n then [ptr 10] else []) ++ (if 138 < n then [ptr 11] else []) ++
    (List.range (innerCount n)).map second

/-- `(direct_level_index, first_level_index, second_level_index)` of `n` sectors. -/
def levels (n : Nat) : Nat × Nat × Nat :=
  if n ≤ 10 then (n, 0, 0)
  else if n < 138 then (10, n - 10, 0)
  else (11, (n - 138) / 128, (n - 138) % 128)

def InodeDisk.counters (d : InodeDisk) : Nat × Nat × Nat :=
  (d.directLevelIndex, d.firstLevelIndex, d.secondLevelIndex)

def inodeData (fs : FileSys) (d : InodeDisk) (n : Nat) : List BlockSector :=
  dataSectors fs.disk d.ptr (secondBlockOf fs d) n

def inodeIndex (fs : FileSys) (d : InodeDisk) (n : Nat) : List BlockSector :=
  indexSectors d.ptr (secondBlockOf fs d) n

structure Layout (fs : FileSys) (d : InodeDisk) (n : Nat) : Prop where
  bound : n ≤ 16522
  counters : d.counters = levels n
  nodup : (inodeData fs d n ++ inodeIndex fs d n).Nodup
  used : ∀ s ∈ inodeData fs d n ++ inodeIndex fs d n, Used fs s

/-- Where the sectors of a file lie, whatever the free map says of them. -/
structure Placed (fs : FileSys) (d : InodeDisk) (n : Nat) : Prop where
  bound : n ≤ 16522
  nodup : (inodeData fs d n ++ inodeIndex fs d n).Nodup
  lt : ∀ s ∈ inodeData fs d n ++ inodeIndex fs d n, s.toNat < fs.size

/-- The free map has a bit for every sector, and its file is itself laid out. -/
structure FsOk (fs : FileSys) : Prop where
  bits : fs.freeMap.map.bitCnt = fs.size
  size_le : fs.size ≤ 2 ^ 32
  file : ∀ inode ∈ fs.freeMap.file,
    0 ≤ inodeLength inode ∧ inodeLength inode ≤ maxFileLength ∧
      Layout fs inode.data (bytesToSectors (inodeLength inode))

def mapData (fs : FileSys) : List BlockSector :=
  match fs.freeMap.file with
  | none => []
  | some inode => inodeData fs inode.data (bytesToSectors (inodeLength inode))

def mapIndex (fs : FileSys) : List BlockSector :=
  match fs.freeMap.file with
  | none => []
  | some inode => inodeIndex fs inode.data (bytesToSectors (inodeLength inode))

lemma wrap32_eq {x : Int} (h1 : -2147483648 ≤ x) (h2 : x < 2147483648) : wrap32 x = x :=
  Int.bmod_eq_of_le_mul_two (by omega) (by omega)

lemma subSize_eq {a b : Nat} (h : b ≤ a) (ha : a < 4294967296) : subSize a b = a - b := by
  unfold subSize
  omega

lemma bytesToSectors_eq {length : Int} (h0 : 0 ≤ length) (hmax : length ≤ 2147483136) :
    bytesToSectors length = (length.toNat + 511) / 512 := by
  have hw : wrap32 (length + 511) = length + 511 := wrap32_eq (by omega) (by omega)
  have ht : (length + 511).tdiv 512 = (length + 511) / 512 :=
    Int.tdiv_eq_ediv_of_nonneg (by omega)
  rw [bytesToSectors, hw, ht]
  omega

lemma bytesToSectors_bounds {length : Int} (h0 : 0 ≤ length) (hmax : length ≤ maxFileLength) :
    bytesToSectors length ≤ 16522 ∧ length ≤ 512 * bytesToSectors length ∧
      512 * (bytesToSectors length : Int) < length + 512 := by
  unfold maxFileLength at hmax
  rw [bytesToSectors_eq h0 (by omega)]
  omega

@[simp] lemma dataSectors_length (disk : BlockSector → Block) (ptr second : Nat → BlockSector)
    (n : Nat) : (dataSectors disk ptr second n).length = n := by
  simp [dataSectors]

variable {disk disk' : BlockSector → Block} {ptr second ptr' second' : Nat → BlockSector}
  {n k : Nat} {fs fs' : FileSys} {d : InodeDisk} {s : BlockSector}

lemma mem_dataSectors (h : k < n) : resolve disk ptr second k ∈ dataSectors disk ptr second n :=
  mem_map_of_mem (mem_range.mpr h)

lemma dataSectors_append {new : List BlockSector}
    (hold : ∀ k, k < n → resolve disk' ptr' second' k = resolve disk ptr second k)
    (hnew : ∀ k (h : k < new.length), resolve disk' ptr' second' (n + k) = new[k]) :
    dataSectors disk' ptr' second' (n + new.length) = dataSectors disk ptr second n ++ new := by
  have hleft : (range n).map (resolve disk' ptr' second') =
      (range n).map (resolve disk ptr second) :=
    map_congr_left fun k hk => hold k (mem_range.mp hk)
  have hright : (range new.length).map (fun k => resolve disk' ptr' second' (n + k)) =
      new := by
    apply ext_getElem
    · simp
    · intro k h1 h2
      simpa using hnew k h2
  simp only [dataSectors, range_add, map_append, map_map, Function.comp_def, hleft, hright]

lemma dataSectors_congr
    (h : ∀ k, k < n → resolve disk' ptr' second' k = resolve disk ptr second k) :
    dataSectors disk' ptr' second' n = dataSectors disk ptr second n :=
  map_congr_left fun k hk => h k (mem_range.mp hk)

lemma ptr10_mem_indexSectors (h : 10 < n) : ptr 10 ∈ indexSectors ptr second n := by
  simp [indexSectors, h]

lemma ptr11_mem_indexSectors (h : 138 < n) : ptr 11 ∈ indexSectors ptr second n := by
  simp [indexSectors, h]

lemma inner_mem_indexSectors {j : Nat} (h : j < innerCount n) :
    second j ∈ indexSectors ptr second n := by
  simp only [indexSectors, mem_append]
  exact Or.inr (mem_map_of_mem (mem_range.mpr h))

lemma inner_lt_innerCount (h1 : 138 ≤ k) (h2 : k < n) : (k - 138) / 128 < innerCount n := by
  unfold innerCount
  omega

lemma indexSectors_congr (h10 : 10 < n → ptr' 10 = ptr 10) (h11 : 138 < n → ptr' 11 = ptr 11)
    (hin : ∀ j, j < innerCount n → second' j = second j) :
    indexSectors ptr' second' n = indexSectors ptr second n := by
  have hmap : (range (innerCount n)).map second' = (range (innerCount n)).map second :=
    map_congr_left fun j hj => hin j (mem_range.mp hj)
  simp only [indexSectors, hmap]
  by_cases h1 : 10 < n <;> by_cases h2 : 138 < n <;> simp [h1, h2, h10, h11]

/-- The map depends on the disk only through the index sectors. -/
lemma resolve_congr_disk (h : ∀ s ∈ indexSectors ptr second n, disk' s = disk s) (hk : k < n) :
    resolve disk' ptr second k = resolve disk ptr second k := by
  unfold resolve
  split
  · rfl
  · split
    · rw [h _ (ptr10_mem_indexSectors (by omega))]
    · rw [h _ (inner_mem_indexSectors (inner_lt_innerCount (by omega) hk))]

section

variable (h : ∀ s ∈ inodeIndex fs d n, fs'.disk s = fs.disk s)
include h

lemma inner_wordAt_congr (hn : 138 < n) : secondBlockOf fs' d = secondBlockOf fs d := by
  unfold secondBlockOf
  rw [h _ (ptr11_mem_indexSectors hn)]

lemma inodeIndex_congr : inodeIndex fs' d n = inodeIndex fs d n := by
  apply indexSectors_congr (fun _ => rfl) (fun _ => rfl)
  intro j hj
  rw [inner_wordAt_congr h (by unfold innerCount at hj; omega)]

lemma inodeData_congr : inodeData fs' d n = inodeData fs d n := by
  apply dataSectors_congr
  intro k hk
  rw [← resolve_congr_disk h hk]
  by_cases hn : 138 < n
  · rw [inner_wordAt_congr h hn]
  · simp [resolve, show k < 138 by omega]

end

lemma Layout.transport (hl : Layout fs d n)
    (hdisk : ∀ s ∈ inodeIndex fs d n, fs'.disk s = fs.disk s)
    (hused : ∀ s ∈ inodeData fs d n ++ inodeIndex fs d n, Used fs s → Used fs' s) :
    Layout fs' d n := by
  have hd := inodeData_congr hdisk
  have hi := inodeIndex_congr hdisk
  refine ⟨hl.bound, hl.counters, ?_, ?_⟩
  · rw [hd, hi]
    exact hl.nodup
  · rw [hd, hi]
    exact fun s hs => hused s hs (hl.used s hs)

lemma Layout.placed (hl : Layout fs d n) (hbits : fs.freeMap.map.bitCnt = fs.size) :
    Placed fs d n :=
  ⟨hl.bound, hl.nodup, fun s hs => hbits ▸ (hl.used s hs).1⟩

lemma Placed.index_not_mem_data (hp : Placed fs d n) (hs : s ∈ inodeIndex fs d n) :
    s ∉ inodeData fs d n :=
  fun hd => (nodup_append.mp hp.nodup).2.2 s hd s hs rfl

lemma Placed.transport (hp : Placed fs d n) (hsize : fs'.size = fs.size)
    (hdisk : ∀ s ∈ inodeIndex fs d n, fs'.disk s = fs.disk s) : Placed fs' d n := by
  have hd := inodeData_congr hdisk
  have hi := inodeIndex_congr hdisk
  refine ⟨hp.bound, ?_, ?_⟩
  · rw [hd, hi]
    exact hp.nodup
  · rw [hd, hi, hsize]
    exact hp.lt

lemma checkSector_of_lt (h : s.toNat < fs.size) :
    checkSector fs s = fs := if_pos h

lemma blockRead_of_lt (h : s.toNat < fs.size) : blockRead fs s = (fs.disk s, fs) := by
  rw [blockRead, checkSector_of_lt h]

lemma FsOk.lt_of_used (ok : FsOk fs) (h : Used fs s) :
    s.toNat < fs.size := ok.bits ▸ h.1

/-- Inside the file, `byte_to_sector` reads the index and changes nothing. -/
lemma byteToSector_eq {inode : Inode} {pos : Nat} (hp : Placed fs inode.data n)
    (hpos : (pos : Int) < inodeLength inode) (hn : pos / 512 < n) : byteToSector fs inode pos =
      (resolve fs.disk inode.data.ptr (secondBlockOf fs inode.data) (pos / 512), fs) := by
  have hlt : ∀ s ∈ inodeIndex fs inode.data n, s.toNat < fs.size :=
    fun s hs => hp.lt s (mem_append_right _ hs)
  have hb := hp.bound
  rw [byteToSector, if_pos hpos]
  dsimp only [blockSectorSize, firstLevIndex, secondLevIndex, indexBlockSize]
  unfold resolve
  by_cases h1 : pos / 512 < 10
  · simp [h1]
  · simp only [h1, if_false]
    by_cases h2 : pos / 512 < 138
    · have h2' : pos / 512 - 10 < 128 := by omega
      have hr := blockRead_of_lt (hlt _ (ptr10_mem_indexSectors (by omega)))
      simp [h2, h2', hr]
    · have h2' : ¬ pos / 512 - 10 < 128 := by omega
      have h3 : pos / 512 - 138 < 128 * 128 := by omega
      have hk : pos / 512 - 10 - 128 = pos / 512 - 138 := by omega
      have hr := blockRead_of_lt (hlt _ (ptr11_mem_indexSectors (by omega)))
      have hj : (pos / 512 - 138) / 128 < innerCount n := inner_lt_innerCount (by omega) hn
      have hri := blockRead_of_lt (hlt _ (inner_mem_indexSectors hj))
      simp only [secondBlockOf] at hri
      simp [h2, h2', h3, hk, hr, hri, secondBlockOf]

end Pintos.Filesys
