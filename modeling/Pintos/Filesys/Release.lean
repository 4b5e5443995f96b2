import Mathlib
import Pintos.Filesys.Capacity
import Pintos.Filesys.Content

/-!
# Deallocation

`inode_close` on a removed inode gives sectors back to the free map. The counts
it works with come from the length alone, and the sectors from the index blocks,
which are read back from disk; `Released` describes one or more such releases,
and `inodeClose_released` says which sectors a whole deallocation releases: the
inode's own sector, its data sectors and the two top index blocks.
-/

namespace Pintos.Filesys

open Foundation Lib List

/-- `fs'` is `fs` with the sectors `gone` given back, and the map saved. -/
structure Released (fs fs' : FileSys) (gone : List BlockSector) : Prop where
  size_eq : fs'.size = fs.size
  panicked_eq : fs'.panicked = fs.panicked
  file_eq : fs'.freeMap.file = fs.freeMap.file
  ok : FsOk fs'
  mapData_eq : mapData fs' = mapData fs
  mapIndex_eq : mapIndex fs' = mapIndex fs
  used : ∀ s, Used fs' s ↔ Used fs s ∧ s ∉ gone
  kept : ∀ s, s ∉ mapData fs → fs'.disk s = fs.disk s

/-- What may be released: distinct sectors in use, none of the free-map file. -/
structure Releasable (fs : FileSys) (gone : List BlockSector) : Prop where
  opened : fs.freeMap.file.isSome = true
  nodup : gone.Nodup
  used : ∀ s ∈ gone, Used fs s
  apart : ∀ s ∈ gone, s ∉ mapData fs ∧ s ∉ mapIndex fs

variable {fs fs₁ fs' : FileSys} {gone gone' : List BlockSector} {s : BlockSector}
  {slots : Nat → BlockSector} {index size j n : Nat} {inode inode' : Inode} {ops : List WriteOp}

lemma Released.refl (ok : FsOk fs) : Released fs fs [] :=
  ⟨rfl, rfl, rfl, ok, rfl, rfl, by simp, fun _ _ => rfl⟩

lemma Released.trans {fs₂ : FileSys} {gone₁ gone₂ : List BlockSector}
    (h₁ : Released fs fs₁ gone₁) (h₂ : Released fs₁ fs₂ gone₂) :
    Released fs fs₂ (gone₁ ++ gone₂) := by
  refine ⟨h₂.size_eq.trans h₁.size_eq, h₂.panicked_eq.trans h₁.panicked_eq,
    h₂.file_eq.trans h₁.file_eq, h₂.ok, h₂.mapData_eq.trans h₁.mapData_eq,
    h₂.mapIndex_eq.trans h₁.mapIndex_eq, ?_, ?_⟩
  · intro s
    rw [h₂.used, h₁.used, mem_append, not_or, and_assoc]
  · intro s hs
    rw [h₂.kept s (by rwa [h₁.mapData_eq]), h₁.kept s hs]

lemma Releasable.rest {rest : List BlockSector} (h : Releasable fs (gone ++ rest))
    (hr : Released fs fs' gone) : Releasable fs' rest := by
  obtain ⟨-, hnd, hsep⟩ := nodup_append.mp h.nodup
  refine ⟨by rw [hr.file_eq]; exact h.opened, hnd, ?_, ?_⟩
  · intro s hs
    exact (hr.used s).mpr ⟨h.used s (mem_append_right _ hs), fun hg => hsep s hg s hs rfl⟩
  · intro s hs
    rw [hr.mapData_eq, hr.mapIndex_eq]
    exact h.apart s (mem_append_right _ hs)

lemma Releasable.left {rest : List BlockSector} (h : Releasable fs (gone ++ rest)) :
    Releasable fs gone :=
  ⟨h.opened, (nodup_append.mp h.nodup).1, fun s hs => h.used s (mem_append_left _ hs),
    fun s hs => h.apart s (mem_append_left _ hs)⟩

lemma freeMapRelease_spec (ok : FsOk fs) (h : Releasable fs [s]) :
    Released fs (freeMapRelease fs s 1) [s] := by
  have hmem : s ∈ [s] := mem_singleton_self s
  have hu := h.used s hmem
  obtain ⟨hmd, hmi⟩ := h.apart s hmem
  have hall : bitmapAll fs.freeMap.map s.toNat 1 = true := by
    simp [bitmapAll, bitmapContains, hu.2]
  have hin : s.toNat + 1 ≤ fs.freeMap.map.bitCnt ∧
      bitmapAll fs.freeMap.map s.toNat 1 = true := ⟨hu.1, hall⟩
  unfold freeMapRelease
  simp only [if_pos hin]
  have hused : ∀ t, Used (fs.setMap (bitmapSetMultiple fs.freeMap.map s.toNat 1 false)) t ↔
      Used fs t ∧ t ∉ [s] := by
    intro t
    rw [used_setMap (bitmapSetMultiple_bitCnt _ _ _ _), bitmapTest_setMultiple, Used,
      mem_singleton, ← UInt32.toNat_inj]
    by_cases ht : t.toNat = s.toNat
    · simp [ht]
    · rw [if_neg (by omega)]
      simp [ht]
  have hkeep : ∀ t ∈ mapData fs ++ mapIndex fs, t ∉ [s] := by
    intro t ht hts
    obtain rfl := mem_singleton.mp hts
    exact (mem_append.mp ht).elim hmd hmi
  obtain ⟨hok, hmd₁, hmi₁⟩ := ok.transport
    (fs.setMap (bitmapSetMultiple fs.freeMap.map s.toNat 1 false)) rfl rfl rfl
    (fun _ _ => rfl) (fun t ht hut => (hused t).mpr ⟨hut, hkeep t ht⟩)
  generalize hfs : fs.setMap (bitmapSetMultiple fs.freeMap.map s.toNat 1 false) = fs₁ at *
  have hp : fs₁.panicked = fs.panicked := by
    rw [← hfs]
    rfl
  have hfile : fs₁.freeMap.file = fs.freeMap.file := by
    rw [← hfs]
    rfl
  have hdisk : fs₁.disk = fs.disk := by
    rw [← hfs]
    rfl
  have hsize : fs₁.size = fs.size := by
    rw [← hfs]
    rfl
  obtain ⟨inode, hi⟩ := Option.isSome_iff_exists.mp (hfile ▸ h.opened)
  simp only [hi]
  obtain ⟨hrest, hframe⟩ := bitmapWrite_spec hok hi
  obtain ⟨hok₂, hmd₂, hmi₂⟩ := hok.transport (bitmapWrite fs₁ inode).2 (by rw [hrest])
    (by rw [hrest]) (by rw [hrest])
    (fun t ht => hframe t (hok.mapIndex_not_mem_mapData ht)) (fun t _ ht => by rw [hrest]; exact ht)
  refine ⟨by rw [hrest]; exact hsize, by rw [hrest]; exact hp, by rw [hrest]; exact hfile,
    hok₂, hmd₂.trans hmd₁, hmi₂.trans hmi₁, ?_, ?_⟩
  · intro t
    rw [← hused t, hrest]
    rfl
  · intro t ht
    rw [hframe t (by rwa [hmd₁]), hdisk]

/-- `slots start`, `slots (start + 1)`, .. -/
def slotRange (slots : Nat → BlockSector) (start cnt : Nat) : List BlockSector :=
  (List.range cnt).map fun j => slots (start + j)

lemma slotRange_add (slots : Nat → BlockSector) (start a b : Nat) :
    slotRange slots start (a + b) = slotRange slots start a ++ slotRange slots (start + a) b := by
  simp [slotRange, range_add, Function.comp_def, Nat.add_assoc]

lemma slotRange_one (slots : Nat → BlockSector) (start : Nat) :
    slotRange slots start 1 = [slots start] := by
  simp [slotRange]

lemma slotRange_congr {slots' : Nat → BlockSector} {start start' cnt : Nat}
    (h : ∀ j, j < cnt → slots (start + j) = slots' (start' + j)) :
    slotRange slots start cnt = slotRange slots' start' cnt :=
  map_congr_left fun j hj => h j (mem_range.mp hj)

def releaseAll (fs : FileSys) (gone : List BlockSector) : FileSys :=
  gone.foldl (fun fs s => freeMapRelease fs s 1) fs

@[simp] lemma releaseAll_singleton (fs : FileSys) (s : BlockSector) :
    releaseAll fs [s] = freeMapRelease fs s 1 := rfl

lemma releaseAll_append (fs : FileSys) (gone rest : List BlockSector) :
    releaseAll fs (gone ++ rest) = releaseAll (releaseAll fs gone) rest :=
  foldl_append

lemma releaseAll_released (ok : FsOk fs) (h : Releasable fs gone) :
    Released fs (releaseAll fs gone) gone := by
  induction gone generalizing fs with
  | nil => exact Released.refl ok
  | cons s gone ih =>
    have hsplit : Releasable fs ([s] ++ gone) := h
    have h₁ := freeMapRelease_spec ok hsplit.left
    exact h₁.trans (ih h₁.ok (hsplit.rest h₁))

lemma releaseLoop_eq {left : Nat} (hpos : 0 < size) (hsmall : size < 4294967296) :
    releaseLoop slots left index size fs =
      (size - min size left, releaseAll fs (slotRange slots index (min size left))) := by
  induction left generalizing index size fs with
  | zero => simp [releaseLoop, slotRange, releaseAll]
  | succ left ih =>
    have hmin : min size (left + 1) = 1 + min (size - 1) left := by omega
    have hsub := subSize_eq (show 1 ≤ size from hpos) hsmall
    rw [hmin, slotRange_add, slotRange_one, releaseAll_append]
    unfold releaseLoop
    simp only [hsub]
    by_cases hlast : size - 1 = 0
    · have hzero : min (size - 1) left = 0 := by omega
      rw [if_pos hlast, hzero]
      simp [slotRange, releaseAll, hlast]
    · rw [if_neg hlast, ih (by omega) (by omega), ← Nat.sub_sub]
      rfl

/-- The loop over inner blocks; `slots` lists the data sectors they name. -/
lemma secondLevelDeallocLoop_eq {second : Nat → BlockSector} {left : Nat} (ok : FsOk fs)
    (hpos : 0 < size) (hfit : size ≤ 128 * left) (hsmall : size < 4294967296)
    (hinner : ∀ j i, i < 128 → 128 * index ≤ 128 * j + i → 128 * j + i < 128 * index + size →
      (second j).toNat < fs.size ∧ second j ∉ mapData fs ∧
        wordAt (fs.disk (second j)) i = slots (128 * j + i))
    (h : Releasable fs (slotRange slots (128 * index) size)) :
    secondLevelDeallocLoop second left index size fs =
      (0, releaseAll fs (slotRange slots (128 * index) size)) := by
  induction left generalizing index size fs with
  | zero => omega
  | succ left ih =>
    have hread := blockRead_of_lt (hinner index 0 (by omega) (by omega) (by omega)).1
    have hslots : slotRange (wordAt (fs.disk (second index))) 0 (min size 128) =
        slotRange slots (128 * index) (min size 128) := by
      apply slotRange_congr
      intro j hj
      rw [Nat.zero_add]
      exact (hinner index j (by omega) (by omega) (by omega)).2.2
    have hsplit : slotRange slots (128 * index) size =
        slotRange slots (128 * index) (min size 128) ++
          slotRange slots (128 * index + min size 128) (size - min size 128) := by
      rw [← slotRange_add, Nat.add_sub_cancel' (Nat.min_le_left _ _)]
    rw [hsplit] at h
    have h₁ := releaseAll_released ok h.left
    rw [hsplit, releaseAll_append]
    unfold secondLevelDeallocLoop secondLevelDeallocDeep
    simp only [hread, indexBlockSize, releaseLoop_eq hpos hsmall, hslots]
    by_cases hlast : size - min size 128 = 0
    · rw [if_pos hlast, hlast]
      rfl
    · rw [if_neg hlast]
      have hnext : 128 * index + min size 128 = 128 * (index + 1) := by omega
      rw [hnext] at h ⊢
      refine ih h₁.ok (by omega) (by omega) (by omega) ?_ (h.rest h₁)
      intro j i hi hlo hhi
      obtain ⟨hlt, hmd, hword⟩ := hinner j i hi (by omega) (by omega)
      rw [h₁.size_eq, h₁.mapData_eq, h₁.kept _ hmd]
      exact ⟨hlt, hmd, hword⟩

/-! ## A whole deallocation -/

section

variable (fs : FileSys) (d : InodeDisk)

lemma inodeData_add (a b : Nat) :
    inodeData fs d (a + b) = inodeData fs d a ++ slotRange (sectorOf fs d) a b := by
  simp [inodeData, dataSectors, slotRange, range_add, Function.comp_def, sectorOf]

lemma inodeData_eq_slotRange (n : Nat) : inodeData fs d n = slotRange (sectorOf fs d) 0 n := by
  rw [← Nat.zero_add n, inodeData_add, Nat.zero_add]
  rfl

lemma sectorOf_direct {k : Nat} (h : k < 10) : sectorOf fs d k = d.ptr k := by
  rw [sectorOf, resolve, if_pos h]

lemma sectorOf_first (h : j < 128) : sectorOf fs d (10 + j) = wordAt (fs.disk (d.ptr 10)) j := by
  rw [sectorOf, resolve, if_neg (by omega), if_pos (by omega), Nat.add_sub_cancel_left]

lemma sectorOf_second {i : Nat} (h : i < 128) :
    sectorOf fs d (138 + (128 * j + i)) = wordAt (fs.disk (secondBlockOf fs d j)) i := by
  have hdiv : (138 + (128 * j + i) - 138) / 128 = j := by omega
  have hmod : (138 + (128 * j + i) - 138) % 128 = i := by omega
  rw [sectorOf, resolve, if_neg (by omega), if_neg (by omega), hdiv, hmod]

end

/-- The sectors `inode_deallocate` releases: not the inner blocks of the doubly indirect one. -/
def deallocated (fs : FileSys) (d : InodeDisk) (n : Nat) : List BlockSector :=
  inodeData fs d n ++ ((if 10 < n then [d.ptr 10] else []) ++ if 138 < n then [d.ptr 11] else [])

lemma own_eq_deallocated (fs : FileSys) (d : InodeDisk) (n : Nat) :
    inodeData fs d n ++ inodeIndex fs d n =
      deallocated fs d n ++ (range (innerCount n)).map (secondBlockOf fs d) := by
  simp [inodeIndex, indexSectors, deallocated]

lemma firstLevelDealloc_eq (hlt : (inode.data.ptr 10).toNat < fs.size) (hpos : 0 < size)
    (hsmall : size < 4294967296) :
    firstLevelDealloc fs size inode = (size - min size 128,
      releaseAll fs (slotRange (wordAt (fs.disk (inode.data.ptr 10))) 0 (min size 128))) := by
  unfold firstLevelDealloc
  simp only [firstLevIndex, indexBlockSize, blockRead_of_lt hlt]
  exact releaseLoop_eq hpos hsmall

lemma secondLevelDealloc_eq (hlt : (inode.data.ptr 11).toNat < fs.size) :
    secondLevelDealloc fs size inode =
      secondLevelDeallocLoop (secondBlockOf fs inode.data) 128 0 size fs := by
  unfold secondLevelDealloc
  simp only [secondLevIndex, indexBlockSize, blockRead_of_lt hlt]
  rfl

lemma Releasable.perm (h : Releasable fs gone) (hp : gone.Perm gone') : Releasable fs gone' :=
  ⟨h.opened, hp.nodup_iff.mp h.nodup, fun s hs => h.used s (hp.mem_iff.mpr hs),
    fun s hs => h.apart s (hp.mem_iff.mpr hs)⟩

lemma Released.perm (h : Released fs fs' gone) (hp : gone.Perm gone') : Released fs fs' gone' :=
  { h with used := fun s => by rw [h.used, hp.mem_iff] }

lemma LaidOut.releasable (hl : LaidOut fs inode) (hopen : fs.freeMap.file.isSome = true) :
    Releasable fs (deallocated fs inode.data (bytesToSectors (inodeLength inode))) := by
  have howns := hl.file.owns
  have hown := own_eq_deallocated fs inode.data (bytesToSectors (inodeLength inode))
  refine ⟨hopen, ?_, fun s hs => howns.used s ?_, fun s hs => howns.apart s ?_⟩
  · have hnd := howns.nodup
    rw [hown] at hnd
    exact (nodup_append.mp hnd).1
  · rw [hown]
    exact mem_append_left _ hs
  · rw [hown]
    exact mem_append_left _ hs

/-- The sectors of `deallocated` in the order in which they are released. -/
def deallocOrder (fs : FileSys) (d : InodeDisk) (n : Nat) : List BlockSector :=
  if n ≤ 10 then slotRange (sectorOf fs d) 0 n
  else
    slotRange (sectorOf fs d) 0 10 ++ (slotRange (sectorOf fs d) 10 (min (n - 10) 128) ++
      ([d.ptr 10] ++
        if n ≤ 138 then [] else slotRange (sectorOf fs d) 138 (n - 138) ++ [d.ptr 11]))

lemma deallocOrder_congr {d : InodeDisk} (h : ∀ k, k < n → sectorOf fs' d k = sectorOf fs d k) :
    deallocOrder fs' d n = deallocOrder fs d n := by
  have hrange : ∀ start cnt, start + cnt ≤ n →
      slotRange (sectorOf fs' d) start cnt = slotRange (sectorOf fs d) start cnt :=
    fun start cnt hle => slotRange_congr fun j hj => h (start + j) (by omega)
  unfold deallocOrder
  by_cases h10 : n ≤ 10
  · rw [if_pos h10, if_pos h10, hrange 0 n (by omega)]
  · rw [if_neg h10, if_neg h10, hrange 0 10 (by omega), hrange 10 _ (by omega)]
    by_cases h138 : n ≤ 138
    · rw [if_pos h138, if_pos h138]
    · rw [if_neg h138, if_neg h138, hrange 138 _ (by omega)]

lemma deallocOrder_perm (fs : FileSys) (d : InodeDisk) (n : Nat) :
    (deallocOrder fs d n).Perm (deallocated fs d n) := by
  unfold deallocOrder deallocated
  rw [inodeData_eq_slotRange]
  by_cases h10 : n ≤ 10
  · simp [h10, show ¬ 10 < n by omega, show ¬ 138 < n by omega]
  rw [if_neg h10, if_pos (show 10 < n by omega)]
  by_cases h138 : n ≤ 138
  · have hn : n = 10 + min (n - 10) 128 := by omega
    rw [if_pos h138, if_neg (by omega), append_nil, ← append_assoc]
    conv => rhs; rw [hn, slotRange_add, Nat.zero_add]
  · have hmin : min (n - 10) 128 = 128 := by omega
    have hn : slotRange (sectorOf fs d) 0 n = slotRange (sectorOf fs d) 0 10 ++
        (slotRange (sectorOf fs d) 10 128 ++ slotRange (sectorOf fs d) 138 (n - 138)) := by
      conv => lhs; rw [show n = 10 + (128 + (n - 138)) by omega]
      rw [slotRange_add, slotRange_add]
    rw [if_neg h138, if_pos (by omega), hmin, hn]
    simp only [append_assoc]
    refine Perm.append_left _ (Perm.append_left _ ?_)
    calc
      Perm ([d.ptr 10] ++ (slotRange (sectorOf fs d) 138 (n - 138) ++ [d.ptr 11]))
          (slotRange (sectorOf fs d) 138 (n - 138) ++ [d.ptr 11] ++ [d.ptr 10]) :=
        perm_append_comm
      _ = slotRange (sectorOf fs d) 138 (n - 138) ++ ([d.ptr 11] ++ [d.ptr 10]) := by simp
      Perm _ (slotRange (sectorOf fs d) 138 (n - 138) ++ ([d.ptr 10] ++ [d.ptr 11])) :=
        Perm.append_left _ perm_append_comm

/-- The doubly indirect part, when part of the file is released. Nothing is left to release. -/
lemma secondLevelDealloc_released (ok : FsOk fs) (hf : FileAt fs inode.data n) (h138 : 138 < n)
    (h₁ : Released fs fs₁ gone)
    (h : Releasable fs₁ (slotRange (sectorOf fs inode.data) 138 (n - 138))) :
    secondLevelDealloc fs₁ (n - 138) inode =
      (0, releaseAll fs₁ (slotRange (sectorOf fs inode.data) 138 (n - 138))) := by
  have hbound := hf.bound
  have hindex : ∀ s ∈ inodeIndex fs inode.data n, s.toNat < fs₁.size ∧ s ∉ mapData fs₁ ∧
      fs₁.disk s = fs.disk s := by
    intro s hs
    have hmem := mem_append_right (inodeData fs inode.data n) hs
    have hmd := (hf.owns.apart s hmem).1
    rw [h₁.size_eq, h₁.mapData_eq]
    exact ⟨ok.lt_of_used (hf.owns.used s hmem), hmd, h₁.kept s hmd⟩
  obtain ⟨hlt, -, hdisk⟩ := hindex _ (ptr11_mem_indexSectors h138)
  have hsecond : secondBlockOf fs₁ inode.data = secondBlockOf fs inode.data := by
    unfold secondBlockOf
    rw [hdisk]
  have hslots : slotRange (sectorOf fs inode.data) 138 (n - 138) =
      slotRange (fun k => sectorOf fs inode.data (138 + k)) (128 * 0) (n - 138) := by
    apply slotRange_congr
    intro j _
    simp
  rw [hslots] at h ⊢
  rw [secondLevelDealloc_eq hlt, hsecond]
  refine secondLevelDeallocLoop_eq h₁.ok (by omega) (by omega) (by omega) ?_ h
  intro j i hi _ hhi
  have hj : j < innerCount n := by
    unfold innerCount
    omega
  obtain ⟨hlt', hmd, hsame⟩ := hindex _ (inner_mem_indexSectors hj)
  exact ⟨hlt', hmd, by rw [hsame, sectorOf_second fs inode.data hi]⟩

lemma inodeDeallocate_of_short (h : bytesToSectors (inodeLength inode) ≤ 10) :
    inodeDeallocate fs inode = releaseAll fs
      (slotRange (sectorOf fs inode.data) 0 (bytesToSectors (inodeLength inode))) := by
  unfold inodeDeallocate
  dsimp only
  generalize bytesToSectors (inodeLength inode) = n at h ⊢
  by_cases h0 : n = 0
  · subst h0
    rfl
  have hmin : min n firstLevIndex = n := Nat.min_eq_left h
  have hslots : slotRange inode.data.ptr 0 n = slotRange (sectorOf fs inode.data) 0 n := by
    apply slotRange_congr
    intro j hj
    rw [sectorOf_direct fs inode.data (by omega)]
  rw [if_neg h0, releaseLoop_eq (Nat.pos_of_ne_zero h0) (by omega), hmin, Nat.sub_self, hslots]
  exact if_pos rfl

/-- What is released before `second_level_dealloc` gets its turn. -/
def deallocHead (fs : FileSys) (d : InodeDisk) (n : Nat) : List BlockSector :=
  slotRange (sectorOf fs d) 0 10 ++ (slotRange (sectorOf fs d) 10 (min (n - 10) 128) ++ [d.ptr 10])

lemma deallocOrder_of_long (fs : FileSys) (d : InodeDisk) (h : 10 < n) :
    deallocOrder fs d n = deallocHead fs d n ++
      if n ≤ 138 then [] else slotRange (sectorOf fs d) 138 (n - 138) ++ [d.ptr 11] := by
  simp [deallocOrder, deallocHead, show ¬ n ≤ 10 by omega]

lemma inodeDeallocate_of_long (hn : bytesToSectors (inodeLength inode) = n) (ok : FsOk fs)
    (hf : FileAt fs inode.data n) (h : 10 < n)
    (hrel : Releasable fs (deallocHead fs inode.data n)) :
    inodeDeallocate fs inode =
      if n ≤ 138 then releaseAll fs (deallocHead fs inode.data n)
      else freeMapRelease (secondLevelDealloc (releaseAll fs (deallocHead fs inode.data n))
        (n - 138) inode).2 (inode.data.ptr 11) 1 := by
  have hbound := hf.bound
  have hdirect : slotRange inode.data.ptr 0 10 = slotRange (sectorOf fs inode.data) 0 10 := by
    apply slotRange_congr
    intro j hj
    rw [sectorOf_direct fs inode.data (by omega)]
  -- the indirect block is still on disk when the direct blocks are gone
  have h₁ := releaseAll_released ok hrel.left
  have hmem : inode.data.ptr 10 ∈ inodeData fs inode.data n ++ inodeIndex fs inode.data n :=
    mem_append_right _ (ptr10_mem_indexSectors h)
  have hdisk := h₁.kept _ (hf.owns.apart _ hmem).1
  have hlt : (inode.data.ptr 10).toNat < (releaseAll fs
      (slotRange (sectorOf fs inode.data) 0 10)).size := by
    rw [h₁.size_eq]
    exact ok.lt_of_used (hf.owns.used _ hmem)
  have hfirst : slotRange (wordAt (fs.disk (inode.data.ptr 10))) 0 (min (n - 10) 128) =
      slotRange (sectorOf fs inode.data) 10 (min (n - 10) 128) := by
    apply slotRange_congr
    intro j hj
    rw [sectorOf_first fs inode.data (by omega), Nat.zero_add]
  have hloop : releaseLoop inode.data.ptr 10 0 n fs =
      (n - 10, releaseAll fs (slotRange (sectorOf fs inode.data) 0 10)) := by
    rw [releaseLoop_eq (by omega) (by omega), show min n 10 = 10 by omega, hdirect]
  have hsecond := firstLevelDealloc_eq hlt (show 0 < n - 10 by omega) (by omega)
  rw [hdisk, hfirst] at hsecond
  unfold inodeDeallocate deallocHead
  delta firstLevIndex secondLevIndex
  simp only [hn, hloop, hsecond, if_neg (show n ≠ 0 by omega), if_neg (show n - 10 ≠ 0 by omega),
    releaseAll_append]
  by_cases h138 : n ≤ 138
  · rw [if_pos (by omega), if_pos h138, releaseAll_singleton]
  · have hsize : n - 10 - min (n - 10) 128 = n - 138 := by omega
    rw [if_neg (by omega), if_neg h138, hsize, releaseAll_singleton]

lemma inodeDeallocate_second (hn : bytesToSectors (inodeLength inode) = n) (ok : FsOk fs)
    (hf : FileAt fs inode.data n) (h138 : 138 < n)
    (hrel : Releasable fs (deallocOrder fs inode.data n)) :
    inodeDeallocate fs inode = freeMapRelease (secondLevelDealloc
        (releaseAll fs (deallocHead fs inode.data n)) (n - 138) inode).2 (inode.data.ptr 11) 1 ∧
      secondLevelDealloc (releaseAll fs (deallocHead fs inode.data n)) (n - 138) inode =
        (0, releaseAll (releaseAll fs (deallocHead fs inode.data n))
          (slotRange (sectorOf fs inode.data) 138 (n - 138))) := by
  rw [deallocOrder_of_long _ _ (show 10 < n by omega), if_neg (by omega)] at hrel
  have h₁ := releaseAll_released ok hrel.left
  constructor
  · rw [inodeDeallocate_of_long hn ok hf (by omega) hrel.left, if_neg (by omega)]
  · exact secondLevelDealloc_released ok hf h138 h₁ (hrel.rest h₁).left

lemma inodeDeallocate_eq (ok : FsOk fs) (hl : LaidOut fs inode)
    (hopen : fs.freeMap.file.isSome = true) :
    inodeDeallocate fs inode = releaseAll fs
      (deallocOrder fs inode.data (bytesToSectors (inodeLength inode))) := by
  have hrel := (hl.releasable hopen).perm (deallocOrder_perm _ _ _).symm
  have hf := hl.file
  generalize hn : bytesToSectors (inodeLength inode) = n at hf hrel ⊢
  by_cases h10 : n ≤ 10
  · rw [inodeDeallocate_of_short (by omega), hn, deallocOrder, if_pos h10]
  by_cases h138 : n ≤ 138
  · rw [deallocOrder_of_long _ _ (show 10 < n by omega), if_pos h138, append_nil] at hrel ⊢
    rw [inodeDeallocate_of_long hn ok hf (by omega) hrel, if_pos h138]
  · obtain ⟨hcall, hsecond⟩ := inodeDeallocate_second hn ok hf (by omega) hrel
    rw [hcall, hsecond, deallocOrder_of_long _ _ (show 10 < n by omega), if_neg h138,
      releaseAll_append, releaseAll_append, releaseAll_singleton]

lemma inodeDeallocate_congr (fs : FileSys) (h : inode'.data = inode.data) :
    inodeDeallocate fs inode' = inodeDeallocate fs inode := by
  unfold inodeDeallocate firstLevelDealloc secondLevelDealloc inodeLength
  rw [h]

lemma inodeClose_of_last (hcnt : inode.openCnt = 1) :
    inodeClose fs (inodeRemove inode) =
      (none, inodeDeallocate (freeMapRelease fs inode.sector 1) inode) := by
  unfold inodeClose inodeRemove
  simp only [hcnt, Int.sub_self, if_true]
  exact congrArg (Prod.mk none) (inodeDeallocate_congr _ rfl)

lemma LiveInode.releasable (hl : LiveInode fs inode) (hopen : fs.freeMap.file.isSome = true) :
    Releasable fs ([inode.sector] ++
      deallocOrder fs inode.data (bytesToSectors (inodeLength inode))) := by
  have hrel := (hl.toLaidOut.releasable hopen).perm (deallocOrder_perm _ _ _).symm
  have hown : ∀ s ∈ deallocOrder fs inode.data (bytesToSectors (inodeLength inode)),
      s ∈ ownSectors fs inode := by
    intro s hs
    rw [ownSectors, own_eq_deallocated]
    exact mem_append_left _ ((deallocOrder_perm _ _ _).mem_iff.mp hs)
  constructor
  case opened => exact hopen
  case nodup => exact nodup_cons.mpr ⟨fun hs => hl.sector_notMem (hown _ hs), hrel.nodup⟩
  case used => exact forall_mem_cons.mpr ⟨hl.sector_used, hrel.used⟩
  case apart => exact forall_mem_cons.mpr ⟨hl.sector_apart, hrel.apart⟩

lemma LiveInode.remove (hl : LiveInode fs inode) : LiveInode fs (inodeRemove inode) :=
  ⟨⟨hl.nonneg, hl.le_max, hl.file⟩, hl.sector_used, hl.sector_apart, hl.sector_notMem⟩

section

variable (ok : FsOk fs) (hl : LiveInode fs inode) (hopen : fs.freeMap.file.isSome = true)
include ok hl hopen

lemma LiveInode.after_sector :
    Released fs (freeMapRelease fs inode.sector 1) [inode.sector] ∧
      LaidOut (freeMapRelease fs inode.sector 1) inode ∧
      deallocOrder (freeMapRelease fs inode.sector 1) inode.data
          (bytesToSectors (inodeLength inode)) =
        deallocOrder fs inode.data (bytesToSectors (inodeLength inode)) := by
  have h₁ := freeMapRelease_spec ok (hl.releasable hopen).left
  have hkeep : ∀ s ∈ ownSectors fs inode,
      (freeMapRelease fs inode.sector 1).disk s = fs.disk s := fun s hs =>
    h₁.kept s (hl.file.owns.apart s hs).1
  obtain ⟨hl₁, -, -⟩ := hl.toLaidOut.transport hkeep
    (fun s hs hu => (h₁.used s).mpr ⟨hu, fun he => hl.sector_notMem
      (mem_singleton.mp he ▸ hs)⟩) h₁.mapData_eq h₁.mapIndex_eq
  refine ⟨h₁, hl₁, deallocOrder_congr fun k hk => ?_⟩
  exact sectorOf_congr (fun s hs => hkeep s (mem_append_right _ hs)) hk

/-- The last close of a removed inode, as the calls of `free_map_release` it makes. -/
lemma inodeClose_eq_releaseAll (hcnt : inode.openCnt = 1) :
    (inodeClose fs (inodeRemove inode)).2 = releaseAll fs ([inode.sector] ++
      deallocOrder fs inode.data (bytesToSectors (inodeLength inode))) := by
  obtain ⟨h₁, hl₁, horder⟩ := hl.after_sector ok hopen
  rw [inodeClose_of_last hcnt, releaseAll_append, releaseAll_singleton, ← horder]
  exact inodeDeallocate_eq h₁.ok hl₁ (by rw [h₁.file_eq]; exact hopen)

lemma inodeClose_released (hcnt : inode.openCnt = 1) :
    Released fs (inodeClose fs (inodeRemove inode)).2 (inode.sector ::
        deallocated fs inode.data (bytesToSectors (inodeLength inode))) := by
  rw [inodeClose_eq_releaseAll ok hl hopen hcnt]
  exact (releaseAll_released ok (hl.releasable hopen)).perm ((deallocOrder_perm _ _ _).cons _)

end

lemma Releasable.assertion {done rest : List BlockSector} (ok : FsOk fs)
    (h : Releasable fs (done ++ s :: rest)) :
    s.toNat + 1 ≤ (releaseAll fs done).freeMap.map.bitCnt ∧
      bitmapAll (releaseAll fs done).freeMap.map s.toNat 1 = true := by
  have hu := (h.rest (releaseAll_released ok h.left)).used s mem_cons_self
  exact ⟨hu.1, by simp [bitmapAll, bitmapContains, hu.2]⟩

lemma inodeClose_second (ok : FsOk fs) (hl : LiveInode fs inode)
    (hopen : fs.freeMap.file.isSome = true) (hcnt : inode.openCnt = 1)
    (hn : bytesToSectors (inodeLength inode) = n) (h138 : 138 < n) :
    ∃ done, done <+: [inode.sector] ++ deallocOrder fs inode.data n ∧
      (inodeClose fs (inodeRemove inode)).2 = freeMapRelease
        (secondLevelDealloc (releaseAll fs done) (n - 138) inode).2 (inode.data.ptr 11) 1 ∧
      (secondLevelDealloc (releaseAll fs done) (n - 138) inode).1 = 0 := by
  obtain ⟨h₁, hl₁, horder⟩ := hl.after_sector ok hopen
  have hopen₁ : (freeMapRelease fs inode.sector 1).freeMap.file.isSome = true := by
    rwa [h₁.file_eq]
  have hrel₁ := (hl₁.releasable hopen₁).perm (deallocOrder_perm _ _ _).symm
  have hf := hl₁.file
  rw [hn] at hrel₁ hf horder
  obtain ⟨hcall, hsecond⟩ := inodeDeallocate_second hn h₁.ok hf h138 hrel₁
  refine ⟨[inode.sector] ++ deallocHead (freeMapRelease fs inode.sector 1) inode.data n, ?_, ?_⟩
  · rw [← horder, deallocOrder_of_long _ _ (show 10 < n by omega), ← append_assoc]
    exact prefix_append _ _
  · rw [inodeClose_of_last hcnt, releaseAll_append, releaseAll_singleton]
    exact ⟨hcall, by rw [hsecond]⟩

/-- Closing a removed inode releases only its sectors, each once, with the assertions true, and
`second_level_dealloc` reaches its return statement. -/
theorem inodeClose_releases_own {fs : FileSys} {inode : Inode} (ok : FsOk fs)
    (hl : LiveInode fs inode) (hopen : fs.freeMap.file.isSome = true)
    (hremoved : inode.removed = true) :
    ∃ gone, (inodeClose fs inode).2 = releaseAll fs gone ∧
      (inodeClose fs inode).2.panicked = fs.panicked ∧ gone.Nodup ∧
      (∀ s ∈ gone, s = inode.sector ∨ s ∈ ownSectors fs inode) ∧
      (∀ done s rest, gone = done ++ s :: rest →
        s.toNat + 1 ≤ (releaseAll fs done).freeMap.map.bitCnt ∧
          bitmapAll (releaseAll fs done).freeMap.map s.toNat 1 = true) ∧
      (inode.openCnt = 1 → 138 < bytesToSectors (inodeLength inode) → ∃ done, done <+: gone ∧
        (inodeClose fs inode).2 = freeMapRelease (secondLevelDealloc (releaseAll fs done)
          (bytesToSectors (inodeLength inode) - 138) inode).2 (inode.data.ptr 11) 1 ∧
        (secondLevelDealloc (releaseAll fs done)
          (bytesToSectors (inodeLength inode) - 138) inode).1 = 0) := by
  by_cases hcnt : inode.openCnt = 1
  · have hsame : inodeRemove inode = inode := by rw [inodeRemove, ← hremoved]
    have hrel := hl.releasable hopen
    have hclose := inodeClose_eq_releaseAll ok hl hopen hcnt
    rw [hsame] at hclose
    refine ⟨_, hclose, ?_, hrel.nodup, ?_, ?_, ?_⟩
    · rw [hclose]
      exact (releaseAll_released ok hrel).panicked_eq
    · intro s hs
      refine (mem_cons.mp hs).imp_right fun hmem => ?_
      rw [ownSectors, own_eq_deallocated]
      exact mem_append_left _ ((deallocOrder_perm _ _ _).mem_iff.mp hmem)
    · intro done s rest hsplit
      exact (hsplit ▸ hrel).assertion ok
    · intro _ h138
      have hsecond := inodeClose_second ok hl hopen hcnt rfl h138
      rwa [hsame] at hsecond
  · have hclose : (inodeClose fs inode).2 = fs := by
      unfold inodeClose
      dsimp only
      rw [if_neg (by omega)]
    refine ⟨[], hclose, by rw [hclose], nodup_nil, by simp, ?_, fun h => absurd h hcnt⟩
    intro done s rest hsplit
    simp at hsplit

/-- What is left in use after the last close: the inner index blocks. -/
lemma inodeClose_leak (ok : FsOk fs) (hl : LiveInode fs inode)
    (hopen : fs.freeMap.file.isSome = true) (hcnt : inode.openCnt = 1) (s : BlockSector) :
    Used (inodeClose fs (inodeRemove inode)).2 s ↔
      (Used fs s ∧ s ≠ inode.sector ∧ s ∉ ownSectors fs inode) ∨
        s ∈ (range (innerCount (bytesToSectors (inodeLength inode)))).map
          (secondBlockOf fs inode.data) := by
  have hown : ownSectors fs inode = _ := own_eq_deallocated fs inode.data _
  have hnd := hl.file.owns.nodup
  have hused := hl.file.owns.used s
  have hsec := hl.sector_notMem
  rw [own_eq_deallocated] at hnd hused
  obtain ⟨-, -, hsep⟩ := nodup_append.mp hnd
  rw [hown] at hsec ⊢
  rw [(inodeClose_released ok hl hopen hcnt).used]
  generalize deallocated fs inode.data (bytesToSectors (inodeLength inode)) = gone at *
  generalize (range (innerCount (bytesToSectors (inodeLength inode)))).map
    (secondBlockOf fs inode.data) = inner at *
  simp only [mem_cons, mem_append, not_or] at hused hsec ⊢
  constructor
  · rintro ⟨hu, hne, hg⟩
    by_cases hin : s ∈ inner
    · exact Or.inr hin
    · exact Or.inl ⟨hu, hne, hg, hin⟩
  · rintro (⟨hu, hne, hg, -⟩ | hin)
    · exact ⟨hu, hne, hg⟩
    · exact ⟨hused (Or.inr hin), fun he => hsec.2 (he ▸ hin), fun hg => hsep s hg s hin rfl⟩

/-- Every sector is given back exactly when there is no inner index block. -/
lemma LiveInode.frees_iff (ok : FsOk fs) (hl : LiveInode fs inode)
    (hopen : fs.freeMap.file.isSome = true) (hcnt : inode.openCnt = 1) :
    (∀ s, Used (inodeClose fs (inodeRemove inode)).2 s ↔
        Used fs s ∧ s ≠ inode.sector ∧ s ∉ ownSectors fs inode) ↔
      inodeLength inode ≤ 70656 := by
  have hleak := inodeClose_leak ok hl hopen hcnt
  have hmax := hl.le_max
  unfold maxFileLength at hmax
  have hn := bytesToSectors_eq hl.nonneg (by omega)
  constructor
  · -- a leaked inner block is one of the inode's own sectors
    intro hall
    by_contra hlong
    have hinner : 0 < innerCount (bytesToSectors (inodeLength inode)) := by
      rw [hn]
      unfold innerCount
      omega
    have hmem : secondBlockOf fs inode.data 0 ∈
        (range (innerCount (bytesToSectors (inodeLength inode)))).map
          (secondBlockOf fs inode.data) := mem_map_of_mem (mem_range.mpr hinner)
    have hown : secondBlockOf fs inode.data 0 ∈ ownSectors fs inode :=
      mem_append_right _ (inner_mem_indexSectors hinner)
    exact ((hall _).mp ((hleak _).mpr (Or.inr hmem))).2.2 hown
  · intro hshort s
    have hnone : innerCount (bytesToSectors (inodeLength inode)) = 0 := by
      rw [hn]
      unfold innerCount
      omega
    rw [hleak s, hnone]
    simp

/-! ## Files built by writes -/

structure WriteOp where
  buffer : Nat → UInt8
  size : Int
  offset : Nat

def writeRun (start : Inode × FileSys) (ops : List WriteOp) : Inode × FileSys :=
  ops.foldl (fun state op => (inodeWriteAt state.2 state.1 op.buffer op.size op.offset).2) start

lemma inodeWriteAt_mono {op : WriteOp}
    (h : (inodeWriteAt fs inode op.buffer op.size op.offset).2.2.allocFailed = false) :
    fs.allocFailed = false := by
  unfold inodeWriteAt at h
  split at h
  · exact h
  · exact extendTo_mono (by simpa using h)

lemma writeRun_mono {start : Inode × FileSys} (h : (writeRun start ops).2.allocFailed = false) :
    start.2.allocFailed = false := by
  induction ops generalizing start with
  | nil => exact h
  | cons op ops ih => exact inodeWriteAt_mono (ih h)

lemma Written.live {buffer : Nat → UInt8} {offset written : Nat}
    (hw : Written fs fs' inode inode' buffer offset written) (hl : LiveInode fs inode) :
    LiveInode fs' inode' := by
  have hsector : inode'.sector = inode.sector := by rw [hw.header]
  refine ⟨hw.laid, ?_, ?_, ?_⟩
  · rw [hsector]
    exact hw.used _ hl.sector_used
  · rw [hsector, hw.mapData_eq, hw.mapIndex_eq]
    exact hl.sector_apart
  · rw [hsector]
    exact fun hs => (hw.own _ hs).elim hl.sector_notMem fun h => h hl.sector_used

lemma writeRun_live (ok : FsOk fs) (hl : LiveInode fs inode)
    (hops : ∀ op ∈ ops, 0 ≤ op.size ∧ op.offset + op.size ≤ maxFileLength)
    (h : (writeRun (inode, fs) ops).2.allocFailed = false) :
    FsOk (writeRun (inode, fs) ops).2 ∧
      LiveInode (writeRun (inode, fs) ops).2 (writeRun (inode, fs) ops).1 ∧
      (writeRun (inode, fs) ops).1.openCnt = inode.openCnt ∧
      (writeRun (inode, fs) ops).2.freeMap.file = fs.freeMap.file := by
  induction ops generalizing inode fs with
  | nil => exact ⟨ok, hl, rfl, rfl⟩
  | cons op ops ih =>
    obtain ⟨hsize, hmax⟩ := hops op mem_cons_self
    obtain ⟨written, inode₁, fs₁, hrun, hw, -, -⟩ := inodeWriteAt_written op.buffer ok
      hl.toLaidOut (by omega) (le_of_le_maxFileLength hmax) (writeRun_mono h)
    have hcnt : inode₁.openCnt = inode.openCnt := by rw [hw.header]
    have hstep : writeRun (inode, fs) (op :: ops) = writeRun (inode₁, fs₁) ops := by
      simp [writeRun, hrun]
    rw [hstep] at h ⊢
    obtain ⟨ok₂, hl₂, hcnt₂, hfile₂⟩ := ih hw.ok (hw.live hl)
      (fun op' hm => hops op' (mem_cons_of_mem _ hm)) h
    exact ⟨ok₂, hl₂, hcnt₂.trans hcnt, hfile₂.trans hw.file_eq⟩

/-- Removing a file gives all its sectors back exactly when it has at most 138. -/
theorem inodeClose_frees_iff {fs fs' : FileSys} {sector : BlockSector} {length : Int}
    {subDir : Bool} {ops : List WriteOp} {inode : Inode} (ok : FsOk fs) (hu : Used fs sector)
    (hmap : sector ∉ mapData fs ∧ sector ∉ mapIndex fs)
    (hopen : fs.freeMap.file.isSome = true) (h0 : 0 ≤ length) (hmax : length ≤ maxFileLength)
    (hops : ∀ op ∈ ops, 0 ≤ op.size ∧ op.offset + op.size ≤ maxFileLength)
    (hbuilt : (inodeCreate fs sector length subDir).1 = true)
    (hrun : writeRun (createInode fs sector length subDir) ops = (inode, fs'))
    (hsucc : fs'.allocFailed = false) :
    (∀ s, Used (inodeClose fs' (inodeRemove inode)).2 s ↔
        Used fs' s ∧ s ≠ inode.sector ∧ s ∉ ownSectors fs' inode) ↔
      inodeLength inode ≤ 70656 := by
  have hfail : (writeRun (createInode fs sector length subDir) ops).2.allocFailed = false := by
    rw [hrun]
    exact hsucc
  obtain ⟨inode₀, fs₀, hcreate, hc⟩ :=
    createInode_spec ok hu hmap h0 hmax hbuilt (writeRun_mono hfail)
  rw [hcreate] at hrun hfail
  obtain ⟨ok', hl, hcnt, hfile⟩ := writeRun_live hc.alloc.ok hc.live hops hfail
  rw [hrun] at ok' hl hcnt hfile
  rw [hc.inode_eq] at hcnt
  refine hl.frees_iff ok' ?_ hcnt
  rw [hfile, hc.alloc.file_eq]
  exact hopen

/-- The free-map file of the volume below: one data sector, number 2. -/
def mapInode : Inode where
  openCnt := 1
  denyWriteCnt := 0
  removed := false
  sector := 0
  data :=
    { length := 64
      magic := inodeMagic
      ptr := fun _ => 2
      parent := 1
      directLevelIndex := 1
      firstLevelIndex := 0
      secondLevelIndex := 0
      subDir := false }

/-- A device of 512 sectors with an open free-map file and one sector, number 1, for
a new inode. -/
def mappedVolume : FileSys where
  size := 512
  disk := fun _ => zeros
  freeMap :=
    { map := ⟨512, fun k => if k = 0 then 7 else 0⟩
      file := some mapInode
      fits := by simp [mapInode, inodeLength, byteCnt, elemCnt] }
  rootDirSector := 1
  mallocOk := true
  uninit := fun _ _ => 0
  panicked := false
  allocFailed := false
  dataLog := []

lemma mappedVolume_room : Room mappedVolume 280 := by
  have hlayout : Layout mappedVolume mapInode.data 1 := by
    refine ⟨by decide, rfl, ?_, ?_⟩
    · rw [inodeIndex, indexSectors_direct (by decide), append_nil]
      exact nodup_singleton _
    · rw [inodeIndex, indexSectors_direct (by decide), append_nil]
      intro s hs
      obtain rfl : s = 2 := by simpa [inodeData, dataSectors, resolve, mapInode] using hs
      decide
  refine ⟨⟨rfl, by decide, ?_⟩, ⟨rfl, ?_⟩, rfl, by decide +kernel⟩
  · intro inode hi
    obtain rfl := Option.some.inj hi
    exact ⟨by decide, by decide, hlayout⟩
  · intro inode hi
    obtain rfl := Option.some.inj hi
    rfl

theorem inodeClose_frees_mappedVolume :
    ∃ inode fs', writeRun (createInode mappedVolume 1 600 false) [⟨fun _ => 7, 300, 500⟩] =
        (inode, fs') ∧
      ∀ s, Used (inodeClose fs' (inodeRemove inode)).2 s ↔
        Used fs' s ∧ s ≠ inode.sector ∧ s ∉ ownSectors fs' inode := by
  have hops : ∀ op ∈ ([⟨fun _ => 7, 300, 500⟩] : List WriteOp),
      0 ≤ op.size ∧ op.offset + op.size ≤ maxFileLength := by decide
  have hbuilt : (inodeCreate mappedVolume 1 600 false).1 = true := by decide +kernel
  refine ⟨_, _, rfl, (inodeClose_frees_iff mappedVolume_room.ok (by decide) (by decide)
    (by decide) (by decide) (by decide) hops hbuilt rfl (by decide +kernel)).mpr
    (by decide +kernel)⟩

lemma mappedVolume_long :
    ∃ inode fs', createInode mappedVolume 1 71168 false = (inode, fs') ∧
      (inodeCreate mappedVolume 1 71168 false).1 = true ∧ fs'.allocFailed = false ∧
      fs'.freeMap.file.isSome = true ∧ Created mappedVolume fs' 1 71168 inode := by
  have hroom : Room mappedVolume (2 + 2 * bytesToSectors 71168) := by
    rw [show bytesToSectors 71168 = 139 from rfl]
    exact mappedVolume_room
  obtain ⟨hbuilt, hsucc⟩ := createInode_succeeds 1 false (by decide) (by decide) hroom
  obtain ⟨inode, fs', hcreate, hc⟩ := createInode_spec mappedVolume_room.ok (by decide) (by decide)
    (by decide) (by decide) hbuilt hsucc
  have hopen : fs'.freeMap.file.isSome = true := by
    rw [hc.alloc.file_eq]
    rfl
  rw [hcreate] at hsucc
  exact ⟨inode, fs', hcreate, hbuilt, hsucc, hopen, hc⟩

/-- A file of 139 sectors is not wholly given back. -/
theorem inodeClose_leaks_139 :
    ∃ inode fs', createInode mappedVolume 1 71168 false = (inode, fs') ∧
      (inodeCreate mappedVolume 1 71168 false).1 = true ∧ fs'.allocFailed = false ∧
      inode.openCnt = 1 ∧
      ¬ ∀ s, Used (inodeClose fs' (inodeRemove inode)).2 s ↔
        Used fs' s ∧ s ≠ inode.sector ∧ s ∉ ownSectors fs' inode := by
  obtain ⟨inode, fs', hcreate, hbuilt, hsucc, hopen, hc⟩ := mappedVolume_long
  have hcnt : inode.openCnt = 1 := by rw [hc.inode_eq]
  refine ⟨inode, fs', hcreate, hbuilt, hsucc, hcnt, ?_⟩
  rw [hc.live.frees_iff hc.alloc.ok hopen hcnt, hc.length_eq]
  decide

/-- What the file of 139 sectors does give back is its own. -/
theorem inodeClose_releases_own_139 :
    ∃ inode fs', createInode mappedVolume 1 71168 false = (inode, fs') ∧
      ∃ gone, (inodeClose fs' (inodeRemove inode)).2 = releaseAll fs' gone ∧ gone.Nodup ∧
        ∀ s ∈ gone, s = inode.sector ∨ s ∈ ownSectors fs' inode := by
  obtain ⟨inode, fs', hcreate, -, -, hopen, hc⟩ := mappedVolume_long
  obtain ⟨gone, hclose, -, hnodup, hown, -⟩ :=
    inodeClose_releases_own hc.alloc.ok hc.live.remove hopen rfl
  exact ⟨inode, fs', hcreate, gone, hclose, hnodup, hown⟩

end Pintos.Filesys
