import Pintos.Filesys.Layout

/-!
# The read and write loops on a laid out inode

`fileByte` is the byte stored at a position of the file, whether or not the
position lies below the length. The write loop replaces a range of these bytes,
touches no sector but the data sectors of its inode, and changes nothing else in
the state; the read loop copies a range of them out and changes nothing.
-/

namespace Pintos.Filesys

open Foundation Lib Function

def sectorOf (fs : FileSys) (d : InodeDisk) (k : Nat) : BlockSector :=
  resolve fs.disk d.ptr (secondBlockOf fs d) k

def fileByte (fs : FileSys) (d : InodeDisk) (i : Nat) : UInt8 :=
  (fs.disk (sectorOf fs d (i / 512))).byte (i % 512)

variable {fs fs' : FileSys} {d : InodeDisk} {n k offset fuel start w : Nat} {inode : Inode}
  {buffer : Nat → UInt8} {size : Int}

lemma sectorOf_mem (h : k < n) :
    sectorOf fs d k ∈ inodeData fs d n := mem_dataSectors h

lemma sectorOf_congr (h : ∀ s ∈ inodeIndex fs d n, fs'.disk s = fs.disk s) (hk : k < n) :
    sectorOf fs' d k = sectorOf fs d k := by
  have hd := inodeData_congr h
  have h1 : (inodeData fs' d n)[k]? = some (sectorOf fs' d k) := by
    simp [inodeData, dataSectors, sectorOf, hk]
  have h2 : (inodeData fs d n)[k]? = some (sectorOf fs d k) := by
    simp [inodeData, dataSectors, sectorOf, hk]
  rw [hd, h2] at h1
  exact (Option.some.inj h1).symm

lemma Placed.sectorOf_inj {j : Nat} (hp : Placed fs d n) (hj : j < n) (hk : k < n)
    (h : sectorOf fs d j = sectorOf fs d k) : j = k := by
  have hnd : (inodeData fs d n).Nodup := (List.nodup_append.mp hp.nodup).1
  exact List.inj_on_of_nodup_map hnd (List.mem_range.mpr hj) (List.mem_range.mpr hk) h

lemma chunkSize_spec (inode : Inode) (size : Int) (offset : Nat) :
    chunkSize inode size offset ≤ size ∧
      chunkSize inode size offset ≤ 512 - (offset % 512 : Nat) ∧
      chunkSize inode size offset ≤ inodeLength inode - offset ∧
      (chunkSize inode size offset = size ∨
        chunkSize inode size offset = 512 - (offset % 512 : Nat) ∨
        chunkSize inode size offset = inodeLength inode - offset) := by
  simp only [chunkSize, blockSectorSize]
  split_ifs <;> omega

lemma chunkSize_past_end (size : Int) (hend : inodeLength inode ≤ offset) :
    chunkSize inode size offset ≤ 0 := by
  have hchunk := (chunkSize_spec inode size offset).2.2.1
  omega

lemma byteToSector_past_end (fs : FileSys) (hend : inodeLength inode ≤ offset) :
    byteToSector fs inode offset = (errorSector, fs) := by
  rw [byteToSector, if_neg (by omega)]

lemma sector_inside (hp : Placed fs inode.data n) (hlen : inodeLength inode ≤ 512 * n)
    (hpos : (offset : Int) < inodeLength inode) :
    byteToSector fs inode offset = (sectorOf fs inode.data (offset / 512), fs) ∧
      blockRead fs (sectorOf fs inode.data (offset / 512)) =
        (fs.disk (sectorOf fs inode.data (offset / 512)), fs) := by
  have hk : offset / 512 < n := by omega
  have hmem : sectorOf fs inode.data (offset / 512) ∈ inodeData fs inode.data n := sectorOf_mem hk
  exact ⟨byteToSector_eq hp hpos hk, blockRead_of_lt (hp.lt _ (List.mem_append_left _ hmem))⟩

lemma byte_copyIn (block : Block) (buffer : Nat → UInt8) (ofs start n j : Nat) (hj : j < 512) :
    (copyIn block ofs buffer start n).byte j =
      if ofs ≤ j ∧ j < ofs + n then buffer (start + (j - ofs)) else block.byte j := by
  simp [Block.byte, copyIn, hj]

/-! ## What the loops leave alone

Whatever the inode and the disk look like, translating a position and writing change
nothing but the disk and the record of a panic. -/

lemma checkSector_rest (fs : FileSys) (s : BlockSector) :
    checkSector fs s = { fs with panicked := (checkSector fs s).panicked } := by
  unfold checkSector
  split <;> rfl

lemma blockWrite_rest (fs : FileSys) (s : BlockSector) (block : Block) :
    blockWrite fs s block = { fs with
      disk := (blockWrite fs s block).disk
      panicked := (blockWrite fs s block).panicked } := by
  unfold blockWrite
  split <;> rfl

lemma byteToSector_rest (fs : FileSys) (inode : Inode) (pos : Nat) :
    (byteToSector fs inode pos).2 =
      { fs with panicked := (byteToSector fs inode pos).2.panicked } := by
  unfold byteToSector
  simp only [blockRead]
  split_ifs
  · rfl
  · exact checkSector_rest _ _
  · rw [checkSector_rest (checkSector _ _), checkSector_rest]
  · rfl
  · rfl

lemma inodeWriteLoop_rest (inode : Inode) (buffer : Nat → UInt8) (fuel : Nat) (fs : FileSys)
    (size : Int) (offset start : Nat) :
    (inodeWriteLoop inode buffer fuel fs size offset start).2 = { fs with
      disk := (inodeWriteLoop inode buffer fuel fs size offset start).2.disk
      panicked := (inodeWriteLoop inode buffer fuel fs size offset start).2.panicked } := by
  induction fuel generalizing fs size offset start with
  | zero => rfl
  | succ fuel ih =>
    unfold inodeWriteLoop
    simp only [blockRead]
    split_ifs
    · rw [byteToSector_rest]
    · rw [ih, blockWrite_rest, byteToSector_rest]
    · rw [ih, blockWrite_rest, checkSector_rest, byteToSector_rest]
    · rw [ih, blockWrite_rest, byteToSector_rest]
    · rw [byteToSector_rest]
    · rfl

lemma inodeWriteLoop_le (inode : Inode) (buffer : Nat → UInt8) (fuel : Nat) (fs : FileSys)
    (size : Int) (offset start : Nat) :
    start ≤ (inodeWriteLoop inode buffer fuel fs size offset start).1 := by
  induction fuel generalizing fs size offset start with
  | zero => exact Nat.le_refl _
  | succ fuel ih =>
    unfold inodeWriteLoop
    dsimp only
    split_ifs
    · exact Nat.le_refl _
    · exact Nat.le_trans (Nat.le_add_right _ _) (ih _ _ _ _)
    · exact Nat.le_trans (Nat.le_add_right _ _) (ih _ _ _ _)
    · exact Nat.le_trans (Nat.le_add_right _ _) (ih _ _ _ _)
    · exact Nat.le_refl _
    · exact Nat.le_refl _

lemma inodeWriteLoop_disk_of_eq
    (h : (inodeWriteLoop inode buffer fuel fs size offset start).1 = start) :
    (inodeWriteLoop inode buffer fuel fs size offset start).2.disk = fs.disk := by
  have hsame : (byteToSector fs inode offset).2.disk = fs.disk := by rw [byteToSector_rest]
  cases fuel with
  | zero => rfl
  | succ fuel =>
    unfold inodeWriteLoop at h ⊢
    dsimp only at h ⊢
    -- a chunk that was written is in the count
    have hmore : ∀ fs, 0 < chunkSize inode size offset →
        (inodeWriteLoop inode buffer fuel fs (size - chunkSize inode size offset)
          (offset + (chunkSize inode size offset).toNat)
          (start + (chunkSize inode size offset).toNat)).1 ≠ start := by
      intro fs hpos
      have hle := inodeWriteLoop_le inode buffer fuel fs (size - chunkSize inode size offset)
        (offset + (chunkSize inode size offset).toNat) (start + (chunkSize inode size offset).toNat)
      omega
    split_ifs at h ⊢
    · exact hsame
    · exact (hmore _ (by omega) h).elim
    · exact (hmore _ (by omega) h).elim
    · exact (hmore _ (by omega) h).elim
    · exact hsame
    · rfl

/-- `fs'` is `fs` with the `w` bytes of the buffer from `start` on stored at
`offset`, in a file of `n` sectors. -/
structure Wrote (fs fs' : FileSys) (d : InodeDisk) (n offset w start : Nat)
    (buffer : Nat → UInt8) : Prop where
  rest : fs' = { fs with disk := fs'.disk }
  frame : ∀ s, s ∉ inodeData fs d n → fs'.disk s = fs.disk s
  bytes : ∀ i, i < 512 * n → fileByte fs' d i =
    if offset ≤ i ∧ i < offset + w then buffer (start + (i - offset)) else fileByte fs d i

lemma Wrote.refl (fs : FileSys) (d : InodeDisk) (n offset start : Nat) (buffer : Nat → UInt8) :
    Wrote fs fs d n offset 0 start buffer := by
  refine ⟨rfl, fun _ _ => rfl, fun i _ => ?_⟩
  rw [if_neg (by omega)]

section

variable (hw : Wrote fs fs' d n offset w start buffer)
include hw

lemma Wrote.index_eq (hp : Placed fs d n) : ∀ s ∈ inodeIndex fs d n, fs'.disk s = fs.disk s :=
  fun s hs => hw.frame s (hp.index_not_mem_data hs)

lemma Wrote.freeMap_eq : fs'.freeMap = fs.freeMap := by
  rw [hw.rest]

lemma Wrote.used (s : BlockSector) : Used fs' s ↔ Used fs s := by
  unfold Used
  rw [hw.freeMap_eq]

lemma Wrote.placed (hp : Placed fs d n) : Placed fs' d n :=
  hp.transport (by rw [hw.rest]) (hw.index_eq hp)

end

lemma Wrote.trans {fs₁ fs₂ : FileSys} {w₁ w₂ : Nat} (hp : Placed fs d n)
    (h₁ : Wrote fs fs₁ d n offset w₁ start buffer)
    (h₂ : Wrote fs₁ fs₂ d n (offset + w₁) w₂ (start + w₁) buffer) :
    Wrote fs fs₂ d n offset (w₁ + w₂) start buffer := by
  have hd : inodeData fs₁ d n = inodeData fs d n := inodeData_congr (h₁.index_eq hp)
  refine ⟨?_, ?_, ?_⟩
  · rw [h₂.rest, h₁.rest]
  · intro s hs
    rw [h₂.frame s (by rwa [hd]), h₁.frame s hs]
  · intro i hi
    rw [h₂.bytes i hi, h₁.bytes i hi]
    by_cases hc : offset + w₁ ≤ i ∧ i < offset + w₁ + w₂
    · rw [if_pos hc, if_pos (by omega)]
      congr 1
      omega
    · rw [if_neg hc]
      by_cases hc' : offset ≤ i ∧ i < offset + w₁
      · rw [if_pos hc', if_pos (by omega)]
      · rw [if_neg hc', if_neg (by omega)]

lemma copyIn_full (block block' : Block) (buffer : Nat → UInt8) (start : Nat) :
    copyIn block 0 buffer start 512 = copyIn block' 0 buffer start 512 := by
  funext i
  have hi := i.isLt
  simp [copyIn, hi]

lemma Wrote.chunk {ofs c : Nat} (start : Nat) (buffer : Nat → UInt8) (hp : Placed fs d n)
    (hk : k < n) (hc : ofs + c ≤ 512) :
    Wrote fs (blockWrite fs (sectorOf fs d k)
      (copyIn (fs.disk (sectorOf fs d k)) ofs buffer start c)) d n
      (512 * k + ofs) c start buffer := by
  have hmem : sectorOf fs d k ∈ inodeData fs d n := sectorOf_mem hk
  have hlt : (sectorOf fs d k).toNat < fs.size := hp.lt _ (List.mem_append_left _ hmem)
  rw [blockWrite, if_pos hlt]
  generalize hblk : copyIn (fs.disk (sectorOf fs d k)) ofs buffer start c = block
  have hframe : ∀ s, s ∉ inodeData fs d n → update fs.disk (sectorOf fs d k) block s = fs.disk s :=
    fun s hs => update_of_ne (fun h : s = sectorOf fs d k => hs (h ▸ hmem)) _ _
  refine ⟨rfl, hframe, ?_⟩
  intro i hi
  have hi' : i / 512 < n := by omega
  have hsec : sectorOf { fs with disk := update fs.disk (sectorOf fs d k) block } d
      (i / 512) = sectorOf fs d (i / 512) :=
    sectorOf_congr (fun s hs => hframe s (hp.index_not_mem_data hs)) hi'
  unfold fileByte
  rw [hsec]
  dsimp only
  by_cases hik : i / 512 = k
  · subst hik
    rw [update_self, ← hblk, byte_copyIn _ _ _ _ _ _ (by omega)]
    by_cases hin : ofs ≤ i % 512 ∧ i % 512 < ofs + c
    · rw [if_pos hin, if_pos (by omega)]
      congr 1
      omega
    · rw [if_neg hin, if_neg (by omega)]
  · have hne : sectorOf fs d (i / 512) ≠ sectorOf fs d k :=
      fun h => hik (hp.sectorOf_inj hi' hk h)
    rw [update_of_ne hne, if_neg (by omega)]

/-- The loop stops when nothing is left to write, at the end of the file, or without memory. -/
lemma inodeWriteLoop_stop (h : size ≤ 0 ∨ inodeLength inode ≤ offset) :
    inodeWriteLoop inode buffer fuel fs size offset start = (start, fs) := by
  cases fuel with
  | zero => rfl
  | succ fuel =>
    unfold inodeWriteLoop
    by_cases hsize : 0 < size
    · have hend : inodeLength inode ≤ offset := by omega
      have hb := byteToSector_past_end fs hend
      have hle := chunkSize_past_end size hend
      simp only [if_pos hsize, hb, if_pos hle]
    · rw [if_neg hsize]

/-- Every other iteration replaces the chunk in its sector. -/
lemma inodeWriteLoop_succ (buffer : Nat → UInt8) (fuel : Nat) (start : Nat)
    (hp : Placed fs inode.data n) (hlen : inodeLength inode ≤ 512 * n) (hsize : 0 < size)
    (hpos : (offset : Int) < inodeLength inode) :
    inodeWriteLoop inode buffer (fuel + 1) fs size offset start = (start, fs) ∧
        fs.mallocOk = false ∨
      inodeWriteLoop inode buffer (fuel + 1) fs size offset start = inodeWriteLoop inode buffer fuel
          (blockWrite fs (sectorOf fs inode.data (offset / 512))
            (copyIn (fs.disk (sectorOf fs inode.data (offset / 512))) (offset % 512) buffer start
              (chunkSize inode size offset).toNat))
          (size - chunkSize inode size offset) (offset + (chunkSize inode size offset).toNat)
          (start + (chunkSize inode size offset).toNat) := by
  obtain ⟨hb, hr⟩ := sector_inside hp hlen hpos
  have hspec := chunkSize_spec inode size offset
  conv => enter [1, 1]; unfold inodeWriteLoop
  conv => enter [2]; lhs; unfold inodeWriteLoop
  generalize chunkSize inode size offset = chunk at hspec ⊢
  have hchunk : ¬ chunk ≤ 0 := by omega
  simp only [if_pos hsize, hb, if_neg hchunk, blockSectorSize]
  by_cases hfull : offset % 512 = 0 ∧ chunk = ((512 : Nat) : Int)
  · obtain ⟨hofs, hc⟩ := hfull
    right
    have h512 : chunk.toNat = 512 := by omega
    rw [if_pos ⟨hofs, hc⟩, hofs, h512, copyIn_full]
  · simp only [if_neg hfull]
    by_cases hm : fs.mallocOk = true
    · right
      have hpart : 0 < offset % 512 ∨ chunk < ((512 : Nat) : Int) - (offset % 512 : Nat) := by
        omega
      simp only [if_pos hm, if_pos hpart, hr]
    · left
      exact ⟨if_neg hm, by simpa using hm⟩

/-- The loop stores a prefix of its bytes, below the length, and all if memory suffices. -/
lemma inodeWriteLoop_spec (buffer : Nat → UInt8) (fuel : Nat) (size : Int) (offset start : Nat)
    (hp : Placed fs inode.data n) (hlen : inodeLength inode ≤ 512 * n) :
    ∃ w, (inodeWriteLoop inode buffer fuel fs size offset start).1 = start + w ∧
      Wrote fs (inodeWriteLoop inode buffer fuel fs size offset start).2 inode.data n
        offset w start buffer ∧
      (w = 0 ∨ (offset + w : Nat) ≤ inodeLength inode) ∧
      (fs.mallocOk = true → size.toNat ≤ fuel → offset + size ≤ inodeLength inode →
        w = size.toNat) := by
  induction fuel generalizing fs size offset start with
  | zero => exact ⟨0, rfl, Wrote.refl _ _ _ _ _ _, Or.inl rfl, fun _ h _ => by omega⟩
  | succ fuel ih =>
    by_cases hgo : 0 < size ∧ (offset : Int) < inodeLength inode
    · have hk : offset / 512 < n := by omega
      rcases inodeWriteLoop_succ buffer fuel start hp hlen hgo.1 hgo.2 with ⟨heq, hm⟩ | heq
      · rw [heq]
        exact ⟨0, rfl, Wrote.refl _ _ _ _ _ _, Or.inl rfl, fun h => by simp [hm] at h⟩
      · obtain ⟨hc1, hc2, hc3, hc4⟩ := chunkSize_spec inode size offset
        rw [heq]
        generalize chunkSize inode size offset = chunk at hc1 hc2 hc3 hc4 ⊢
        have hfit : offset % 512 + chunk.toNat ≤ 512 := by omega
        have h₁ := Wrote.chunk start buffer hp hk hfit
        rw [show 512 * (offset / 512) + offset % 512 = offset by omega] at h₁
        have hrest := h₁.rest
        obtain ⟨w, hw1, hw2, hin, hw3⟩ := ih (size - chunk) (offset + chunk.toNat)
          (start + chunk.toNat) (h₁.placed hp)
        refine ⟨chunk.toNat + w, by omega, h₁.trans hp hw2, by omega, ?_⟩
        intro hm hf hle
        have := hw3 (by rw [hrest]; exact hm) (by omega) (by omega)
        omega
    · rw [inodeWriteLoop_stop (by omega)]
      exact ⟨0, rfl, Wrote.refl _ _ _ _ _ _, Or.inl rfl, fun _ _ hle => by omega⟩

/-! ## The read loop -/

/-- `buffer` with `src 0`, `src 1`, .. stored in the `n` places from `start` on. -/
def copyRange (buffer : Nat → UInt8) (start : Nat) (src : Nat → UInt8) (n : Nat) : Nat → UInt8 :=
  fun i => if start ≤ i ∧ i < start + n then src (i - start) else buffer i

lemma copyRange_zero (buffer : Nat → UInt8) (start : Nat) (src : Nat → UInt8) :
    copyRange buffer start src 0 = buffer := by
  funext i
  rw [copyRange, if_neg (by omega)]

lemma copyRange_append (buffer : Nat → UInt8) (start : Nat) (src : Nat → UInt8) (m n : Nat) :
    copyRange (copyRange buffer start src m) (start + m) (fun j => src (m + j)) n =
      copyRange buffer start src (m + n) := by
  funext i
  unfold copyRange
  by_cases hr : start + m ≤ i ∧ i < start + m + n
  · rw [if_pos hr, if_pos (by omega)]
    dsimp only
    rw [show m + (i - (start + m)) = i - start by omega]
  · rw [if_neg hr]
    by_cases hl : start ≤ i ∧ i < start + m
    · rw [if_pos hl, if_pos (by omega)]
    · rw [if_neg hl, if_neg (by omega)]

lemma copyRange_congr {src src' : Nat → UInt8} (h : ∀ j, j < n → src j = src' j) :
    copyRange buffer start src n = copyRange buffer start src' n := by
  funext i
  unfold copyRange
  split
  · exact h _ (by omega)
  · rfl

/-- A chunk lies in one sector, so copying it from the sector copies file bytes. -/
lemma copyOut_eq {c : Nat} (buffer : Nat → UInt8) (start : Nat) (hc : offset % 512 + c ≤ 512) :
    copyOut buffer start (fs.disk (sectorOf fs d (offset / 512))) (offset % 512) c =
      copyRange buffer start (fun j => fileByte fs d (offset + j)) c := by
  change copyRange buffer start (fun j => Block.byte _ (offset % 512 + j)) c = _
  apply copyRange_congr
  intro j hj
  have hdiv : (offset + j) / 512 = offset / 512 := by omega
  have hmod : (offset + j) % 512 = offset % 512 + j := by omega
  rw [fileByte, hdiv, hmod]

lemma inodeReadLoop_stop (h : size ≤ 0 ∨ inodeLength inode ≤ offset) :
    inodeReadLoop inode fuel fs buffer size offset start = (start, buffer, fs) := by
  cases fuel with
  | zero => rfl
  | succ fuel =>
    unfold inodeReadLoop
    by_cases hsize : 0 < size
    · have hend : inodeLength inode ≤ offset := by omega
      have hb := byteToSector_past_end fs hend
      have hle := chunkSize_past_end size hend
      simp only [if_pos hsize, hb, if_pos hle]
    · rw [if_neg hsize]

lemma inodeReadLoop_succ (hp : Placed fs inode.data n) (hlen : inodeLength inode ≤ 512 * n)
    (hsize : 0 < size) (hpos : (offset : Int) < inodeLength inode) (hm : fs.mallocOk = true) :
    inodeReadLoop inode (fuel + 1) fs buffer size offset start =
      inodeReadLoop inode fuel fs
        (copyRange buffer start (fun j => fileByte fs inode.data (offset + j))
          (chunkSize inode size offset).toNat)
        (size - chunkSize inode size offset) (offset + (chunkSize inode size offset).toNat)
        (start + (chunkSize inode size offset).toNat) := by
  obtain ⟨hb, hr⟩ := sector_inside hp hlen hpos
  have hspec := chunkSize_spec inode size offset
  conv => lhs; unfold inodeReadLoop
  generalize chunkSize inode size offset = chunk at hspec ⊢
  have hchunk : ¬ chunk ≤ 0 := by omega
  rw [← copyOut_eq buffer start (by omega)]
  simp only [if_pos hsize, hb, if_neg hchunk, blockSectorSize, hr]
  by_cases hfull : offset % 512 = 0 ∧ chunk = ((512 : Nat) : Int)
  · obtain ⟨hofs, hc⟩ := hfull
    have h512 : chunk.toNat = 512 := by omega
    rw [if_pos ⟨hofs, hc⟩, hofs, h512]
  · simp only [if_neg hfull, if_pos hm]

lemma copyRange_copyRange (start : Nat) (src src' : Nat → UInt8) (m n : Nat) :
    ∃ both : Nat → UInt8, ∀ buffer, copyRange (copyRange buffer start src m) (start + m) src' n =
      copyRange buffer start both (m + n) := by
  refine ⟨fun j => if j < m then src j else src' (j - m), fun buffer => ?_⟩
  rw [← copyRange_append]
  have hfirst : copyRange buffer start src m =
      copyRange buffer start (fun j => if j < m then src j else src' (j - m)) m :=
    copyRange_congr fun j hj => (if_pos hj).symm
  rw [hfirst]
  refine copyRange_congr fun j _ => ?_
  rw [if_neg (by omega), Nat.add_sub_cancel_left]

/-- A read stores one range of at most `limit` bytes, which do not depend on what the buffer
held. -/
def Stores (read : (Nat → UInt8) → Nat × (Nat → UInt8) × FileSys) (start limit : Nat) : Prop :=
  ∃ count src fs, count ≤ limit ∧
    ∀ buffer, read buffer = (start + count, copyRange buffer start src count, fs)

lemma stores_nothing (fs : FileSys) (start limit : Nat) :
    Stores (fun buffer => (start, buffer, fs)) start limit := by
  refine ⟨0, fun _ => 0, fs, Nat.zero_le _, fun buffer => ?_⟩
  rw [copyRange_zero]
  rfl

lemma inodeReadLoop_stores (inode : Inode) (fuel : Nat) (fs : FileSys) (size : Int)
    (offset start : Nat) :
    Stores (fun buffer => inodeReadLoop inode fuel fs buffer size offset start) start
      size.toNat := by
  induction fuel generalizing fs size offset start with
  | zero => exact stores_nothing fs start size.toNat
  | succ fuel ih =>
    have hspec := chunkSize_spec inode size offset
    unfold inodeReadLoop
    dsimp only
    generalize chunkSize inode size offset = chunk at hspec ⊢
    -- a chunk is copied and the rest of the loop goes on behind it
    have hnext : ∀ fs (block : Block) ofs, 0 < chunk → Stores (fun buffer =>
        inodeReadLoop inode fuel fs (copyOut buffer start block ofs chunk.toNat)
          (size - chunk) (offset + chunk.toNat) (start + chunk.toNat)) start size.toNat := by
      intro fs block ofs hpos
      obtain ⟨count, src, fs', hcount, hrest⟩ :=
        ih fs (size - chunk) (offset + chunk.toNat) (start + chunk.toNat)
      obtain ⟨both, hboth⟩ :=
        copyRange_copyRange start (fun j => block.byte (ofs + j)) src chunk.toNat count
      refine ⟨chunk.toNat + count, both, fs', by omega, fun buffer => ?_⟩
      rw [hrest, ← hboth, Nat.add_assoc]
      rfl
    split_ifs with hsize hchunk hfull hmalloc
    · exact stores_nothing _ start _
    · have h512 : blockSectorSize = chunk.toNat := by
        rw [hfull.2]
        rfl
      rw [h512]
      exact hnext _ _ _ (by omega)
    · exact hnext _ _ _ (by omega)
    · exact stores_nothing _ start _
    · exact stores_nothing _ start _

lemma inodeReadLoop_spec (buffer : Nat → UInt8) (fuel : Nat) (size : Int) (offset start : Nat)
    (hp : Placed fs inode.data n) (hlen : inodeLength inode ≤ 512 * n) (hm : fs.mallocOk = true)
    (hfuel : size.toNat ≤ fuel) :
    inodeReadLoop inode fuel fs buffer size offset start =
      (start + (min size (inodeLength inode - offset)).toNat,
        copyRange buffer start (fun j => fileByte fs inode.data (offset + j))
          (min size (inodeLength inode - offset)).toNat, fs) := by
  induction fuel generalizing buffer size offset start with
  | zero =>
    have hzero : (min size (inodeLength inode - offset)).toNat = 0 := by omega
    rw [hzero, copyRange_zero]
    rfl
  | succ fuel ih =>
    by_cases hgo : 0 < size ∧ (offset : Int) < inodeLength inode
    · obtain ⟨hc1, hc2, hc3, hc4⟩ := chunkSize_spec inode size offset
      rw [inodeReadLoop_succ hp hlen hgo.1 hgo.2 hm]
      generalize chunkSize inode size offset = chunk at hc1 hc2 hc3 hc4 ⊢
      rw [ih _ _ _ _ (by omega)]
      have hsplit : (min size (inodeLength inode - offset)).toNat = chunk.toNat +
          (min (size - chunk) (inodeLength inode - (offset + chunk.toNat : Nat))).toNat := by
        omega
      rw [hsplit, ← copyRange_append]
      simp only [Nat.add_assoc]
    · have hzero : (min size (inodeLength inode - offset)).toNat = 0 := by omega
      rw [inodeReadLoop_stop (by omega), hzero, copyRange_zero]
      rfl

end Pintos.Filesys
