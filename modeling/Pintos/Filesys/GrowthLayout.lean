import Pintos.Filesys.Allocation

/-!
# Growth keeps the layout

`inode_grow` resumes from three counters and fills the direct slots, the
indirect block and the inner blocks in turn. Each phase is shown to append the
sectors it allocates to the data sectors of the inode (`Grew`), and the phases
compose, so how a growth is split over calls does not matter.
-/

namespace Pintos.Filesys

open Foundation Lib List

/-- The sectors of a file: distinct, in use, and not those of the free-map file. -/
structure Owns (fs : FileSys) (data index : List BlockSector) : Prop where
  nodup : (data ++ index).Nodup
  used : ∀ s ∈ data ++ index, Used fs s
  apart : ∀ s ∈ data ++ index, s ∉ mapData fs ∧ s ∉ mapIndex fs

/-- The file has got the data sectors `new`, in this order, and perhaps index sectors. -/
structure Grew (fs fs' : FileSys) (data index data' index' new : List BlockSector) : Prop where
  data_eq : data' = data ++ new
  owns : Owns fs' data' index'
  log : fs'.dataLog = fs.dataLog ++ new
  zeroed : ∀ s ∈ new, fs'.disk s = zeros
  alloc : ∃ pre, index'.Perm (index ++ pre) ∧ Allocated (· ∈ index) fs fs' (pre ++ new)

variable {fs fs' : FileSys} {data index data' index' new : List BlockSector}

lemma Owns.index_not_mem_data (h : Owns fs data index) {s : BlockSector} (hs : s ∈ index) :
    s ∉ data :=
  fun hd => (nodup_append.mp h.nodup).2.2 s hd s hs rfl

lemma Grew.of_allocated (pre : List BlockSector) (ok : FsOk fs) (owns : Owns fs data index)
    (hdata : data' = data ++ new) (hlog : fs'.dataLog = fs.dataLog ++ new)
    (hzero : ∀ s ∈ new, fs'.disk s = zeros) (hperm : index'.Perm (index ++ pre))
    (halloc : Allocated (· ∈ index) fs fs' (pre ++ new)) :
    Grew fs fs' data index data' index' new := by
  have hall : (data' ++ index').Perm ((data ++ index) ++ (pre ++ new)) := by
    subst hdata
    calc
      (data ++ new ++ index').Perm (data ++ new ++ (index ++ pre)) := hperm.append_left _
      _ = data ++ (new ++ (index ++ pre)) := by simp
      Perm _ (data ++ ((index ++ pre) ++ new)) :=
        Perm.append_left _ perm_append_comm
      _ = (data ++ index) ++ (pre ++ new) := by simp
  refine ⟨hdata, ⟨?_, ?_, ?_⟩, hlog, hzero, pre, hperm, halloc⟩
  · rw [hall.nodup_iff, nodup_append]
    refine ⟨owns.nodup, halloc.nodup, fun a ha b hb hab => ?_⟩
    subst hab
    exact halloc.fresh a hb (owns.used a ha)
  · intro s hs
    rw [halloc.used]
    exact (mem_append.mp (hall.mem_iff.mp hs)).imp_left (owns.used s)
  · intro s hs
    rw [halloc.mapData_eq, halloc.mapIndex_eq]
    rcases mem_append.mp (hall.mem_iff.mp hs) with hs | hs
    · exact owns.apart s hs
    · exact halloc.not_mapData ok hs

lemma Grew.refl (ok : FsOk fs) (owns : Owns fs data index) : Grew fs fs data index data index [] :=
  Grew.of_allocated [] ok owns (by simp) (by simp) (by simp) (by simp) (Allocated.refl _ ok)

lemma Grew.ok (h : Grew fs fs' data index data' index' new) : FsOk fs' := by
  obtain ⟨_, _, halloc⟩ := h.alloc
  exact halloc.ok

lemma Grew.data_kept (h : Grew fs fs' data index data' index' new) (owns : Owns fs data index)
    {s : BlockSector} (hs : s ∈ data) : fs'.disk s = fs.disk s := by
  obtain ⟨pre, _, halloc⟩ := h.alloc
  have hmem := mem_append_left index hs
  exact halloc.kept s (owns.used s hmem) (fun hi => owns.index_not_mem_data hi hs)
    (owns.apart s hmem).1

lemma Grew.trans {fs₁ fs₂ : FileSys} {data₁ index₁ data₂ index₂ new₁ new₂ : List BlockSector}
    (ok : FsOk fs) (owns : Owns fs data index) (h₁ : Grew fs fs₁ data index data₁ index₁ new₁)
    (h₂ : Grew fs₁ fs₂ data₁ index₁ data₂ index₂ new₂) :
    Grew fs fs₂ data index data₂ index₂ (new₁ ++ new₂) := by
  obtain ⟨pre₁, hp₁, ha₁⟩ := h₁.alloc
  obtain ⟨pre₂, hp₂, ha₂⟩ := h₂.alloc
  -- an index sector of the middle state that was in use before was one then
  have hsub : ∀ s, Used fs s → s ∈ index₁ → s ∈ index := by
    intro s hu hs
    rcases mem_append.mp (hp₁.mem_iff.mp hs) with hs | hs
    · exact hs
    · exact (ha₁.fresh s (mem_append_left _ hs) hu).elim
  refine Grew.of_allocated (pre₁ ++ pre₂) ok owns ?_ ?_ ?_ ?_ ?_
  · rw [h₂.data_eq, h₁.data_eq, append_assoc]
  · rw [h₂.log, h₁.log, append_assoc]
  · intro s hs
    rcases mem_append.mp hs with hs | hs
    · rw [h₂.data_kept h₁.owns (h₁.data_eq ▸ mem_append_right _ hs), h₁.zeroed s hs]
    · exact h₂.zeroed s hs
  · calc
      Perm index₂ (index₁ ++ pre₂) := hp₂
      Perm _ ((index ++ pre₁) ++ pre₂) := hp₁.append_right _
      _ = index ++ (pre₁ ++ pre₂) := by simp
  · refine (ha₁.trans ha₂ hsub).perm ?_
    simp only [append_assoc]
    refine Perm.append_left _ ?_
    calc
      Perm (new₁ ++ (pre₂ ++ new₂)) ((pre₂ ++ new₂) ++ new₁) := perm_append_comm
      _ = pre₂ ++ (new₂ ++ new₁) := by simp
      Perm _ (pre₂ ++ (new₁ ++ new₂)) := Perm.append_left _ perm_append_comm

/-- One pass over the index block named by `names i`: opened, filled and written back. -/
structure BlockGrown (fs fs' : FileSys) (data index : List BlockSector) (isNew : Bool)
    (names : Nat → BlockSector) (i sectors start : Nat) (block : IndexBlock) (loop : SlotLoop)
    (pre new : List BlockSector) : Prop where
  opened : Opened fs isNew names i block pre
  filled : Filled 128 sectors start block.slots block.fs loop new
  alloc : Allocated (· ∈ index) fs fs' (pre ++ new)
  log : fs'.dataLog = fs.dataLog ++ new
  zeroed : ∀ s ∈ new, fs'.disk s = zeros
  word : ∀ j, j < 128 → wordAt (fs'.disk (block.names i)) j = loop.slots j
  kept : ∀ s ∈ data ++ index, s ≠ block.names i → fs'.disk s = fs.disk s

lemma blockGrown_spec (ok : FsOk fs) (owns : Owns fs data index) {isNew : Bool}
    {names : Nat → BlockSector} {i sectors start : Nat} {block : IndexBlock} {loop : SlotLoop}
    (hblock : openIndexBlock fs isNew names i = block)
    (hloop : allocLoop 128 sectors start block.slots block.fs = loop)
    (h : loop.fs.allocFailed = false) (hold : isNew = false → names i ∈ index) :
    ∃ pre new, BlockGrown fs (blockWrite loop.fs (block.names i) (packWords 512 loop.slots))
      data index isNew names i sectors start block loop pre new := by
  have hopen : ∃ pre, Opened fs isNew names i block pre := by
    rw [← hblock]
    apply openIndexBlock_spec ok
    · rw [hblock]
      exact allocLoop_mono (hloop ▸ h)
    · intro hn
      have hmem := mem_append_right data (hold hn)
      exact ⟨owns.used _ hmem, owns.apart _ hmem⟩
  obtain ⟨pre, ho⟩ := hopen
  obtain ⟨new, hf⟩ := allocLoop_spec ho.alloc.ok (hloop ▸ h)
  rw [hloop] at hf
  have hpast := ho.alloc.trans hf.alloc fun _ _ h => h
  have hu : Used loop.fs (block.names i) := (hf.alloc.used _).mpr (Or.inl ho.used)
  have hmap : block.names i ∉ mapIndex loop.fs := by
    rw [hpast.mapIndex_eq]
    exact ho.apart.2
  have hlt := hpast.ok.lt_of_used hu
  have hw := Allocated.blockWrite hpast.ok hu hmap (packWords 512 loop.slots)
  refine ⟨pre, new, ho, hf, ?_, ?_, ?_, ?_, ?_⟩
  · -- the block overwritten at the end was an index sector unless it is new
    have hpast' : Allocated (· ∈ index) fs loop.fs (pre ++ new) :=
      { hpast with kept := fun s hs _ => hpast.kept s hs id }
    have hall := hpast'.trans hw (by
      rintro s hs rfl
      cases hn : isNew with
      | true => exact (ho.alloc.fresh _ (by simp [ho.new hn]) hs).elim
      | false =>
        rw [(ho.old hn).2]
        exact hold hn)
    simpa using hall
  · have hlog : (blockWrite loop.fs (block.names i) (packWords 512 loop.slots)).dataLog =
        loop.fs.dataLog := by
      unfold blockWrite
      split <;> rfl
    rw [hlog, hf.log, ho.log]
  · intro s hs
    rw [← hf.zeroed s hs, blockWrite, if_pos hlt]
    exact Function.update_of_ne (fun he : s = _ => hf.alloc.fresh s hs (he ▸ ho.used)) _ _
  · intro j hj
    rw [blockWrite_disk_self hlt, wordAt_packWords _ _ (by omega)]
  · intro s hs hne
    rw [blockWrite, if_pos hlt]
    exact (Function.update_of_ne hne _ _).trans
      (hpast.kept s (owns.used s hs) id (owns.apart s hs).1)

end Pintos.Filesys
