import Pintos.Filesys.GrowthLayout

/-!
# The phases of `inode_grow`

Growth fills the direct slots, then the block at `ptr[10]`, then inner blocks one
after another, each time resuming where the counters of the inode point. Every
phase takes an inode of `n` sectors to one of `n + new.length` (`Extends`), and
these steps compose.

While inner blocks are filled the doubly indirect block is only in memory; the
statements of that phase carry it as an array and `Building` stands for the
layout.
-/

namespace Pintos.Filesys

open Foundation Lib List

/-- An inode of `n` data sectors: the counters where growth resumes, and its
sectors. -/
structure FileAt (fs : FileSys) (d : InodeDisk) (n : Nat) : Prop where
  bound : n ≤ 16522
  counters : d.counters = levels n
  owns : Owns fs (inodeData fs d n) (inodeIndex fs d n)

structure Extends (fs fs' : FileSys) (d d' : InodeDisk) (n : Nat) (new : List BlockSector) :
    Prop where
  bound : n + new.length ≤ 16522
  counters : d'.counters = levels (n + new.length)
  grew : Grew fs fs' (inodeData fs d n) (inodeIndex fs d n) (inodeData fs' d' (n + new.length))
    (inodeIndex fs' d' (n + new.length)) new

variable {fs fs' : FileSys} {d : InodeDisk} {n sectors j : Nat} {new pre : List BlockSector}
  {ptr second : Nat → BlockSector} {loop : SlotLoop} {isNew : Bool} {block : IndexBlock}
  {inode : Inode}

lemma FileAt.layout (hf : FileAt fs d n) : Layout fs d n :=
  ⟨hf.bound, hf.counters, hf.owns.nodup, hf.owns.used⟩

variable {d' d₁ d₂ : InodeDisk} {fs₁ fs₂ : FileSys} {new₁ new₂ : List BlockSector} {q fuel : Nat}

lemma Extends.file (h : Extends fs fs' d d' n new) : FileAt fs' d' (n + new.length) :=
  ⟨h.bound, h.counters, h.grew.owns⟩

lemma Extends.refl (ok : FsOk fs) (hf : FileAt fs d n) : Extends fs fs d d n [] :=
  ⟨hf.bound, hf.counters, Grew.refl ok hf.owns⟩

lemma Extends.trans (ok : FsOk fs) (hf : FileAt fs d n) (h₁ : Extends fs fs₁ d d₁ n new₁)
    (h₂ : Extends fs₁ fs₂ d₁ d₂ (n + new₁.length) new₂) : Extends fs fs₂ d d₂ n (new₁ ++ new₂) := by
  have hlen : n + (new₁ ++ new₂).length = n + new₁.length + new₂.length := by
    rw [length_append, Nat.add_assoc]
  refine ⟨?_, ?_, ?_⟩ <;> rw [hlen]
  · exact h₂.bound
  · exact h₂.counters
  · exact h₁.grew.trans ok hf.owns h₂.grew

lemma counters_eq_iff {a b c : Nat} :
    d.counters = (a, b, c) ↔
      d.directLevelIndex = a ∧ d.firstLevelIndex = b ∧ d.secondLevelIndex = c := by
  simp [InodeDisk.counters]

lemma levels_direct (h : n ≤ 10) : levels n = (n, 0, 0) := if_pos h

lemma levels_first (h : 10 ≤ n) (h' : n < 138) : levels n = (10, n - 10, 0) := by
  unfold levels
  split
  · have : n = 10 := by omega
    subst this
    rfl
  · rfl

lemma levels_second (h : 138 ≤ n) : levels n = (11, (n - 138) / 128, (n - 138) % 128) := by
  rw [levels, if_neg (by omega), if_neg (by omega)]

lemma innerCount_of_le (h : n ≤ 138) : innerCount n = 0 := by
  unfold innerCount
  omega

lemma indexSectors_direct (h : n ≤ 10) : indexSectors ptr second n = [] := by
  simp [indexSectors, innerCount_of_le (show n ≤ 138 by omega), show ¬ 10 < n by omega,
    show ¬ 138 < n by omega]

lemma indexSectors_first (h : 10 < n) (h' : n ≤ 138) : indexSectors ptr second n = [ptr 10] := by
  simp [indexSectors, innerCount_of_le h', h, show ¬ 138 < n by omega]

/-- The index sectors once the doubly indirect block is allocated. -/
def deepIndex (ptr second : Nat → BlockSector) (n : Nat) : List BlockSector :=
  ptr 10 :: ptr 11 :: (List.range (innerCount n)).map second

lemma indexSectors_second (h : 138 < n) : indexSectors ptr second n = deepIndex ptr second n := by
  simp [indexSectors, deepIndex, h, show 10 < n by omega]

lemma FileAt.direct_full (hf : FileAt fs d n) (h : 10 ≤ n) : 10 ≤ d.directLevelIndex := by
  have hc := hf.counters
  unfold levels at hc
  split at hc
  · simp [counters_eq_iff] at hc
    omega
  · split at hc <;> simp [counters_eq_iff] at hc <;> omega

lemma direct_extends (ok : FsOk fs) (hf : FileAt fs d n)
    (hloop : allocLoop 10 sectors d.directLevelIndex d.ptr fs = loop)
    (h : loop.fs.allocFailed = false) :
    ∃ new, new.length = min sectors (10 - n) ∧ loop.sectors = sectors - new.length ∧
      Extends fs loop.fs d { d with ptr := loop.slots, directLevelIndex := loop.index } n new := by
  by_cases hn : n ≤ 10
  · obtain ⟨hdir, hfirst, hsecond⟩ := counters_eq_iff.mp (levels_direct hn ▸ hf.counters)
    rw [hdir] at hloop
    obtain ⟨new, hl⟩ := allocLoop_spec ok (hloop ▸ h)
    rw [hloop] at hl
    have hcount := hl.count
    have hm : n + new.length ≤ 10 := by omega
    refine ⟨new, hcount, hl.sectors_eq, by omega, ?_, ?_⟩
    · rw [levels_direct hm, counters_eq_iff]
      exact ⟨hl.index_eq, hfirst, hsecond⟩
    · have hi : inodeIndex fs d n = [] := indexSectors_direct hn
      refine Grew.of_allocated [] ok hf.owns ?_ hl.log hl.zeroed ?_ ?_
      · apply dataSectors_append
        · intro k hk
          simp only [resolve, show k < 10 by omega, if_true]
          exact hl.outside k (Or.inl hk)
        · intro k hk
          simp only [resolve, show n + k < 10 by omega, if_true]
          exact hl.filled k hk
      · rw [hi, inodeIndex, indexSectors_direct hm]
        exact Perm.nil
      · exact { hl.alloc with kept := fun s hs _ => hl.alloc.kept s hs id }
  · rw [allocLoop_of_le (hf.direct_full (by omega))] at hloop
    subst hloop
    refine ⟨[], ?_, rfl, Extends.refl ok hf⟩
    simp only [length_nil]
    omega

lemma BlockGrown.first_grew (ok : FsOk fs) (hf : FileAt fs d n) (h10 : 10 ≤ n)
    (hnew : isNew = decide (n = 10))
    (hb : BlockGrown fs fs' (inodeData fs d n) (inodeIndex fs d n) isNew d.ptr 10 sectors (n - 10)
      block loop pre new) (hm : 10 < n + new.length) (hm' : n + new.length ≤ 138)
    (hptr : d'.ptr = block.names) :
    Grew fs fs' (inodeData fs d n) (inodeIndex fs d n) (inodeData fs' d' (n + new.length))
      (inodeIndex fs' d' (n + new.length)) new := by
  have hindex : inodeIndex fs' d' (n + new.length) = [block.names 10] := by
    rw [inodeIndex, indexSectors_first hm hm', hptr]
  refine Grew.of_allocated pre ok hf.owns ?_ hb.log hb.zeroed ?_ hb.alloc
  · apply dataSectors_append
    · intro k hk
      unfold resolve
      rw [hptr]
      by_cases hk10 : k < 10
      · rw [if_pos hk10, if_pos hk10, hb.opened.names_eq k (by omega)]
      · -- an entry below `n` was read from the old block
        have hold := (hb.opened.old (by rw [hnew, decide_eq_false_iff_not]; omega)).2
        have hslots : block.slots = wordAt (fs.disk (d.ptr 10)) := by rw [hold]
        rw [if_neg hk10, if_neg hk10, if_pos (by omega), if_pos (by omega),
          hb.word _ (by omega), hb.filled.outside _ (by omega), hslots]
    · intro k hk
      have hkey := hb.filled.filled k hk
      rw [resolve, if_neg (by omega), if_pos (by omega), hptr, hb.word _ (by omega), ← hkey]
      congr 1
      omega
  · rw [hindex]
    by_cases hn : n = 10
    · have hi : inodeIndex fs d n = [] := indexSectors_direct (by omega)
      rw [hi, hb.opened.new (by simp [hnew, hn])]
      exact Perm.refl _
    · have hi : inodeIndex fs d n = [d.ptr 10] := indexSectors_first (by omega) (by omega)
      obtain ⟨hpre, hblock⟩ := hb.opened.old (by simp [hnew, hn])
      rw [hi, hpre, hblock]
      exact Perm.refl _

lemma firstIndirAlloc_extends {g : Growth} (ok : FsOk fs) (hf : FileAt fs inode.data n)
    (h10 : 10 ≤ n) (h138 : n < 138) (hpos : 0 < sectors)
    (hg : firstIndirAlloc fs sectors inode = g) (h : g.fs.allocFailed = false) :
    ∃ new, new.length = min sectors (138 - n) ∧ g.sectors = sectors - new.length ∧
      Extends fs g.fs inode.data g.inode.data n new := by
  obtain ⟨hdir, hfirst, hsecond⟩ := counters_eq_iff.mp (levels_first h10 h138 ▸ hf.counters)
  generalize hd : inode.data = d at *
  simp only [firstIndirAlloc, hd, indexBlockSize, firstLevIndex, hfirst] at hg
  generalize hblock : openIndexBlock fs (decide (n - 10 = 0)) d.ptr 10 = block at hg
  generalize hloop : allocLoop 128 sectors (n - 10) block.slots block.fs = loop at hg
  subst hg
  have hold : decide (n - 10 = 0) = false → d.ptr 10 ∈ inodeIndex fs d n := by
    intro hne
    exact ptr10_mem_indexSectors (by simp at hne; omega)
  obtain ⟨pre, new, hb⟩ := blockGrown_spec ok hf.owns hblock hloop (by simpa using h) hold
  have hcount := hb.filled.count
  have hindex := hb.filled.index_eq
  refine ⟨new, by omega, hb.filled.sectors_eq, by omega, ?_, ?_⟩
  · dsimp only
    split
    · rw [levels_second (by omega), counters_eq_iff]
      dsimp only
      omega
    · rw [levels_first (by omega) (by omega), counters_eq_iff]
      dsimp only
      omega
  · refine hb.first_grew ok hf h10 ?_ (by omega) (by omega) ?_
    · rw [decide_eq_decide]
      omega
    · dsimp only
      split <;> rfl

/-! ## Inner blocks -/

/-- An inode of `n` sectors while `second_indir_alloc` holds the doubly indirect
block in memory. -/
structure Building (fs : FileSys) (d : InodeDisk) (second : Nat → BlockSector) (n : Nat) :
    Prop where
  low : 138 ≤ n
  bound : n ≤ 16522
  counters : d.counters = levels n
  owns : Owns fs (dataSectors fs.disk d.ptr second n) (deepIndex d.ptr second n)

/-- The counterpart of `Extends` for that time. -/
structure Builds (fs fs' : FileSys) (d d' : InodeDisk) (second second' : Nat → BlockSector)
    (n : Nat) (new : List BlockSector) : Prop where
  ptr_eq : d'.ptr = d.ptr
  building : Building fs' d' second' (n + new.length)
  grew : Grew fs fs' (dataSectors fs.disk d.ptr second n) (deepIndex d.ptr second n)
    (dataSectors fs'.disk d'.ptr second' (n + new.length))
    (deepIndex d'.ptr second' (n + new.length)) new

lemma Builds.refl (ok : FsOk fs) (hbld : Building fs d second n) :
    Builds fs fs d d second second n [] :=
  ⟨rfl, hbld, Grew.refl ok hbld.owns⟩

lemma Builds.trans {second₁ second₂ : Nat → BlockSector} (ok : FsOk fs)
    (hbld : Building fs d second n) (h₁ : Builds fs fs₁ d d₁ second second₁ n new₁)
    (h₂ : Builds fs₁ fs₂ d₁ d₂ second₁ second₂ (n + new₁.length) new₂) :
    Builds fs fs₂ d d₂ second second₂ n (new₁ ++ new₂) := by
  have hlen : n + (new₁ ++ new₂).length = n + new₁.length + new₂.length := by
    rw [length_append, Nat.add_assoc]
  refine ⟨h₂.ptr_eq.trans h₁.ptr_eq, ?_, ?_⟩ <;> rw [hlen]
  · exact h₂.building
  · exact h₁.grew.trans ok hbld.owns h₂.grew

lemma inner_mem_deepIndex (h : j < innerCount n) : second j ∈ deepIndex ptr second n :=
  mem_cons_of_mem _ (mem_cons_of_mem _ (mem_map_of_mem (mem_range.mpr h)))

lemma Building.ne_names (hbld : Building fs d second n)
    (ho : Opened fs isNew second q block pre) {s : BlockSector}
    (hs : s ∈ deepIndex d.ptr second n) (hne : isNew = false → s ≠ second q) :
    s ≠ block.names q := by
  cases hn : isNew with
  | true =>
    rintro rfl
    exact ho.alloc.fresh _ (by simp [ho.new hn]) (hbld.owns.used _ (mem_append_right _ hs))
  | false =>
    rw [(ho.old hn).2]
    exact hne hn

lemma Building.inner_inj {i : Nat} (hbld : Building fs d second n) (hi : i < innerCount n)
    (hj : j < innerCount n) (h : second i = second j) : i = j := by
  have hnd := (nodup_append.mp hbld.owns.nodup).2.1
  unfold deepIndex at hnd
  have hmap := (nodup_cons.mp (nodup_cons.mp hnd).2).2
  exact inj_on_of_nodup_map hmap (mem_range.mpr hi) (mem_range.mpr hj) h

lemma Building.ptr10_ne_inner (hbld : Building fs d second n) (hj : j < innerCount n) :
    d.ptr 10 ≠ second j := by
  intro h
  have hnd := (nodup_append.mp hbld.owns.nodup).2.1
  unfold deepIndex at hnd
  refine (nodup_cons.mp hnd).1 (mem_cons_of_mem _ ?_)
  exact mem_map.mpr ⟨j, mem_range.mpr hj, h.symm⟩

lemma BlockGrown.deep_grew {r : Nat} (ok : FsOk fs) (hbld : Building fs d second n)
    (hn : n = 138 + 128 * q + r) (hr : r < 128) (hnew : isNew = decide (r = 0))
    (hb : BlockGrown fs fs' (dataSectors fs.disk d.ptr second n) (deepIndex d.ptr second n) isNew
      second q sectors r block loop pre new) (hpos : 0 < new.length) (hfit : r + new.length ≤ 128) :
    Grew fs fs' (dataSectors fs.disk d.ptr second n) (deepIndex d.ptr second n)
      (dataSectors fs'.disk d.ptr block.names (n + new.length))
      (deepIndex d.ptr block.names (n + new.length)) new := by
  have hnr : isNew = false → q < innerCount n := by
    intro h
    rw [hnew, decide_eq_false_iff_not] at h
    unfold innerCount
    omega
  have hkept : ∀ s ∈ deepIndex d.ptr second n, (isNew = false → s ≠ second q) →
      fs'.disk s = fs.disk s := fun s hs hne =>
    hb.kept s (mem_append_right _ hs) (hbld.ne_names hb.opened hs hne)
  refine Grew.of_allocated pre ok hbld.owns ?_ hb.log hb.zeroed ?_ hb.alloc
  · apply dataSectors_append
    · intro k hk
      unfold resolve
      by_cases h10 : k < 10
      · rw [if_pos h10, if_pos h10]
      rw [if_neg h10, if_neg h10]
      by_cases h138 : k < 138
      · rw [if_pos h138, if_pos h138,
          hkept _ (by simp [deepIndex]) fun h => hbld.ptr10_ne_inner (hnr h)]
      rw [if_neg h138, if_neg h138]
      have hj := inner_lt_innerCount (Nat.le_of_not_lt h138) hk
      by_cases hq : (k - 138) / 128 = q
      · -- the block being filled: entries below `r` were read from the old block
        have hold := (hb.opened.old (by rw [hnew, decide_eq_false_iff_not]; omega)).2
        have hslots : block.slots = wordAt (fs.disk (second q)) := by rw [hold]
        rw [hq, hb.word _ (by omega), hb.filled.outside _ (by omega), hslots]
      · rw [hb.opened.names_eq _ hq, hkept _ (inner_mem_deepIndex hj) fun h he =>
          hq (hbld.inner_inj hj (hnr h) he)]
    · intro k hk
      have hdiv : (n + k - 138) / 128 = q := by omega
      have hmod : (n + k - 138) % 128 = r + k := by omega
      rw [resolve, if_neg (by omega), if_neg (by omega), hdiv, hmod, hb.word _ (by omega),
        hb.filled.filled k hk]
  · have hcount : innerCount (n + new.length) = q + 1 := by
      unfold innerCount
      omega
    have hold : (range q).map block.names = (range q).map second :=
      map_congr_left fun j hj => hb.opened.names_eq j (by simp at hj; omega)
    simp only [deepIndex, hcount, range_succ, map_append, map_cons, map_nil, hold, cons_append]
    refine Perm.cons _ (Perm.cons _ ?_)
    by_cases h0 : r = 0
    · have hc : innerCount n = q := by
        unfold innerCount
        omega
      rw [hc, hb.opened.new (by simp [hnew, h0])]
    · have hc : innerCount n = q + 1 := by
        unfold innerCount
        omega
      obtain ⟨hpre, hblock⟩ := hb.opened.old (by simp [hnew, h0])
      rw [hc, hpre, hblock, range_succ]
      simp

lemma secondIndirAllocDeep_builds {g : Growth × (Nat → BlockSector)} (ok : FsOk fs)
    (hbld : Building fs inode.data second n) (hlt : n < 16522) (hpos : 0 < sectors)
    (hg : secondIndirAllocDeep fs sectors inode second = g) (h : g.1.fs.allocFailed = false) :
    ∃ new, new.length = min sectors (128 - (n - 138) % 128) ∧
      g.1.sectors = sectors - new.length ∧
      Builds fs g.1.fs inode.data g.1.inode.data second g.2 n new := by
  have hlow := hbld.low
  obtain ⟨hdir, hfirst, hsecond⟩ := counters_eq_iff.mp (levels_second hlow ▸ hbld.counters)
  generalize hd : inode.data = d at *
  simp only [secondIndirAllocDeep, hd, indexBlockSize, hfirst, hsecond] at hg
  have hn : n = 138 + 128 * ((n - 138) / 128) + (n - 138) % 128 := by omega
  have hr : (n - 138) % 128 < 128 := by omega
  generalize (n - 138) / 128 = q at hn hfirst hg
  generalize (n - 138) % 128 = r at hn hr hsecond hg ⊢
  generalize hblock : openIndexBlock fs (decide (r = 0)) second q = block at hg
  generalize hloop : allocLoop 128 sectors r block.slots block.fs = loop at hg
  subst hg
  have hold : decide (r = 0) = false → second q ∈ deepIndex d.ptr second n := by
    intro hne
    rw [decide_eq_false_iff_not] at hne
    exact inner_mem_deepIndex (by unfold innerCount; omega)
  obtain ⟨pre, new, hb⟩ := blockGrown_spec ok hbld.owns hblock hloop (by simpa using h) hold
  have hcount := hb.filled.count
  have hindex := hb.filled.index_eq
  have hgrew := hb.deep_grew ok hbld hn hr rfl (by omega) (by omega)
  have hlow' : 138 ≤ n + new.length := by omega
  have hbound : n + new.length ≤ 16522 := by omega
  -- what the counters are depends on whether the inner block is full
  by_cases hfull : loop.index = 128
  · simp only [if_pos hfull]
    refine ⟨new, hcount, hb.filled.sectors_eq, rfl, ⟨hlow', hbound, ?_, hgrew.owns⟩, hgrew⟩
    rw [levels_second hlow', counters_eq_iff]
    dsimp only
    omega
  · simp only [if_neg hfull]
    refine ⟨new, hcount, hb.filled.sectors_eq, rfl, ⟨hlow', hbound, ?_, hgrew.owns⟩, hgrew⟩
    rw [levels_second hlow', counters_eq_iff]
    dsimp only
    omega

lemma secondIndirAllocDeep_mono
    (h : (secondIndirAllocDeep fs sectors inode second).1.fs.allocFailed = false) :
    fs.allocFailed = false :=
  openIndexBlock_mono (allocLoop_mono (by simpa [secondIndirAllocDeep] using h))

lemma secondIndirLoop_mono
    (h : (secondIndirLoop fuel fs sectors inode second).1.fs.allocFailed = false) :
    fs.allocFailed = false := by
  induction fuel generalizing fs inode second sectors with
  | zero => exact h
  | succ fuel ih =>
    unfold secondIndirLoop at h
    split at h
    · dsimp only at h
      split at h
      · exact secondIndirAllocDeep_mono h
      · exact secondIndirAllocDeep_mono (ih h)
    · exact h

/-- The loop of `second_indir_alloc` places the sectors it was asked for, up to the last
one the index can hold. -/
lemma secondIndirLoop_builds (ok : FsOk fs) (hbld : Building fs inode.data second n)
    (hpos : 0 < sectors) (hfuel : 128 ≤ fuel + (n - 138) / 128)
    (h : (secondIndirLoop fuel fs sectors inode second).1.fs.allocFailed = false) :
    ∃ new, new.length = min sectors (16522 - n) ∧
      (secondIndirLoop fuel fs sectors inode second).1.sectors = sectors - new.length ∧
      Builds fs (secondIndirLoop fuel fs sectors inode second).1.fs inode.data
        (secondIndirLoop fuel fs sectors inode second).1.inode.data second
        (secondIndirLoop fuel fs sectors inode second).2 n new := by
  have hlow := hbld.low
  induction fuel generalizing fs inode second n sectors with
  | zero =>
    refine ⟨[], ?_, rfl, Builds.refl ok hbld⟩
    rw [length_nil]
    omega
  | succ fuel ih =>
    have hfirst := (counters_eq_iff.mp (levels_second hlow ▸ hbld.counters)).2.1
    unfold secondIndirLoop at h ⊢
    simp only [indexBlockSize, hfirst] at h ⊢
    by_cases hfull : (n - 138) / 128 < 128
    · simp only [if_pos hfull] at h ⊢
      generalize hg : secondIndirAllocDeep fs sectors inode second = g at h ⊢
      have hfail : g.1.fs.allocFailed = false := by
        split at h
        · exact h
        · exact secondIndirLoop_mono h
      obtain ⟨new, hcount, hsec, hb⟩ :=
        secondIndirAllocDeep_builds ok hbld (by omega) hpos hg hfail
      split at h
      · rename_i hzero
        rw [if_pos hzero]
        exact ⟨new, by omega, hsec, hb⟩
      · -- the inner block is full: the next iteration starts a new one
        rename_i hrest
        rw [if_neg hrest]
        obtain ⟨new', hcount', hsec', hb'⟩ := ih hb.grew.ok hb.building (by omega) (by omega)
          h (by omega)
        refine ⟨new ++ new', ?_, ?_, hb.trans ok hbld hb'⟩
        · rw [length_append]
          omega
        · rw [length_append]
          omega
    · -- the index is full: the loop does not run
      simp only [if_neg hfull]
      refine ⟨[], ?_, rfl, Builds.refl ok hbld⟩
      rw [length_nil]
      omega

lemma ptr11_mem_deepIndex : ptr 11 ∈ deepIndex ptr second n := by
  simp [deepIndex]

lemma Building.ptr11_ne (hbld : Building fs d second n) :
    d.ptr 10 ≠ d.ptr 11 ∧ ∀ j, j < innerCount n → second j ≠ d.ptr 11 := by
  have hnd := (nodup_append.mp hbld.owns.nodup).2.1
  unfold deepIndex at hnd
  obtain ⟨h10, hrest⟩ := nodup_cons.mp hnd
  refine ⟨fun h => h10 (h ▸ mem_cons_self), fun j hj h => ?_⟩
  exact (nodup_cons.mp hrest).1 (mem_map.mpr ⟨j, mem_range.mpr hj, h⟩)

lemma Opened.building (ok : FsOk fs) (hf : FileAt fs d n) (h138 : 138 ≤ n)
    (hnew : isNew = decide (n = 138)) (ho : Opened fs isNew d.ptr 11 block pre) :
    Grew fs block.fs (inodeData fs d n) (inodeIndex fs d n)
      (dataSectors block.fs.disk block.names block.slots n)
      (deepIndex block.names block.slots n) [] := by
  by_cases hn : n = 138
  · subst hn
    have hpre := ho.new (by simp [hnew])
    have hi : inodeIndex fs d 138 = [d.ptr 10] := indexSectors_first (by omega) (by omega)
    have h10 : block.names 10 = d.ptr 10 := ho.names_eq 10 (by omega)
    have hdisk : block.fs.disk (d.ptr 10) = fs.disk (d.ptr 10) := by
      have hmem : d.ptr 10 ∈ inodeData fs d 138 ++ inodeIndex fs d 138 := by simp [hi]
      exact ho.alloc.kept _ (hf.owns.used _ hmem) id (hf.owns.apart _ hmem).1
    refine Grew.of_allocated pre ok hf.owns ?_ (by simp [ho.log]) (by simp) ?_ ?_
    · rw [append_nil]
      apply dataSectors_congr
      intro k hk
      unfold resolve
      by_cases hk10 : k < 10
      · rw [if_pos hk10, if_pos hk10, ho.names_eq k (by omega)]
      · rw [if_neg hk10, if_neg hk10, if_pos hk, if_pos hk, h10, hdisk]
    · rw [hi, hpre, deepIndex, innerCount_of_le (Nat.le_refl _), h10]
      exact Perm.refl _
    · rw [append_nil]
      exact { ho.alloc with kept := fun s hs _ => ho.alloc.kept s hs id }
  · obtain ⟨-, hblock⟩ := ho.old (by simp [hnew, hn])
    have hi : inodeIndex fs d n = deepIndex d.ptr (secondBlockOf fs d) n :=
      indexSectors_second (by omega)
    have howns := hf.owns
    rw [hi] at howns ⊢
    rw [hblock]
    exact Grew.refl ok howns

lemma Building.written (ok : FsOk fs) (hbld : Building fs d second n) (hn : 138 < n) :
    Grew fs (blockWrite fs (d.ptr 11) (packWords 512 second)) (dataSectors fs.disk d.ptr second n)
      (deepIndex d.ptr second n)
      (inodeData (blockWrite fs (d.ptr 11) (packWords 512 second)) d n)
      (inodeIndex (blockWrite fs (d.ptr 11) (packWords 512 second)) d n) [] := by
  have hmem : d.ptr 11 ∈ dataSectors fs.disk d.ptr second n ++ deepIndex d.ptr second n :=
    mem_append_right _ ptr11_mem_deepIndex
  have hu := hbld.owns.used _ hmem
  have hlt := ok.lt_of_used hu
  have hw := Allocated.blockWrite ok hu (hbld.owns.apart _ hmem).2 (packWords 512 second)
  have hself := blockWrite_disk_self hlt (packWords 512 second)
  have hother : ∀ s, s ≠ d.ptr 11 →
      (blockWrite fs (d.ptr 11) (packWords 512 second)).disk s = fs.disk s := by
    intro s hs
    rw [blockWrite, if_pos hlt]
    exact Function.update_of_ne hs _ _
  have hlog : (blockWrite fs (d.ptr 11) (packWords 512 second)).dataLog = fs.dataLog := by
    rw [blockWrite, if_pos hlt]
  generalize blockWrite fs (d.ptr 11) (packWords 512 second) = fs' at *
  have hbound := hbld.bound
  have hsecond : ∀ j, j < innerCount n → secondBlockOf fs' d j = second j := by
    intro j hj
    rw [secondBlockOf, hself, wordAt_packWords]
    unfold innerCount at hj
    omega
  obtain ⟨h10, hinner⟩ := hbld.ptr11_ne
  refine Grew.of_allocated [] ok hbld.owns ?_ (by simp [hlog]) (by simp) ?_ ?_
  · rw [append_nil]
    apply dataSectors_congr
    intro k hk
    unfold resolve
    by_cases hk10 : k < 10
    · rw [if_pos hk10, if_pos hk10]
    rw [if_neg hk10, if_neg hk10]
    by_cases hk138 : k < 138
    · rw [if_pos hk138, if_pos hk138, hother _ h10]
    · have hj := inner_lt_innerCount (Nat.le_of_not_lt hk138) hk
      rw [if_neg hk138, if_neg hk138, hsecond _ hj, hother _ (hinner _ hj)]
  · rw [inodeIndex, indexSectors_second hn, append_nil, deepIndex, deepIndex,
      map_congr_left fun j hj => hsecond j (mem_range.mp hj)]
  · exact { hw with kept := fun s hs ht => hw.kept s hs fun he => ht (he ▸ ptr11_mem_deepIndex) }

lemma secondIndirAlloc_extends (ok : FsOk fs) (hf : FileAt fs inode.data n) (h138 : 138 ≤ n)
    (hpos : 0 < sectors) (h : (secondIndirAlloc fs sectors inode).fs.allocFailed = false) :
    ∃ new, new.length = min sectors (16522 - n) ∧
      (secondIndirAlloc fs sectors inode).sectors = sectors - new.length ∧
      Extends fs (secondIndirAlloc fs sectors inode).fs inode.data
        (secondIndirAlloc fs sectors inode).inode.data n new := by
  obtain ⟨hdir, hfirst, hsecond⟩ := counters_eq_iff.mp (levels_second h138 ▸ hf.counters)
  have hiff : (inode.data.firstLevelIndex = 0 ∧ inode.data.secondLevelIndex = 0) ↔ n = 138 := by
    omega
  unfold secondIndirAlloc at h ⊢
  simp only [indexBlockSize, secondLevIndex, decide_eq_decide.mpr hiff] at h ⊢
  generalize hblock : openIndexBlock fs (decide (n = 138)) inode.data.ptr 11 = block at h ⊢
  generalize hinode : ({ inode with data := { inode.data with ptr := block.names } } : Inode) =
    inode' at h ⊢
  have hptr : inode'.data.ptr = block.names := by rw [← hinode]
  have hcnt : inode'.data.counters = levels n := by
    rw [← hinode]
    exact hf.counters
  have hloopfail :
      (secondIndirLoop 128 block.fs sectors inode' block.slots).1.fs.allocFailed = false := by
    simpa using h
  have hopen : ∃ pre, Opened fs (decide (n = 138)) inode.data.ptr 11 block pre := by
    rw [← hblock]
    apply openIndexBlock_spec ok
    · rw [hblock]
      exact secondIndirLoop_mono hloopfail
    · intro hn
      have hmem : inode.data.ptr 11 ∈ inodeData fs inode.data n ++ inodeIndex fs inode.data n :=
        mem_append_right _ (ptr11_mem_indexSectors (by simp at hn; omega))
      exact ⟨hf.owns.used _ hmem, hf.owns.apart _ hmem⟩
  obtain ⟨pre, ho⟩ := hopen
  have hgrew := ho.building ok hf h138 rfl
  rw [← hptr] at hgrew
  have hbld : Building block.fs inode'.data block.slots n := ⟨h138, hf.bound, hcnt, hgrew.owns⟩
  obtain ⟨new, hlen, hsec, hb⟩ :=
    secondIndirLoop_builds hgrew.ok hbld hpos (by omega) hloopfail
  have hw := hb.building.written hb.grew.ok (by omega)
  refine ⟨new, hlen, hsec, hb.building.bound, hb.building.counters, ?_⟩
  have hall := (hgrew.trans ok hf.owns hb.grew).trans ok hf.owns hw
  simpa using hall

end Pintos.Filesys
