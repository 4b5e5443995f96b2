import Pintos.Userprog.LoadSegment

/-!
# The loaded image

Over all program headers: whatever the executable says, `load` fails no assertion and
ends; and when it succeeds, user memory is what the loadable segments describe and
nothing else. The invariant of the loop over the headers is that the map and the
contents are those of the headers read so far.
-/

namespace Pintos.Userprog

open Filesys List

namespace Loader

variable {s : Loader}

lemma offT_eq (w : UInt32) : offT w < 0 ∨ offT w = w.toNat := by
  have hw := w.toNat_lt
  by_cases hlt : w.toNat < 2147483648
  · exact Or.inr (wrap32_eq (by omega) (by omega))
  · left
    unfold offT wrap32
    rw [Int.bmod_def]
    omega

variable {p : Phdr} {s' : Loader} {phdrs : List Phdr}

lemma Good.loadSegment (hs : Good s) (hp : p.Valid s.file.bytes.length) :
    ∃ b s', (∀ fuel, 786432 < fuel → loadSegment fuel s (offT p.filePage) p.memPage p.readBytes
        p.zeroBytes p.writable = some (b, s')) ∧ Good s' ∧ s'.file = s.file ∧
      (b = true → Filled s s' p.firstPage p.pages
        (FileByte s.file p.filePage.toNat p.fromFile) p.writable) := by
  have hbound := hp.pages_bound
  have hsum := hp.toNat_zeroBytes
  have hshort := s.file.short
  have hfile : p.filePage.toNat = p.offset.toNat / 4096 * 4096 := Phdr.toNat_mask p.offset
  have hofs : offT p.filePage = p.filePage.toNat := by
    have hle := hp.offset_le
    exact wrap32_eq (by omega) (by omega)
  have hpage : (4096 : UInt32).toNat = 4096 := rfl
  have hmod : (p.readBytes + p.zeroBytes) % 4096 = 0 := by
    apply UInt32.toNat_inj.mp
    rw [UInt32.toNat_mod, UInt32.toNat_add, hsum, hpage]
    change 4096 * p.pages % 4294967296 % 4096 = 0
    omega
  have hupage : pgOfs p.memPage = 0 := by
    apply UInt32.toNat_inj.mp
    rw [toNat_pgOfs, p.toNat_memPage]
    exact Nat.mul_mod_right 4096 p.firstPage
  have halign : offT p.filePage % 4096 = 0 := by
    rw [hofs, hfile]
    omega
  have hnonneg : 0 ≤ offT p.filePage := by
    rw [hofs]
    exact Int.natCast_nonneg _
  have htmod : (offT p.filePage).tmod 4096 = 0 := by
    rwa [Int.tmod_eq_emod_of_nonneg hnonneg]
  have hs₁ : Good (s.call (.loadSegment (offT p.filePage) p.memPage p.readBytes p.zeroBytes)) :=
    hs.call ⟨hmod, hupage, halign⟩
  generalize hs₂ : s.call (.loadSegment (offT p.filePage) p.memPage p.readBytes p.zeroBytes) = s₂
    at hs₁
  have hmap : ∀ m, (s₂.fileSeek (offT p.filePage)).mapping m = s.mapping m := by
    intro m
    rw [Loader.mapping, fileSeek_paging hnonneg, ← hs₂]
    rfl
  have hpos : (s₂.fileSeek (offT p.filePage)).pos = p.filePage.toNat := by
    rw [fileSeek_pos, hofs]
    rfl
  have hfile₂ : (s₂.fileSeek (offT p.filePage)).file = s.file := by
    rw [fileSeek_file, ← hs₂]
    rfl
  have hbyte : (s₂.fileSeek (offT p.filePage)).byte = s.byte := by
    rw [fileSeek_byte, ← hs₂]
    rfl
  rcases (hs₁.fileSeek hnonneg).loadPages p.writable p.toNat_memPage hbound.1 hbound.2 hsum with
    ⟨b, s', hrun, hs', hfile', hdone⟩
  rw [hpos, hfile₂, hp.toNat_readBytes] at hdone
  refine ⟨b, s', fun fuel hfuel => ?_, hs', hfile'.trans hfile₂, fun hb => ?_⟩
  · unfold Loader.loadSegment
    dsimp only
    rw [ensure_of hmod, ensure_of hupage, ensure_of htmod, hs₂]
    exact hrun fuel (by omega)
  · have hfilled := hdone hb
    refine ⟨fun m hm hm' => (hmap m).symm.trans (hfilled.absent m hm hm'), hfilled.filled,
      fun m hm hout => (hfilled.outside m hm hout).trans (hmap m), fun m hm Q w hQ => ?_⟩
    rcases hQ with ⟨f, hf, hQ⟩
    refine hfilled.kept m hm Q w ⟨f, (hmap m).trans hf, ?_⟩
    rwa [hbyte]

/-! ## The headers read so far -/

def Loaded (s : Loader) (p : Phdr) : Prop :=
  ∀ i < p.memsz.toNat, ∃ f, s.mapping ((p.vaddr.toNat + i) / 4096) = some (f, p.writable) ∧
    p.Describes s.file i (s.byte (f + (p.vaddr.toNat + i) % 4096))

/-- User memory is the one that the headers describe. -/
structure Described (s : Loader) (phdrs : List Phdr) : Prop where
  valid : ∀ p ∈ phdrs, p.type = ptLoad → p.Valid s.file.bytes.length
  loaded : ∀ p ∈ phdrs, p.type = ptLoad → s.Loaded p
  mapped_iff : ∀ n < 786432,
    (s.mapping n).isSome ↔ ∃ p ∈ phdrs, p.type = ptLoad ∧ p.Overlaps n

lemma Filled.loaded (hp : p.Valid s.file.bytes.length) (hfile : s'.file = s.file)
    (hf : Filled s s' p.firstPage p.pages
      (FileByte s.file p.filePage.toNat p.fromFile) p.writable) : s'.Loaded p := by
  intro i hi
  -- place `x` of the segment, counted from the start of its first page
  have hx : 4096 * ((p.vaddr.toNat % 4096 + i) / 4096) + (p.vaddr.toNat % 4096 + i) % 4096 =
      p.vaddr.toNat % 4096 + i := Nat.div_add_mod _ _
  have hpage : p.firstPage + (p.vaddr.toNat % 4096 + i) / 4096 = (p.vaddr.toNat + i) / 4096 := by
    unfold Phdr.firstPage
    omega
  have hofs : (p.vaddr.toNat % 4096 + i) % 4096 = (p.vaddr.toNat + i) % 4096 := by omega
  have hj : (p.vaddr.toNat % 4096 + i) / 4096 < p.pages := by
    unfold Phdr.pages
    omega
  rcases hf.filled _ hj with ⟨f, hmap, hbyte⟩
  rw [hpage] at hmap
  refine ⟨f, hmap, ?_⟩
  have hb := hbyte ((p.vaddr.toNat % 4096 + i) % 4096) (Nat.mod_lt _ (by omega))
  dsimp only at hb
  rw [hx, hofs] at hb
  rw [hfile]
  have hiff : p.vaddr.toNat % 4096 + i < p.fromFile ↔ i < p.filesz.toNat := by
    unfold Phdr.fromFile
    split <;> omega
  unfold FileByte at hb
  rw [hp.filePage_add] at hb
  simpa only [Phdr.Describes, hiff] using hb

lemma Loaded.kept {q : Phdr} (hq : q.Valid s.file.bytes.length) (hl : s.Loaded q)
    (hfile : s'.file = s.file) {P : Nat → UInt8 → Prop}
    (hf : Filled s s' p.firstPage p.pages P p.writable) : s'.Loaded q := by
  intro i hi
  have huser := hq.user
  rcases hl i hi with ⟨f, hmap, hbyte⟩
  have hpage : (q.vaddr.toNat + i) / 4096 < 786432 := by omega
  rcases hf.kept _ hpage
    (fun t b => t = (q.vaddr.toNat + i) % 4096 → q.Describes s.file i b) q.writable
    ⟨f, hmap, fun t _ ht => ht ▸ hbyte⟩ with ⟨f', hmap', hbyte'⟩
  refine ⟨f', hmap', ?_⟩
  rw [hfile]
  exact hbyte' _ (Nat.mod_lt _ (by omega)) rfl

lemma Described.load (hd : Described s phdrs) (htype : p.type = ptLoad)
    (hp : p.Valid s.file.bytes.length) (hfile : s'.file = s.file)
    (hf : Filled s s' p.firstPage p.pages
      (FileByte s.file p.filePage.toNat p.fromFile) p.writable) : Described s' (phdrs ++ [p]) := by
  constructor
  · intro q hq hload
    rw [hfile]
    rcases mem_append.mp hq with hq | hq
    · exact hd.valid q hq hload
    · rwa [mem_singleton.mp hq]
  · intro q hq hload
    rcases mem_append.mp hq with hq | hq
    · exact (hd.loaded q hq hload).kept (hd.valid q hq hload) hfile hf
    · rw [mem_singleton.mp hq]
      exact hf.loaded hp hfile
  · intro n hn
    have hover := p.overlaps_iff n
    by_cases hin : p.firstPage ≤ n ∧ n < p.firstPage + p.pages
    · have hsome : (s'.mapping n).isSome = true := by
        rcases hf.filled (n - p.firstPage) (by omega) with ⟨f, hmap, -⟩
        have hpage : p.firstPage + (n - p.firstPage) = n := by omega
        rw [hpage] at hmap
        rw [hmap]
        rfl
      refine iff_of_true hsome ⟨p, ?_, htype, hover.mpr hin⟩
      exact mem_append_right _ (mem_singleton_self p)
    · rw [hf.outside n hn (by omega), hd.mapped_iff n hn]
      constructor
      · rintro ⟨q, hq, hload, hov⟩
        exact ⟨q, mem_append_left _ hq, hload, hov⟩
      · rintro ⟨q, hq, hload, hov⟩
        rcases mem_append.mp hq with hq | hq
        · exact ⟨q, hq, hload, hov⟩
        · rw [mem_singleton.mp hq] at hov
          exact absurd (hover.mp hov) hin

lemma Described.skip (hd : Described s phdrs) (htype : p.type ≠ ptLoad) :
    Described s (phdrs ++ [p]) := by
  have hmem : ∀ q, q.type = ptLoad → (q ∈ phdrs ++ [p] ↔ q ∈ phdrs) := by
    intro q hq
    rw [mem_append, mem_singleton]
    constructor
    · rintro (h | rfl)
      · exact h
      · exact absurd hq htype
    · exact Or.inl
  refine ⟨fun q hq hload => hd.valid q ((hmem q hload).mp hq) hload,
    fun q hq hload => hd.loaded q ((hmem q hload).mp hq) hload, fun n hn => ?_⟩
  rw [hd.mapped_iff n hn]
  constructor
  · rintro ⟨q, hq, hload, hov⟩
    exact ⟨q, (hmem q hload).mpr hq, hload, hov⟩
  · rintro ⟨q, hq, hload, hov⟩
    exact ⟨q, (hmem q hload).mp hq, hload, hov⟩

lemma Described.congr (hd : Described s phdrs) (hfile : s'.file = s.file)
    (hpaging : s'.paging = s.paging) (hbyte : s'.byte = s.byte) : Described s' phdrs := by
  have hmap : s'.mapping = s.mapping := by
    unfold Loader.mapping
    rw [hpaging]
  refine ⟨?_, ?_, ?_⟩
  · rw [hfile]
    exact hd.valid
  · unfold Loaded
    rw [hfile, hmap, hbyte]
    exact hd.loaded
  · rw [hmap]
    exact hd.mapped_iff

lemma Good.loadHeader (hs : Good s) (p : Phdr) :
    ∃ b s', (∀ fuel, 786432 < fuel → loadHeader fuel s p = some (b, s')) ∧ Good s' ∧
      s'.file = s.file ∧
      (b = true → ∀ phdrs, Described s phdrs → Described s' (phdrs ++ [p])) := by
  unfold Loader.loadHeader
  by_cases hdone : p.type = ptDynamic ∨ p.type = ptInterp ∨ p.type = ptShlib
  · exact ⟨false, s, fun _ _ => if_pos hdone, hs, rfl, nofun⟩
  · simp only [if_neg hdone]
    by_cases htype : p.type = ptLoad
    · simp only [if_pos htype]
      by_cases hvalid : p.validateSegment s.file.bytes.length = true
      · simp only [if_pos hvalid]
        have hp := Phdr.valid_of_validateSegment s.file.short hvalid
        rcases hs.loadSegment hp with ⟨b, s', hrun, hs', hfile, hfilled⟩
        exact ⟨b, s', hrun, hs', hfile, fun hb phdrs hd => hd.load htype hp hfile (hfilled hb)⟩
      · simp only [if_neg hvalid]
        exact ⟨false, s, fun _ _ => rfl, hs, rfl, nofun⟩
    · simp only [if_neg htype]
      exact ⟨true, s, fun _ _ => rfl, hs, rfl, fun _ phdrs hd => hd.skip htype⟩

/-- `n` program headers from offset `ofs` on. -/
def headersFrom (file : Executable) : Nat → Nat → List Phdr
  | _, 0 => []
  | ofs, n + 1 => Phdr.ofBytes ((file.bytes.drop ofs).take 32) :: headersFrom file (ofs + 32) n

/-- The loop of `load` ends, and what it leaves is described by the headers it has read. -/
lemma Good.loadHeaders (n : Nat) : ∀ (s : Loader) (fileOfs : Int), Good s →
    ∃ b s', (∀ fuel, 786432 < fuel → loadHeaders fuel n s fileOfs = some (b, s')) ∧ Good s' ∧
      s'.file = s.file ∧
      (b = true → (n = 0 ∨ 0 ≤ fileOfs) ∧ ∀ phdrs, Described s phdrs →
        Described s' (phdrs ++ headersFrom s.file fileOfs.toNat n)) := by
  induction n with
  | zero =>
    intro s fileOfs hs
    refine ⟨true, s, fun _ _ => rfl, hs, rfl, fun _ => ⟨Or.inl rfl, fun phdrs hd => ?_⟩⟩
    rwa [headersFrom, append_nil]
  | succ n ih =>
    intro s fileOfs hs
    by_cases hrange : fileOfs < 0 ∨ fileOfs > s.file.bytes.length
    · exact ⟨false, s, fun _ _ => if_pos hrange, hs, rfl, (by simp)⟩
    · have hnonneg : 0 ≤ fileOfs := by omega
      have hseek := hs.fileSeek hnonneg
      have hs₁ : Good ((s.fileSeek fileOfs).fileRead 32).2 := ⟨hseek.ok, hseek.calls⟩
      have hbytes : ((s.fileSeek fileOfs).fileRead 32).1 =
          (s.file.bytes.drop fileOfs.toNat).take 32 := rfl
      have hfile₁ : ((s.fileSeek fileOfs).fileRead 32).2.file = s.file := rfl
      have hkept : ∀ phdrs, Described s phdrs →
          Described ((s.fileSeek fileOfs).fileRead 32).2 phdrs :=
        fun phdrs hd => hd.congr rfl (fileSeek_paging hnonneg) rfl
      have hunfold := fun fuel => loadHeaders_succ fuel n hrange
      generalize (s.fileSeek fileOfs).fileRead 32 = out at hbytes hs₁ hfile₁ hkept hunfold
      rcases out with ⟨bytes, s₁⟩
      dsimp only at hbytes hs₁ hfile₁ hkept hunfold
      by_cases hlen : bytes.length = 32
      · have hnext : wrap32 (fileOfs + 32) = fileOfs + 32 := by
          have hshort := s.file.short
          rw [hbytes, length_take, length_drop] at hlen
          exact wrap32_eq (by omega) (by omega)
        rcases hs₁.loadHeader (Phdr.ofBytes bytes) with ⟨b₁, s₂, hrun₁, hs₂, hfile₂, hdone₁⟩
        cases b₁ with
        | false =>
          refine ⟨false, s₂, fun fuel hfuel => ?_, hs₂, hfile₂.trans hfile₁, (by simp)⟩
          rw [hunfold, if_neg (not_not.mpr hlen), hrun₁ fuel hfuel]
          rfl
        | true =>
          rcases ih s₂ (fileOfs + 32) hs₂ with ⟨b, s', hrun, hs', hfile', hdone⟩
          refine ⟨b, s', fun fuel hfuel => ?_, hs', hfile'.trans (hfile₂.trans hfile₁),
            fun hb => ⟨Or.inr hnonneg, fun phdrs hd => ?_⟩⟩
          · rw [hunfold, if_neg (not_not.mpr hlen), hrun₁ fuel hfuel, hnext]
            exact (if_pos rfl).trans (hrun fuel hfuel)
          · have hlist := (hdone hb).2 _ (hdone₁ rfl _ (hkept phdrs hd))
            have hofs : (fileOfs + 32).toNat = fileOfs.toNat + 32 := by omega
            rw [hfile₂, hfile₁, hofs, append_assoc, singleton_append] at hlist
            rwa [headersFrom, ← hbytes]
      · refine ⟨false, s₁, fun fuel _ => ?_, hs₁, hfile₁, (by simp)⟩
        rw [hunfold, if_pos hlen]

/-! ## The whole file -/

lemma Ready.mapping (hr : Ready s) {n : Nat} (hn : n < 786432) : s.mapping n = none :=
  if_pos (hr.empty (n / 1024) (by omega))

lemma Ready.good (hr : Ready s) : Good s := by
  have hnone : ∀ i < 768, s.paging.pd.pdeAt i ≠ 0 → False := fun i hi hne => hne (hr.empty i hi)
  refine ⟨⟨hr.intact, ⟨hr.aligned, fun i hi hne => (hnone i hi hne).elim,
    fun i hi _ _ hne => (hnone i hi hne).elim⟩, hr.ownDir, fun i hi hne => (hnone i hi hne).elim,
    fun n hn e he => ?_, hr.supply, hr.once⟩, ?_⟩
  · have hnone := hr.mapping hn
    simp [Loader.mapping, he] at hnone
  · rw [hr.calls]
    nofun

lemma Ready.described (hr : Ready s) : Described s [] := by
  refine ⟨nofun, nofun, fun n hn => ?_⟩
  rw [hr.mapping hn]
  simp

def programHeaders (file : Executable) : List Phdr :=
  headersFrom file (ehdr file).phoff.toNat (ehdr file).phnum.toNat

lemma Ready.load (hr : Ready s) :
    ∃ b s', (∀ fuel, 786432 < fuel → load fuel s = some (b, s')) ∧ Good s' ∧ s'.file = s.file ∧
      (b = true → Described s' (programHeaders s.file)) := by
  have hgood := hr.good
  have hbytes : (s.fileRead 52).1 = s.file.bytes.take 52 := by
    rw [fileRead, hr.pos]
    rfl
  have hs₁ : Good (s.fileRead 52).2 := ⟨hgood.ok, hgood.calls⟩
  have hd₁ : Described (s.fileRead 52).2 [] := hr.described.congr rfl rfl rfl
  have hfile₁ : (s.fileRead 52).2.file = s.file := rfl
  unfold Loader.load
  dsimp only
  generalize s.fileRead 52 = out at hbytes hs₁ hd₁ hfile₁
  rcases out with ⟨bytes, s₁⟩
  dsimp only at hbytes hs₁ hd₁ hfile₁ ⊢
  by_cases hbad : bytes.length ≠ 52 ∨ ¬ (Ehdr.ofBytes bytes).Accepted
  · exact ⟨false, s₁, fun _ _ => if_pos hbad, hs₁, hfile₁, (by simp)⟩
  · rcases Good.loadHeaders (Ehdr.ofBytes bytes).phnum.toNat s₁
      (offT (Ehdr.ofBytes bytes).phoff) hs₁ with ⟨b, s', hrun, hs', hfile', hdone⟩
    refine ⟨b, s', fun fuel hfuel => (if_neg hbad).trans (hrun fuel hfuel), hs',
      hfile'.trans hfile₁, fun hb => ?_⟩
    rcases hdone hb with ⟨hofs, hdesc⟩
    have hlist := hdesc [] hd₁
    rw [nil_append, hfile₁] at hlist
    have hheaders : headersFrom s.file (offT (Ehdr.ofBytes bytes).phoff).toNat
        (Ehdr.ofBytes bytes).phnum.toNat = programHeaders s.file := by
      rw [programHeaders, ehdr, ← hbytes]
      rcases hofs with hzero | hnonneg
      · rw [hzero, headersFrom, headersFrom]
      · rcases offT_eq (Ehdr.ofBytes bytes).phoff with hneg | heq
        · omega
        · rw [heq]
          rfl
    rwa [hheaders] at hlist

/-- Whatever the executable, loading ends, no assertion fails, every position and user page is in
order, and no counter goes below zero. -/
theorem load_safe (hr : Ready s) :
    ∃ b s', (∀ fuel, 786432 < fuel → load fuel s = some (b, s')) ∧
      s'.paging.panicked = false ∧ ∀ c ∈ s'.calls, c.Good := by
  rcases hr.load with ⟨b, s', hrun, hs', -, -⟩
  exact ⟨b, s', hrun, hs'.ok.intact, hs'.calls⟩

def freshProcess (file : Executable) : Loader where
  file := file
  pos := 0
  paging := {
    pd := { base := 0x100000, word := fun _ => 0, formed := fun _ _ => Or.inl rfl }
    answers := [some 0x101000, some 0x102000, some 0x103000]
    owned := []
    initRamPages := 1024
    initPageDir := 0xff000
    panicked := false }
  byte := fun _ => 0
  calls := []

lemma ready_freshProcess (file : Executable) : Ready (freshProcess file) := by
  have hpages : ∀ p, some p ∈ (freshProcess file).paging.answers →
      p = 0x101000 ∨ p = 0x102000 ∨ p = 0x103000 := by
    intro p hp
    simpa [freshProcess] using hp
  have hbase : (freshProcess file).paging.pd.base = 0x100000 := rfl
  have hdir : (freshProcess file).paging.initPageDir = 0xff000 := rfl
  have hram : (freshProcess file).paging.initRamPages = 1024 := rfl
  refine ⟨rfl, rfl, rfl, by rw [hbase], by rw [hbase, hdir]; decide, fun _ _ => rfl,
    fun p hp => ?_, ?_⟩
  · rw [Paging.InRam, hbase, hram]
    rcases hpages p hp with rfl | rfl | rfl
    · decide
    · decide
    · decide
  · simp [freshProcess]

def overlapping : Executable where
  bytes := [0x7f, 0x45, 0x4c, 0x46, 1, 1, 1, 0, 0, 0, 0, 0, 0, 0, 0, 0,
    2, 0, 3, 0, 1, 0, 0, 0, 0, 0, 0, 0, 52, 0, 0, 0, 0, 0, 0, 0, 0, 0, 0, 0,
    52, 0, 32, 0, 2, 0, 0, 0, 0, 0, 0, 0,
    1, 0, 0, 0, 0, 0, 0, 0, 0, 0x80, 4, 8, 0, 0, 0, 0, 8, 0, 0, 0, 16, 0, 0, 0,
    2, 0, 0, 0, 0, 0, 0, 0,
    1, 0, 0, 0, 0, 0, 0, 0, 0, 0x80, 4, 8, 0, 0, 0, 0, 8, 0, 0, 0, 16, 0, 0, 0,
    0, 0, 0, 0, 0, 0, 0, 0]
  short := by decide

theorem load_safe_overlapping :
    ∃ b s', (∀ fuel, 786432 < fuel → load fuel (freshProcess overlapping) = some (b, s')) ∧
      s'.paging.panicked = false ∧ ∀ c ∈ s'.calls, c.Good :=
  load_safe (ready_freshProcess overlapping)

/-- The second segment makes `load_segment` pass a page to `install_page` that is mapped. -/
theorem installPage_overlapping :
    Ready (freshProcess overlapping) ∧
      ∃ s', load 3 (freshProcess overlapping) = some (false, s') ∧
        .installPage 0x8048000 true ∈ s'.calls := by
  have hrun : (load 3 (freshProcess overlapping)).map
      (fun r => (r.1, decide (.installPage 0x8048000 true ∈ r.2.calls))) = some (false, true) := by
    decide +kernel
  rcases Option.map_eq_some_iff.mp hrun with ⟨⟨b, s'⟩, hload, heq⟩
  cases congrArg Prod.fst heq
  exact ⟨ready_freshProcess overlapping, s', hload, of_decide_eq_true (congrArg Prod.snd heq)⟩

/-- Every byte of a loadable segment is where the segment has it, writable if the segment is, and
the user pages are those that segments overlap. -/
theorem load_image (hr : Ready s) {fuel : Nat} (hfuel : 786432 < fuel) {s' : Loader}
    (hload : load fuel s = some (true, s')) :
    (∀ p ∈ programHeaders s.file, p.type = ptLoad → ∀ i < p.memsz.toNat,
      ∃ a, s'.paging.pd.translate (p.vaddr + UInt32.ofNat i) = some a ∧
        p.Describes s.file i (s'.byte a) ∧
        (s'.mapping ((p.vaddr + UInt32.ofNat i).toNat / 4096)).map Prod.snd = some p.writable) ∧
    ∀ va : UInt32, isUserVaddr va = true → ((s'.paging.pd.translate va).isSome = true ↔
      ∃ p ∈ programHeaders s.file, p.type = ptLoad ∧ p.Overlaps (va.toNat / 4096)) := by
  rcases hr.load with ⟨b, s₁, hrun, -, hfile, hdesc⟩
  have heq := (hrun fuel hfuel).symm.trans hload
  cases heq
  have hd := hdesc rfl
  refine ⟨fun p hp htype i hi => ?_, fun va hva => ?_⟩
  · have huser := (hd.valid p hp htype).user
    have hva : (p.vaddr + UInt32.ofNat i).toNat = p.vaddr.toNat + i := by
      rw [UInt32.toNat_add, UInt32.toNat_ofNat_of_lt' (show i < 4294967296 by omega)]
      omega
    rcases hd.loaded p hp htype i hi with ⟨f, hmap, hbyte⟩
    rw [hfile] at hbyte
    refine ⟨f + (p.vaddr.toNat + i) % 4096, ?_, hbyte, ?_⟩
    · rw [PageDir.translate_eq_mapping, hva]
      exact congrArg (Option.map fun e => e.1 + (p.vaddr.toNat + i) % 4096) hmap
    · rw [hva, hmap]
      rfl
  · rw [PageDir.translate_eq_mapping, Option.isSome_map]
    exact hd.mapped_iff _ (Paging.user_page_lt hva)

/-- A segment of 90 bytes from the file and 4910 zeros, at 0x8048000. -/
def oneSegment : Executable where
  bytes := [0x7f, 0x45, 0x4c, 0x46, 1, 1, 1, 0, 0, 0, 0, 0, 0, 0, 0, 0,
    2, 0, 3, 0, 1, 0, 0, 0, 0, 0, 0, 0, 52, 0, 0, 0, 0, 0, 0, 0, 0, 0, 0, 0,
    52, 0, 32, 0, 1, 0, 0, 0, 0, 0, 0, 0,
    1, 0, 0, 0, 0, 0, 0, 0, 0, 0x80, 4, 8, 0, 0, 0, 0, 90, 0, 0, 0, 0x88, 0x13, 0, 0,
    7, 0, 0, 0, 0, 0, 0, 0, 0xb8, 1, 0, 0, 0, 0xcd]
  short := by decide

theorem load_image_oneSegment :
    ∃ s', load 786433 (freshProcess oneSegment) = some (true, s') ∧
      ∃ a, s'.paging.pd.translate 0x8048059 = some a ∧ s'.byte a = 0xcd := by
  have hrun : (load 786433 (freshProcess oneSegment)).map Prod.fst = some true := by
    decide +kernel
  rcases Option.map_eq_some_iff.mp hrun with ⟨⟨b, s'⟩, hload, rfl⟩
  refine ⟨s', hload, ?_⟩
  have himage := (load_image (ready_freshProcess oneSegment) (by decide) hload).1
    (Phdr.ofBytes ((oneSegment.bytes.drop 52).take 32)) mem_cons_self (by decide +kernel) 89
    (by decide +kernel)
  rcases himage with ⟨a, ha, hbyte, -⟩
  have hlt : 89 < (Phdr.ofBytes ((oneSegment.bytes.drop 52).take 32)).filesz.toNat := by
    decide +kernel
  have hfile : oneSegment.bytes[(Phdr.ofBytes ((oneSegment.bytes.drop 52).take 32)).offset.toNat
      + 89]? = some 0xcd := by decide +kernel
  rw [Phdr.Describes, if_pos hlt] at hbyte
  exact ⟨a, ha, Option.some.inj (hbyte.symm.trans hfile)⟩

end Loader

end Pintos.Userprog
