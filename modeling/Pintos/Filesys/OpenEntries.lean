import Pintos.Filesys.OpenFiles

/-!
# Open files by sector

What is open, in terms that outlive the memory of inodes: each open file with the sector of
its inode and whether it denies writes, and each directory reference with its sector. The
counters of the inode of a sector are read off these lists, and every operation adds or
removes one element. `filesys_open` and the routines for directories are not part of the
sources; the first is `file_open` of `inode_open`, and a directory owns one reference.
-/

namespace Pintos.Filesys

open Function List InodeTable OpenFiles

structure Entry where
  file : FilePtr
  sector : BlockSector
  deny : Bool
  deriving DecidableEq

namespace OpenFiles

variable {s s' : OpenFiles}

def entry (s : OpenFiles) (f : FilePtr) : Entry :=
  ⟨f, (s.table.inode (s.file f).inode).sector, (s.file f).denyWrite⟩

def entries (s : OpenFiles) : List Entry := s.openFiles.map s.entry

def dirs (s : OpenFiles) : List (InodePtr × BlockSector) :=
  s.held.map fun i => (i, (s.table.inode i).sector)

/-- `open_cnt` of the inode of a sector, 0 if it is not open. -/
def openCnt (s : OpenFiles) (sector : BlockSector) : Int :=
  match s.table.lookup sector with
  | some i => (s.table.inode i).openCnt
  | none => 0

def denyWriteCnt (s : OpenFiles) (sector : BlockSector) : Int :=
  match s.table.lookup sector with
  | some i => (s.table.inode i).denyWriteCnt
  | none => 0

/-- `filesys_open` on a name for the inode at `sector`, none if there is no such file. -/
def filesysOpen (s : OpenFiles) (sector : Option BlockSector) (inode : Option InodePtr)
    (file : Option FilePtr) : Option FilePtr × OpenFiles :=
  match sector with
  | none => s.fileOpen none file
  | some sector => (s.inodeOpen sector inode).fileOpen (s.table.inodeOpen sector inode).1 file

def dropHeld (s : OpenFiles) (i : InodePtr) : OpenFiles :=
  { s with table := s.table.inodeClose i, held := s.held.erase i }

/-- `dir_open`, which takes over the reference, with whether there is memory. -/
def dirOpen (s : OpenFiles) (inode : Option InodePtr) (mem : Bool) :
    Option InodePtr × OpenFiles :=
  match inode with
  | none => (none, s)
  | some i => if mem then (some i, s) else (none, s.dropHeld i)

def dirReopen (s : OpenFiles) (i : InodePtr) (mem : Bool) : Option InodePtr × OpenFiles :=
  (s.inodeReopen i).dirOpen (some i) mem

def dirOpenRoot (s : OpenFiles) (inode : Option InodePtr) (mem : Bool) :
    Option InodePtr × OpenFiles :=
  let root := s.table.fs.rootDirSector
  (s.inodeOpen root inode).dirOpen (s.table.inodeOpen root inode).1 mem

def dirClose (s : OpenFiles) (i : InodePtr) : OpenFiles := s.dropHeld i

/-- `dir_close` on a directory that `open` has opened as a file. -/
def dirCloseFile (s : OpenFiles) (f : FilePtr) : OpenFiles :=
  { s with
    table := s.table.inodeClose (s.file f).inode
    openFiles := s.openFiles.erase f }

lemma Accounted.openCnt_eq (h : s.Accounted) (sector : BlockSector) :
    s.openCnt sector = s.entries.countP (fun e => e.sector = sector) +
      s.dirs.countP fun d => d.2 = sector := by
  have hrefs : (s.held ++ s.users).countP (fun i => (s.table.inode i).sector = sector) =
      s.entries.countP (fun e => e.sector = sector) + s.dirs.countP fun d => d.2 = sector := by
    rw [countP_append, users, usersOf, entries, dirs, countP_map, countP_map,
      countP_map, Nat.add_comm]
    rfl
  unfold openCnt
  cases hl : s.table.lookup sector with
  | some i =>
    obtain ⟨hi, hsec⟩ := lookup_some hl
    dsimp only
    rw [h.counted.count i hi, ← Int.natCast_add, ← hrefs, count]
    congr 1
    refine countP_congr fun j hj => ?_
    have hjopen := (h.counted.mem_iff j).mp hj
    simp only [beq_iff_eq, decide_eq_true_eq]
    exact ⟨fun he => he ▸ hsec, fun he => h.counted.sectors j hjopen i hi (he.trans hsec.symm)⟩
  | none =>
    have hzero : (s.held ++ s.users).countP (fun i => (s.table.inode i).sector = sector) = 0 := by
      refine countP_eq_zero.mpr fun j hj => ?_
      have hne := lookup_none hl j ((h.counted.mem_iff j).mp hj)
      simpa using hne
    dsimp only
    rw [← Int.natCast_add, ← hrefs, hzero]
    rfl

lemma Accounted.denyWriteCnt_eq (h : s.Accounted) (sector : BlockSector) :
    s.denyWriteCnt sector = s.entries.countP fun e => e.sector = sector ∧ e.deny = true := by
  have hcount : s.entries.countP (fun e => e.sector = sector ∧ e.deny = true) =
      s.openFiles.countP fun f =>
        (s.table.inode (s.file f).inode).sector = sector ∧ (s.file f).denyWrite = true := by
    rw [entries, countP_map]
    rfl
  unfold denyWriteCnt
  rw [hcount]
  cases hl : s.table.lookup sector with
  | some i =>
    obtain ⟨hi, hsec⟩ := lookup_some hl
    dsimp only
    rw [h.denied i hi, count_deniers]
    congr 1
    refine countP_congr fun f hf => ?_
    have hopen := h.inode_mem hf
    simp only [decide_eq_true_eq]
    exact ⟨fun he => ⟨he.1 ▸ hsec, he.2⟩,
      fun he => ⟨h.counted.sectors _ hopen i hi (he.1.trans hsec.symm), he.2⟩⟩
  | none =>
    have hzero : s.openFiles.countP (fun f =>
        (s.table.inode (s.file f).inode).sector = sector ∧ (s.file f).denyWrite = true) = 0 := by
      refine countP_eq_zero.mpr fun f hf => ?_
      have hne := lookup_none hl _ (h.inode_mem hf)
      simp [hne]
    dsimp only
    rw [hzero]
    rfl

/-! ## What the operations do to the lists -/

/-- The sectors of the inodes in use stay the same, and so do the files of `s`. -/
structure Keeps (s s' : OpenFiles) : Prop where
  sector : ∀ i ∈ s.held ++ s.users, (s'.table.inode i).sector = (s.table.inode i).sector
  file : ∀ f ∈ s.openFiles, s'.file f = s.file f

lemma Keeps.entry (h : Keeps s s') {f : FilePtr} (hf : f ∈ s.openFiles) :
    s'.entry f = s.entry f := by
  have hmem : (s.file f).inode ∈ s.held ++ s.users :=
    mem_append_right _ (mem_map_of_mem hf)
  rw [OpenFiles.entry, OpenFiles.entry, h.file f hf, h.sector _ hmem]

lemma Keeps.map_entry (h : Keeps s s') {files : List FilePtr}
    (hsub : ∀ f ∈ files, f ∈ s.openFiles) : files.map s'.entry = files.map s.entry :=
  map_congr_left fun f hf => h.entry (hsub f hf)

lemma Keeps.map_dir (h : Keeps s s') {held : List InodePtr} (hsub : ∀ i ∈ held, i ∈ s.held) :
    held.map (fun i => (i, (s'.table.inode i).sector)) =
      held.map fun i => (i, (s.table.inode i).sector) :=
  map_congr_left fun i hi => by rw [h.sector i (mem_append_left _ (hsub i hi))]

lemma inodeClose_sector (t : InodeTable) (i j : InodePtr) :
    ((t.inodeClose i).inode j).sector = (t.inode j).sector := by
  by_cases hlast : (t.inode i).openCnt = 1
  · rw [inodeClose_of_one hlast]
  · rw [inodeClose_of_ne_one hlast]
    exact set_sector (by rfl) j

lemma Accounted.inodeOpen_keeps (h : s.Accounted) (sector : BlockSector)
    {mem : Option InodePtr} (hfresh : ∀ i ∈ mem, i ∉ s.table.openInodes) :
    Keeps s (s.inodeOpen sector mem) ∧
      ∀ i ∈ (s.table.inodeOpen sector mem).1,
        ((s.inodeOpen sector mem).table.inode i).sector = sector := by
  unfold OpenFiles.inodeOpen InodeTable.inodeOpen
  cases hl : s.table.lookup sector with
  | some i =>
    have hsec := (lookup_some hl).2
    refine ⟨⟨fun j _ => set_sector (by rfl) j, fun _ _ => rfl⟩, ?_⟩
    rintro j ⟨⟩
    exact (set_sector (by rfl) i).trans hsec
  | none =>
    cases mem with
    | none => exact ⟨⟨fun _ _ => rfl, fun _ _ => rfl⟩, nofun⟩
    | some i =>
      refine ⟨⟨fun j hj => ?_, fun _ _ => rfl⟩, ?_⟩
      · have hne : j ≠ i := fun he => hfresh i rfl (he ▸ (h.counted.mem_iff j).mp hj)
        exact congrArg Inode.sector (update_of_ne hne _ _)
      · rintro j ⟨⟩
        dsimp only
        rw [update_self]
        rfl

/-- The lists, in any order. -/
structure Shows (s : OpenFiles) (es : List Entry) (ds : List (InodePtr × BlockSector)) : Prop where
  accounted : s.Accounted
  entries : s.entries.Perm es
  dirs : s.dirs.Perm ds

section Shows

variable {es : List Entry} {ds : List (InodePtr × BlockSector)} {f : FilePtr} {i : InodePtr}
  {σ : BlockSector} {deny : Bool}

lemma Shows.perm {es' : List Entry} {ds' : List (InodePtr × BlockSector)} (h : s.Shows es ds)
    (hes : es.Perm es') (hds : ds.Perm ds') : s.Shows es' ds' :=
  ⟨h.accounted, h.entries.trans hes, h.dirs.trans hds⟩

lemma Shows.file (h : s.Shows (⟨f, σ, deny⟩ :: es) ds) :
    f ∈ s.openFiles ∧ s.entry f = ⟨f, σ, deny⟩ ∧ ((s.openFiles.erase f).map s.entry).Perm es := by
  obtain ⟨g, hg, he⟩ := mem_map.mp (h.entries.mem_iff.mpr mem_cons_self)
  have hgf : g = f := congrArg Entry.file he
  subst hgf
  have hsplit := (perm_cons_erase hg).map s.entry
  rw [map_cons, he] at hsplit
  exact ⟨hg, he, (hsplit.symm.trans h.entries).cons_inv⟩

lemma Shows.dir (h : s.Shows es ((i, σ) :: ds)) :
    i ∈ s.held ∧ (s.table.inode i).sector = σ ∧
      ((s.held.erase i).map fun i => (i, (s.table.inode i).sector)).Perm ds := by
  obtain ⟨j, hj, he⟩ := mem_map.mp (h.dirs.mem_iff.mpr mem_cons_self)
  have hji : j = i := congrArg Prod.fst he
  subst hji
  have hsplit := (perm_cons_erase hj).map fun i => (i, (s.table.inode i).sector)
  rw [map_cons, he] at hsplit
  exact ⟨hj, congrArg Prod.snd he, (hsplit.symm.trans h.dirs).cons_inv⟩

lemma Shows.inodeOpen (h : s.Shows es ds) (sector : BlockSector) {mem : Option InodePtr}
    (hfresh : ∀ i ∈ mem, i ∉ s.table.openInodes) :
    (s.inodeOpen sector mem).Shows es
      ((s.table.inodeOpen sector mem).1.toList.map (·, sector) ++ ds) := by
  obtain ⟨hkeeps, hsector⟩ := h.accounted.inodeOpen_keeps sector hfresh
  have hentries : (s.inodeOpen sector mem).entries = s.entries :=
    hkeeps.map_entry fun _ hf => hf
  have hdirs : (s.inodeOpen sector mem).dirs =
      (s.table.inodeOpen sector mem).1.toList.map (·, sector) ++ s.dirs := by
    have hheld : (s.inodeOpen sector mem).held =
        (s.table.inodeOpen sector mem).1.toList ++ s.held := rfl
    rw [OpenFiles.dirs, hheld, map_append, hkeeps.map_dir fun _ hi => hi]
    refine congrArg (· ++ s.dirs) (map_congr_left fun i hi => ?_)
    rw [hsector i (Option.mem_toList.mp hi)]
  refine ⟨h.accounted.inodeOpen sector hfresh, ?_, ?_⟩
  · rw [hentries]
    exact h.entries
  · rw [hdirs]
    exact h.dirs.append_left _

lemma Shows.inodeReopen (h : s.Shows es ds) (hi : (i, σ) ∈ ds) :
    (s.inodeReopen i).Shows es ((i, σ) :: ds) := by
  have hsector : ∀ j, ((s.inodeReopen i).table.inode j).sector = (s.table.inode j).sector :=
    set_sector (by rfl)
  have hkeeps : Keeps s (s.inodeReopen i) := ⟨fun j _ => hsector j, fun _ _ => rfl⟩
  have hentries : (s.inodeReopen i).entries = s.entries := hkeeps.map_entry fun _ hf => hf
  obtain ⟨j, hj, he⟩ := mem_map.mp (h.dirs.mem_iff.mpr hi)
  obtain ⟨rfl, hσ⟩ := Prod.mk.inj he
  have hdirs : (s.inodeReopen j).dirs = (j, σ) :: s.dirs := by
    have hheld : (s.inodeReopen j).held = j :: s.held := rfl
    rw [OpenFiles.dirs, hheld, map_cons, hkeeps.map_dir fun _ hi => hi, hsector, hσ]
    rfl
  have hopen := (h.accounted.counted.mem_iff j).mp (mem_append_left _ hj)
  refine ⟨h.accounted.inodeReopen hopen, ?_, ?_⟩
  · rw [hentries]
    exact h.entries
  · rw [hdirs]
    exact h.dirs.cons _

lemma Shows.dropHeld (h : s.Shows es ((i, σ) :: ds)) : (s.dropHeld i).Shows es ds := by
  obtain ⟨hi, -, hrest⟩ := h.dir
  have hkeeps : Keeps s (s.dropHeld i) :=
    ⟨fun j _ => inodeClose_sector s.table i j, fun _ _ => rfl⟩
  have hentries : (s.dropHeld i).entries = s.entries := hkeeps.map_entry fun _ hf => hf
  have hdirs : (s.dropHeld i).dirs = (s.held.erase i).map fun i => (i, (s.table.inode i).sector) :=
    hkeeps.map_dir fun _ hj => mem_of_mem_erase hj
  have hinode : ∀ j ∈ some i, j ∈ s.held := fun j hj => Option.some.inj hj ▸ hi
  have hacc : (s.fileOpen (some i) none).2.Accounted := h.accounted.fileOpen hinode nofun
  refine ⟨hacc, ?_, ?_⟩
  · rw [hentries]
    exact h.entries
  · rwa [hdirs]

lemma Shows.fileOpen (h : s.Shows es ((i, σ) :: ds)) (hf : f ∉ s.openFiles) :
    (s.fileOpen (some i) (some f)).2.Shows (⟨f, σ, false⟩ :: es) ds := by
  obtain ⟨hi, hσ, hrest⟩ := h.dir
  have hinode : ∀ j ∈ some i, j ∈ s.held := fun j hj => Option.some.inj hj ▸ hi
  have hfile : ∀ g ∈ some f, g ∉ s.openFiles := fun g hg => Option.some.inj hg ▸ hf
  have hkeeps : Keeps s (s.fileOpen (some i) (some f)).2 :=
    ⟨fun _ _ => rfl, fun g hg => update_of_ne (fun he : g = f => hf (he ▸ hg)) _ _⟩
  have hself : (s.fileOpen (some i) (some f)).2.entry f = ⟨f, σ, false⟩ := by
    have hnew : (s.fileOpen (some i) (some f)).2.file f = ⟨i, 0, false⟩ :=
      update_self _ _ _
    rw [entry, hnew]
    exact congrArg (Entry.mk f · false) hσ
  refine ⟨h.accounted.fileOpen hinode hfile, ?_, hrest⟩
  have hfiles : (s.fileOpen (some i) (some f)).2.openFiles = f :: s.openFiles := rfl
  rw [OpenFiles.entries, hfiles, map_cons, hself, hkeeps.map_entry fun _ hg => hg]
  exact h.entries.cons _

lemma map_entry_erase (h : s.Accounted) (hsector : ∀ j, (s'.table.inode j).sector =
    (s.table.inode j).sector) (hfile : ∀ g, g ≠ f → s'.file g = s.file g) :
    (s.openFiles.erase f).map s'.entry = (s.openFiles.erase f).map s.entry := by
  refine map_congr_left fun g hg => ?_
  have hne : g ≠ f := fun he => h.nodup.not_mem_erase (he ▸ hg)
  rw [entry, entry, hfile g hne, hsector]

lemma fileDenyWrite_openInodes (s : OpenFiles) (f : FilePtr) :
    (s.fileDenyWrite f).table.openInodes = s.table.openInodes := by
  unfold fileDenyWrite
  split <;> rfl

lemma Shows.fileDenyWrite (h : s.Shows (⟨f, σ, deny⟩ :: es) ds) :
    (s.fileDenyWrite f).Shows (⟨f, σ, true⟩ :: es) ds := by
  obtain ⟨hf, he, hrest⟩ := h.file
  have hdeny : (s.file f).denyWrite = deny := congrArg Entry.deny he
  have hacc := (h.accounted.fileDenyWrite hf).1
  unfold OpenFiles.fileDenyWrite at hacc ⊢
  cases deny with
  | true =>
    rwa [if_pos hdeny]
  | false =>
    rw [if_neg (ne_true_of_eq_false hdeny)] at hacc ⊢
    have hsector : ∀ j, ((s.table.inodeDenyWrite (s.file f).inode).inode j).sector =
        (s.table.inode j).sector := set_sector (by rfl)
    refine ⟨hacc, ?_, ?_⟩
    · refine ((perm_cons_erase hf).map _).trans ?_
      rw [map_cons, map_entry_erase h.accounted hsector fun g hg => update_of_ne hg _ _]
      have hself : entry { s with
          table := s.table.inodeDenyWrite (s.file f).inode
          file := update s.file f { s.file f with denyWrite := true } } f =
          ⟨f, σ, true⟩ := by
        dsimp only [entry]
        rw [update_self, hsector]
        exact congrArg (Entry.mk f · true) (congrArg Entry.sector he)
      rw [hself]
      exact hrest.cons _
    · have hdirs := map_congr_left (l := s.held) fun j _ =>
        congrArg (Prod.mk j) (hsector j)
      exact (Perm.of_eq hdirs).trans h.dirs

lemma Shows.remove (h : s.Shows (⟨f, σ, deny⟩ :: es) ds) (hacc : s'.Accounted)
    (hfiles : s'.openFiles = s.openFiles.erase f) (hheld : s'.held = s.held)
    (hsector : ∀ j, (s'.table.inode j).sector = (s.table.inode j).sector)
    (hfile : ∀ g, g ≠ f → s'.file g = s.file g) : s'.Shows es ds := by
  obtain ⟨-, -, hrest⟩ := h.file
  refine ⟨hacc, ?_, ?_⟩
  · rwa [OpenFiles.entries, hfiles, map_entry_erase h.accounted hsector hfile]
  · have hdirs : s'.dirs = s.dirs := by
      rw [OpenFiles.dirs, hheld]
      exact map_congr_left fun j _ => congrArg (Prod.mk j) (hsector j)
    rw [hdirs]
    exact h.dirs

lemma fileAllowWrite_sector (s : OpenFiles) (f : FilePtr) (j : InodePtr) :
    ((s.fileAllowWrite f).table.inode j).sector = (s.table.inode j).sector := by
  unfold fileAllowWrite Files.fileAllowWrite
  dsimp only
  split
  · exact set_sector (t := s.table) (by rfl) j
  · rfl

lemma fileAllowWrite_file (s : OpenFiles) {f g : FilePtr} (hg : g ≠ f) :
    (s.fileAllowWrite f).file g = s.file g := by
  unfold fileAllowWrite Files.fileAllowWrite
  dsimp only
  split
  · exact update_of_ne hg _ _
  · rfl

lemma Shows.fileClose (h : s.Shows (⟨f, σ, deny⟩ :: es) ds) : (s.fileClose f).Shows es ds :=
  h.remove (h.accounted.fileClose h.file.1) rfl rfl
    (fun j => (inodeClose_sector _ _ j).trans (fileAllowWrite_sector s f j))
    fun _ hg => fileAllowWrite_file s hg

lemma Shows.dirCloseFile (h : s.Shows (⟨f, σ, false⟩ :: es) ds) : (s.dirCloseFile f).Shows es ds :=
  h.remove (h.accounted.dropFile h.file.1 (congrArg Entry.deny h.file.2.1)) rfl rfl
    (fun j => inodeClose_sector _ _ j) fun _ _ => rfl

lemma Shows.filesysOpen (h : s.Shows es ds) (sector : Option BlockSector)
    {inode : Option InodePtr} {file : Option FilePtr}
    (hinode : ∀ i ∈ inode, i ∉ s.table.openInodes) (hfile : ∀ f ∈ file, f ∉ s.openFiles) :
    match s.filesysOpen sector inode file with
    | (none, s') => s'.Shows es ds
    | (some f, s') => ∃ σ, sector = some σ ∧ s'.Shows (⟨f, σ, false⟩ :: es) ds := by
  cases sector with
  | none => exact h
  | some sector =>
    have hopen := h.inodeOpen sector hinode
    unfold OpenFiles.filesysOpen
    dsimp only
    cases hi : (s.table.inodeOpen sector inode).1 with
    | none =>
      rwa [hi] at hopen
    | some i =>
      rw [hi] at hopen
      cases file with
      | none => exact hopen.dropHeld
      | some f => exact ⟨sector, rfl, hopen.fileOpen (hfile f rfl)⟩

lemma Shows.dirOpen (h : s.Shows es ((i, σ) :: ds)) (mem : Bool) :
    (s.dirOpen (some i) mem).2.Shows es ((s.dirOpen (some i) mem).1.toList.map (·, σ) ++ ds) := by
  cases mem with
  | false => exact h.dropHeld
  | true => exact h

lemma Shows.dirReopen (h : s.Shows es ds) (hi : (i, σ) ∈ ds) (mem : Bool) :
    (s.dirReopen i mem).2.Shows es ((s.dirReopen i mem).1.toList.map (·, σ) ++ ds) :=
  (h.inodeReopen hi).dirOpen mem

lemma Shows.dirOpenRoot (h : s.Shows es ds) {inode : Option InodePtr}
    (hinode : ∀ i ∈ inode, i ∉ s.table.openInodes) (mem : Bool) :
    (s.dirOpenRoot inode mem).2.Shows es
      ((s.dirOpenRoot inode mem).1.toList.map (·, s.table.fs.rootDirSector) ++ ds) := by
  have hopen := h.inodeOpen s.table.fs.rootDirSector hinode
  unfold OpenFiles.dirOpenRoot
  dsimp only
  cases hi : (s.table.inodeOpen s.table.fs.rootDirSector inode).1 with
  | none =>
    rwa [hi] at hopen
  | some i =>
    rw [hi] at hopen
    exact hopen.dirOpen mem

lemma Shows.dirClose (h : s.Shows es ((i, σ) :: ds)) : (s.dirClose i).Shows es ds := h.dropHeld

end Shows

end OpenFiles

end Pintos.Filesys
