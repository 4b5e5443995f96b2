import Pintos.Filesys.OpenEntries
import Pintos.Userprog.FileTable

/-!
# The references of a program (userprog/process.c, userprog/syscall.c)

The references to inodes that running a program takes, from `process_execute` on, and those
that `process_exit` gives back. `load` opens the executable and closes it only when it fails,
and `start_process` opens it a second time and denies writes to it. `open` adds a descriptor,
and what a descriptor stands for is closed when it is, or by `close_all_file`.
-/

namespace Pintos.Userprog

open Foundation Filesys Function List OpenFiles FileTable

/-- One call of `filesys_open`: the inode its name leads to, and what the allocators return. -/
structure Opening where
  sector : Option BlockSector
  inode : Option InodePtr
  file : Option FilePtr

def Opening.run (o : Opening) (s : OpenFiles) : Option FilePtr × OpenFiles :=
  s.filesysOpen o.sector o.inode o.file

def Opening.Fresh (o : Opening) (s : OpenFiles) : Prop :=
  (∀ i ∈ o.inode, i ∉ s.table.openInodes) ∧ ∀ f ∈ o.file, f ∉ s.openFiles

instance (o : Opening) (s : OpenFiles) : Decidable (o.Fresh s) :=
  inferInstanceAs (Decidable ((∀ i ∈ o.inode, i ∉ s.table.openInodes) ∧
    ∀ f ∈ o.file, f ∉ s.openFiles))

/-- What the start of a program depends on besides the files that are open. -/
structure Launch where
  /-- Whether there is memory for the current directory of the thread. -/
  dirMem : Bool
  /-- Whether `load` gets its page and its page directory. -/
  ready : Bool
  load : Opening
  /-- Whether the header, the segments and the stack are loaded. -/
  loads : Bool
  executable : Opening
  root : Option InodePtr
  rootMem : Bool
  /-- What the memory of descriptor entries holds. -/
  entry : Addr → FileProcess

structure Program where
  files : OpenFiles
  table : FileTable
  curDir : Option InodePtr
  executable : Option FilePtr
  /-- The files that `open` has opened and made no entry for. -/
  unlisted : List (FilePtr × BlockSector)

namespace Launch

def threadCreate (l : Launch) (s : OpenFiles) : Option InodePtr → Option InodePtr × OpenFiles
  | some i => s.dirReopen i l.dirMem
  | none => (none, s)

/-- `load`, which closes the file only if it is not successful. -/
def loadFile (l : Launch) (s : OpenFiles) : Bool × OpenFiles :=
  if l.ready then
    match l.load.run s with
    | (none, s) => (false, s)
    | (some f, s) => if l.loads then (true, s) else (false, s.fileClose f)
  else (false, s)

/-- `if (!cur_dir) cur_dir = dir_open_root ()`. -/
def rootDir (l : Launch) (s : OpenFiles) : Option InodePtr → Option InodePtr × OpenFiles
  | some i => (some i, s)
  | none => s.dirOpenRoot l.root l.rootMem

def newTable (l : Launch) : FileTable := ⟨initFd, [], l.entry, []⟩

/-- `start_process` after `thread_create`; `none` is a failed `ASSERT (file != NULL)`. -/
def startProcess (l : Launch) (s : OpenFiles) (parentDir : Option InodePtr) : Option Program :=
  let (curDir, s) := l.threadCreate s parentDir
  match l.loadFile s with
  | (false, s) => some ⟨s, l.newTable, curDir, none, []⟩
  | (true, s) =>
      match l.executable.run s with
      | (none, _) => none
      | (some f, s) =>
          let (curDir, s) := l.rootDir (s.fileDenyWrite f) curDir
          some ⟨s, l.newTable, curDir, some f, []⟩

/-- The parent owns its current directory, and memory from the allocators is not in use. -/
structure Fresh (l : Launch) (s : OpenFiles) (parentDir : Option InodePtr) : Prop where
  parent : ∀ i ∈ parentDir, i ∈ s.held
  load : l.load.Fresh (l.threadCreate s parentDir).2
  executable : l.executable.Fresh (l.loadFile (l.threadCreate s parentDir).2).2
  root : ∀ i ∈ l.root, i ∉
    (l.executable.run (l.loadFile (l.threadCreate s parentDir).2).2).2.table.openInodes

end Launch

namespace Program

/-- `open`. A `struct dir` begins with its inode as a `struct file` does. -/
def openFile (p : Program) (o : Opening) (mem : Option Addr) : Int × Program :=
  match o.run p.files with
  | (none, files) => (error, { p with files := files })
  | (some f, files) =>
      let inode := files.table.inode (files.file f).inode
      let (fd, table) :=
        if inode.data.subDir then p.table.addDir ⟨f.byte⟩ mem else p.table.addFile f mem
      (fd, { p with
        files := files
        table := table
        unlisted := if mem = none then (f, inode.sector) :: p.unlisted else p.unlisted })

def close (p : Program) (fd : Int) : Program :=
  match p.table.getFile fd with
  | none => p
  | some a =>
      { p with
        files :=
          if (p.table.entry a).isDir = false then p.files.fileClose (p.table.entry a).file
          else p.files.dirCloseFile ⟨(p.table.entry a).dir.byte⟩
        table := p.table.close fd }

def closeAllLoop : Nat → Program → Option Addr → Option Program
  | _, p, none => some p
  | 0, _, some _ => none
  | fuel + 1, p, some e =>
      match FileTable.listNext e p.table.fileList with
      | none => none
      | some next => closeAllLoop fuel (p.close (p.table.entry e).fd) next

def closeAllFile (p : Program) : Option Program :=
  closeAllLoop p.table.fileList.length p p.table.fileList.head?

def closeExecutable (p : Program) : OpenFiles :=
  match p.executable with
  | some f => p.files.fileClose f
  | none => p.files

/-- What `process_exit` does to the files of the system. -/
def processExit (p : Program) : Option OpenFiles :=
  p.closeAllFile.map fun p =>
    match p.curDir with
    | some i => p.closeExecutable.dirClose i
    | none => p.closeExecutable

inductive Op
  | openFile (o : Opening) (mem : Option Addr)
  | close (fd : Int)

def Op.isOpen : Op → Bool
  | .openFile _ _ => true
  | .close _ => false

/-- A program runs if it was loaded; `malloc` does not return the memory of an entry. -/
def step (p : Program) : Op → Option Program
  | .openFile o mem =>
      if p.executable ≠ none ∧ o.Fresh p.files ∧ ∀ a ∈ mem, a ∉ p.table.fileList then
        some (p.openFile o mem).2
      else none
  | .close fd => if p.executable ≠ none then some (p.close fd) else none

def machine (l : Launch) (s : OpenFiles) (parentDir : Option InodePtr) : Machine Program Op where
  start p := l.startProcess s parentDir = some p
  step := step

end Program

def FileProcess.opened (fp : FileProcess) : FilePtr :=
  if fp.isDir = false then fp.file else ⟨fp.dir.byte⟩

namespace Program

variable {p p' : Program} {sec : Addr → BlockSector} {exe τ : BlockSector} {es : List Entry}
  {ds : List (InodePtr × BlockSector)}

def listed (p : Program) (sec : Addr → BlockSector) : List Entry :=
  p.table.fileList.map fun a => ⟨(p.table.entry a).opened, sec a, false⟩

def lost (p : Program) : List Entry := p.unlisted.map fun u => ⟨u.1, u.2, false⟩

/-- Besides `es` and `ds` all that is open belongs to the process: entries `a` of sector `sec a`,
the executable and the current directory. -/
structure Owns (p : Program) (sec : Addr → BlockSector) (exe τ : BlockSector) (es : List Entry)
    (ds : List (InodePtr × BlockSector)) : Prop where
  shows : p.files.Shows
    (p.listed sec ++ (p.executable.toList.map (⟨·, exe, true⟩) ++ (p.lost ++ es)))
    (p.curDir.toList.map (·, τ) ++ ds)
  table : p.table.Ok
  low : initFd ≤ p.table.fd

lemma close_of_none {fd : Int} (h : p.table.getFile fd = none) : p.close fd = p := by
  unfold close
  rw [h]

lemma close_of_some {fd : Int} {a : Addr} (h : p.table.getFile fd = some a) :
    p.close fd = { p with
      files :=
        if (p.table.entry a).isDir = false then p.files.fileClose (p.table.entry a).opened
        else p.files.dirCloseFile (p.table.entry a).opened
      table := { p.table with
        closed := p.table.closed ++ [(p.table.entry a).handle]
        fileList := p.table.fileList.erase a } } := by
  unfold close FileProcess.opened
  rw [h, FileTable.close_of_some h]
  dsimp only
  split <;> rfl

lemma close_fd (p : Program) (fd : Int) : (p.close fd).table.fd = p.table.fd := by
  cases h : p.table.getFile fd with
  | none => rw [close_of_none h]
  | some a => rw [close_of_some h]

section

variable (h : p.Owns sec exe τ es ds)
include h

lemma Owns.close (fd : Int) : (p.close fd).Owns sec exe τ es ds := by
  cases hfind : p.table.getFile fd with
  | none =>
    rwa [close_of_none hfind]
  | some a =>
    have hmem := (h.table.getFile_eq_some.mp hfind).1
    have hlisted : (p.listed sec).Perm (⟨(p.table.entry a).opened, sec a, false⟩ ::
          (p.table.fileList.erase a).map fun a => ⟨(p.table.entry a).opened, sec a, false⟩) :=
      (perm_cons_erase hmem).map _
    have hshows := h.shows.perm (hlisted.append_right _) (Perm.refl _)
    have hok := h.table.close fd
    rw [FileTable.close_of_some hfind] at hok
    rw [close_of_some hfind]
    refine ⟨?_, hok, h.low⟩
    dsimp only
    split
    · exact hshows.fileClose
    · exact hshows.dirCloseFile

lemma Owns.closeAllLoop {l : List Addr} (hl : p.table.fileList = l) :
    ∃ q, Program.closeAllLoop l.length p l.head? = some q ∧ q.Owns sec exe τ es ds ∧
      q.table.fileList = [] ∧ q.executable = p.executable ∧ q.curDir = p.curDir ∧
      q.unlisted = p.unlisted := by
  induction l generalizing p with
  | nil => exact ⟨p, rfl, h, hl, rfl, rfl, rfl⟩
  | cons e l ih =>
    have hfind : p.table.getFile (p.table.entry e).fd = some e :=
      h.table.getFile_eq_some.mpr ⟨by simp [hl], rfl⟩
    have hrest := h.close (p.table.entry e).fd
    have hclose := close_of_some hfind
    rw [hl, erase_cons_head] at hclose
    obtain ⟨q, hq, howns, hempty, hexe, hdir, hunl⟩ := ih hrest (by rw [hclose])
    have hnext : listNext e p.table.fileList = some l.head? := by
      rw [hl, listNext, if_pos rfl]
    refine ⟨q, ?_, howns, hempty, ?_, ?_, ?_⟩
    · rwa [length_cons, head?_cons, Program.closeAllLoop, hnext]
    · rw [hexe, hclose]
    · rw [hdir, hclose]
    · rw [hunl, hclose]

lemma Owns.closeExecutable (hempty : p.table.fileList = []) :
    p.closeExecutable.Shows (p.lost ++ es) (p.curDir.toList.map (·, τ) ++ ds) := by
  have hlisted : p.listed sec = [] := by rw [listed, hempty]; rfl
  have hshows := h.shows
  rw [hlisted] at hshows
  unfold Program.closeExecutable
  cases hexe : p.executable with
  | none =>
    rwa [hexe] at hshows
  | some f =>
    rw [hexe] at hshows
    exact hshows.fileClose

lemma Owns.processExit : ∃ s, p.processExit = some s ∧ s.Shows (p.lost ++ es) ds := by
  obtain ⟨q, hq, howns, hempty, -, -, hunl⟩ := h.closeAllLoop rfl
  have hlost : q.lost = p.lost := by rw [lost, lost, hunl]
  have hshows := howns.closeExecutable hempty
  rw [hlost] at hshows
  refine ⟨_, congrArg (Option.map _) hq, ?_⟩
  dsimp only
  cases hdir : q.curDir with
  | none =>
    rwa [hdir] at hshows
  | some i =>
    rw [hdir] at hshows
    exact hshows.dirClose

lemma Owns.push {a : Addr} {f : FilePtr} {σ : BlockSector} {fp : FileProcess}
    {files : OpenFiles} (hshows : files.Shows
      (⟨f, σ, false⟩ :: (p.listed sec ++ (p.executable.toList.map (⟨·, exe, true⟩) ++
        (p.lost ++ es)))) (p.curDir.toList.map (·, τ) ++ ds))
    (ha : a ∉ p.table.fileList) (hfp : fp.opened = f) (hhigh : p.table.fd < 2147483647) :
    Owns { p with files := files, table := (p.table.push a fp).2 }
      (update sec a σ) exe τ es ds := by
  obtain ⟨hfd, hok⟩ := h.table.push ha fp h.low hhigh
  have hold : (p.table.fileList.map fun b => (⟨((p.table.push a fp).2.entry b).opened,
      update sec a σ b, false⟩ : Entry)) = p.listed sec := by
    refine map_congr_left fun b hb => ?_
    have hne : b ≠ a := fun he => ha (he ▸ hb)
    rw [push_entry ha hb, update_of_ne hne]
  have hlisted : listed { p with files := files, table := (p.table.push a fp).2 }
      (update sec a σ) = p.listed sec ++ [⟨f, σ, false⟩] := by
    have hlist : (p.table.push a fp).2.fileList = p.table.fileList ++ [a] := rfl
    dsimp only [listed]
    rw [hlist, map_append, hold, map_singleton, push_entry_self, update_self]
    exact congrArg (p.listed sec ++ [Entry.mk · σ false]) hfp
  have hlow := h.low
  refine ⟨?_, hok, by dsimp only; omega⟩
  rw [hlisted, append_assoc]
  exact hshows.perm perm_middle.symm (Perm.refl _)

lemma Owns.openFile {o : Opening} {mem : Option Addr}
    (ho : o.Fresh p.files) (hmem : ∀ a ∈ mem, a ∉ p.table.fileList)
    (hhigh : p.table.fd < 2147483647) :
    (∃ sec', (p.openFile o mem).2.Owns sec' exe τ es ds) ∧
      (p.openFile o mem).2.table.fd ≤ p.table.fd + 1 := by
  have hopen := h.shows.filesysOpen o.sector ho.1 ho.2
  unfold Program.openFile Opening.run
  generalize p.files.filesysOpen o.sector o.inode o.file = r at hopen ⊢
  obtain ⟨f, files⟩ := r
  cases f with
  | none => exact ⟨⟨sec, hopen, h.table, h.low⟩, Int.le_add_one (Int.le_refl _)⟩
  | some f =>
    obtain ⟨σ, -, hshows⟩ := hopen
    have hσ : (files.table.inode (files.file f).inode).sector = σ :=
      congrArg Entry.sector hshows.file.2.1
    cases mem with
    | none =>
      have hadd : (if (files.table.inode (files.file f).inode).data.subDir = true then
          p.table.addDir ⟨f.byte⟩ none else p.table.addFile f none) = (error, p.table) := by
        split <;> rfl
      dsimp only
      rw [hadd, if_pos rfl, hσ]
      refine ⟨⟨sec, ?_, h.table, h.low⟩, Int.le_add_one (Int.le_refl _)⟩
      refine hshows.perm ?_ (Perm.refl _)
      exact perm_middle.symm.trans (perm_middle.symm.append_left _)
    | some a =>
      have hadd : ∃ fp : FileProcess, fp.opened = f ∧
          (if (files.table.inode (files.file f).inode).data.subDir = true then
            p.table.addDir ⟨f.byte⟩ (some a) else p.table.addFile f (some a)) =
          p.table.push a fp := by
        split
        · exact ⟨_, rfl, rfl⟩
        · exact ⟨_, rfl, rfl⟩
      obtain ⟨fp, hfp, hpush⟩ := hadd
      have ha := hmem a rfl
      dsimp only
      rw [hpush, if_neg (Option.some_ne_none a)]
      exact ⟨⟨_, h.push hshows ha hfp hhigh⟩, Int.le_of_eq (h.table.push ha fp h.low hhigh).1⟩

lemma Owns.step {op : Op} (hstep : p.step op = some p')
    (hhigh : p.table.fd + (if op.isOpen then 1 else 0) ≤ 2147483647) :
    (∃ sec', p'.Owns sec' exe τ es ds) ∧
      p'.table.fd ≤ p.table.fd + if op.isOpen then 1 else 0 := by
  cases op with
  | openFile o mem =>
    dsimp only [Program.step] at hstep
    rw [Option.ite_none_right_eq_some] at hstep
    obtain ⟨⟨-, ho, hmem⟩, hp⟩ := hstep
    cases hp
    have hlt : p.table.fd + 1 ≤ 2147483647 := hhigh
    exact h.openFile ho hmem (by omega)
  | close fd =>
    dsimp only [Program.step] at hstep
    rw [Option.ite_none_right_eq_some] at hstep
    obtain ⟨-, hp⟩ := hstep
    cases hp
    refine ⟨⟨sec, h.close fd⟩, ?_⟩
    rw [close_fd]
    exact Int.le_of_eq (Int.add_zero _).symm

lemma Owns.run {l : Launch} {s : OpenFiles} {parentDir : Option InodePtr} {ops : List Op}
    (hrun : (machine l s parentDir).run p ops = some p')
    (hhigh : p.table.fd + ops.countP Op.isOpen ≤ 2147483647) :
    ∃ sec', p'.Owns sec' exe τ es ds := by
  induction ops generalizing p sec with
  | nil =>
    cases hrun
    exact ⟨sec, h⟩
  | cons op ops ih =>
    obtain ⟨p₁, hstep, hrun⟩ := Machine.step_of_run_cons hrun
    rw [countP_cons] at hhigh
    have hcast : ((if op.isOpen = true then 1 else 0 : Nat) : Int) =
        if op.isOpen = true then 1 else 0 := by
      split <;> rfl
    rw [Int.natCast_add, hcast] at hhigh
    obtain ⟨⟨sec', hp₁⟩, hfd⟩ := h.step hstep (by omega)
    exact ih hp₁ hrun (by omega)

end

/-! ## The start -/

end Program

namespace Launch

variable {l : Launch} {s : OpenFiles} {parentDir : Option InodePtr} {es : List Entry}
  {ds : List (InodePtr × BlockSector)}

lemma shows_threadCreate (h : s.Shows es ds) (hdir : ∀ i ∈ parentDir, i ∈ s.held) :
    ∃ τ, (l.threadCreate s parentDir).2.Shows es
      ((l.threadCreate s parentDir).1.toList.map (·, τ) ++ ds) := by
  cases parentDir with
  | none => exact ⟨0, h⟩
  | some i =>
    have hmem : (i, (s.table.inode i).sector) ∈ ds :=
      h.dirs.mem_iff.mp (mem_map_of_mem (hdir i rfl))
    exact ⟨_, h.dirReopen hmem l.dirMem⟩

/-- The file of `load` stays open if it is successful. -/
lemma shows_loadFile (h : s.Shows es ds) (hfresh : l.load.Fresh s) :
    match l.loadFile s with
    | (false, s') => s'.Shows es ds
    | (true, s') => ∃ f σ, l.load.sector = some σ ∧ s'.Shows (⟨f, σ, false⟩ :: es) ds := by
  have hopen := h.filesysOpen l.load.sector hfresh.1 hfresh.2
  unfold loadFile Opening.run
  cases l.ready with
  | false => exact h
  | true =>
    generalize s.filesysOpen l.load.sector l.load.inode l.load.file = r at hopen ⊢
    obtain ⟨f, s'⟩ := r
    cases f with
    | none => exact hopen
    | some f =>
      obtain ⟨σ, hσ, hshows⟩ := hopen
      cases l.loads with
      | false => exact hshows.fileClose
      | true => exact ⟨f, σ, hσ, hshows⟩

lemma shows_rootDir {curDir : Option InodePtr} {τ : BlockSector}
    (h : s.Shows es (curDir.toList.map (·, τ) ++ ds))
    (hroot : ∀ i ∈ l.root, i ∉ s.table.openInodes) :
    ∃ τ', (l.rootDir s curDir).2.Shows es ((l.rootDir s curDir).1.toList.map (·, τ') ++ ds) := by
  cases curDir with
  | none => exact ⟨_, Shows.dirOpenRoot h hroot l.rootMem⟩
  | some i => exact ⟨τ, h⟩

lemma newTable_ok (l : Launch) : l.newTable.Ok :=
  ⟨nodup_nil, nofun, nofun⟩

/-- The process owns directory and executable; the file opened by `load` belongs to nothing. -/
lemma startProcess_owns {p : Program} (hs : s.Accounted) (hl : l.Fresh s parentDir)
    (hp : l.startProcess s parentDir = some p) :
    ∃ exe τ loaded, p.Owns (fun _ => 0) exe τ (loaded ++ s.entries) s.dirs ∧
      (∀ e ∈ loaded, e.deny = false) ∧
      (∀ sector, loaded.countP (fun e => e.sector = sector) =
        if p.executable ≠ none ∧ l.load.sector = some sector then 1 else 0) ∧
      p.table.fd = initFd := by
  have hshows : s.Shows s.entries s.dirs := ⟨hs, Perm.refl _, Perm.refl _⟩
  obtain ⟨τ, hcreate⟩ := shows_threadCreate (l := l) hshows hl.parent
  have hload := shows_loadFile hcreate hl.load
  have hexe := hl.executable
  have hroot := hl.root
  unfold startProcess at hp
  dsimp only at hp
  generalize l.loadFile (l.threadCreate s parentDir).2 = r at hload hexe hroot hp
  obtain ⟨loaded, s₁⟩ := r
  cases loaded with
  | false =>
    cases hp
    refine ⟨0, τ, [], ⟨hload, l.newTable_ok, Int.le_refl _⟩, nofun, fun sector => ?_, rfl⟩
    simp
  | true =>
    obtain ⟨f, σ, hσ, hloaded⟩ := hload
    have hopen := hloaded.filesysOpen l.executable.sector hexe.1 hexe.2
    dsimp only [Opening.run] at hp hroot
    generalize s₁.filesysOpen l.executable.sector l.executable.inode l.executable.file = r
      at hopen hroot hp
    obtain ⟨g, s₂⟩ := r
    cases g with
    | none => cases hp
    | some g =>
      obtain ⟨exe, -, hopened⟩ := hopen
      obtain ⟨τ', hdir⟩ := shows_rootDir (l := l) hopened.fileDenyWrite (by
        rw [fileDenyWrite_openInodes]
        exact hroot)
      cases hp
      refine ⟨exe, τ', [⟨f, σ, false⟩], ⟨hdir, l.newTable_ok, Int.le_refl _⟩, by simp,
        fun sector => ?_, rfl⟩
      simp [hσ, countP_cons]

end Launch

namespace Program

/-- A successful load leaves one reference to the executable, and every `open` without memory for
its entry one to its file. All others are given back, and denied writes allowed again. -/
theorem processExit_references {l : Launch} {s : OpenFiles} {parentDir : Option InodePtr}
    {p q : Program} {ops : List Op} (hs : s.Accounted) (hl : l.Fresh s parentDir)
    (hp : l.startProcess s parentDir = some p)
    (hrun : (machine l s parentDir).run p ops = some q)
    (hopens : ops.countP Op.isOpen < 2147483646) :
    ∃ s', q.processExit = some s' ∧ ∀ sector,
      s'.openCnt sector = s.openCnt sector +
        (if p.executable ≠ none ∧ l.load.sector = some sector then 1 else 0) +
        q.unlisted.countP (fun u => u.2 = sector) ∧
      s'.denyWriteCnt sector = s.denyWriteCnt sector := by
  obtain ⟨exe, τ, loaded, howns, hallow, hloaded, hfd⟩ := Launch.startProcess_owns hs hl hp
  obtain ⟨sec, hq⟩ := howns.run hrun (by rw [hfd, initFd]; omega)
  obtain ⟨s', hs', hshows⟩ := hq.processExit
  refine ⟨s', hs', fun sector => ⟨?_, ?_⟩⟩
  · rw [hshows.accounted.openCnt_eq, hs.openCnt_eq, hshows.entries.countP_eq,
      hshows.dirs.countP_eq, countP_append, countP_append, hloaded, lost, countP_map]
    have hlost : q.unlisted.countP ((fun e => decide (e.sector = sector)) ∘
        fun u => (⟨u.1, u.2, false⟩ : Entry)) = q.unlisted.countP fun u => u.2 = sector := rfl
    rw [hlost]
    split <;> push_cast <;> omega
  · have hlost : q.lost.countP (fun e => e.sector = sector ∧ e.deny = true) = 0 := by
      rw [lost, countP_map]
      exact countP_eq_zero.mpr fun u _ => by simp
    have hzero : loaded.countP (fun e => e.sector = sector ∧ e.deny = true) = 0 :=
      countP_eq_zero.mpr fun e he => by simp [hallow e he]
    rw [hshows.accounted.denyWriteCnt_eq, hs.denyWriteCnt_eq, hshows.entries.countP_eq,
      countP_append, countP_append, hlost, hzero]
    simp

/-- A program at sector 2 is started by a thread without a current directory. -/
def firstProgram : Launch where
  dirMem := true
  ready := true
  load := ⟨some 2, some ⟨0⟩, some ⟨0⟩⟩
  loads := true
  executable := ⟨some 2, none, some ⟨1⟩⟩
  root := some ⟨1⟩
  rootMem := true
  entry := fun _ => ⟨⟨0⟩, ⟨0⟩, 0, false⟩

/-- It opens sector 3 twice, the second time without memory, and closes the first. -/
def opensTwice : List Op :=
  [.openFile ⟨some 3, some ⟨2⟩, some ⟨2⟩⟩ (some ⟨0⟩), .openFile ⟨some 3, none, some ⟨3⟩⟩ none,
    .close 2]

theorem processExit_references_opensTwice :
    ∃ p q s', firstProgram.startProcess OpenFiles.noFiles none = some p ∧
      (machine firstProgram OpenFiles.noFiles none).run p opensTwice = some q ∧
      q.processExit = some s' ∧ s'.openCnt 2 = 1 ∧ s'.openCnt 3 = 1 ∧ s'.denyWriteCnt 2 = 0 := by
  have hruns : ((firstProgram.startProcess noFiles none).bind fun p =>
      ((machine firstProgram noFiles none).run p opensTwice).map fun q =>
        (p.executable, q.unlisted)) = some (some ⟨1⟩, [(⟨3⟩, 3)]) := by decide +kernel
  obtain ⟨p, hp, hrun⟩ := Option.bind_eq_some_iff.mp hruns
  obtain ⟨q, hq, hlists⟩ := Option.map_eq_some_iff.mp hrun
  obtain ⟨hexe, hunl⟩ := Prod.mk.inj hlists
  have hs : noFiles.Accounted :=
    accounted_of_reachable (.start ⟨rfl, rfl, rfl⟩)
  have hl : firstProgram.Fresh noFiles none :=
    ⟨nofun, by decide +kernel, by decide +kernel, by decide +kernel⟩
  obtain ⟨s', hs', hcounts⟩ := processExit_references hs hl hp hq (by decide)
  refine ⟨p, q, s', hp, hq, hs', ?_, ?_, ?_⟩
  · rw [(hcounts 2).1, hexe, hunl]
    rfl
  · rw [(hcounts 3).1, hexe, hunl]
    rfl
  · exact (hcounts 2).2

/-- The program opens a file, closes it and exits; its executable was not open before. -/
theorem processExit_leaves_executable_open :
    OpenFiles.noFiles.openCnt 2 = 0 ∧
      ((firstProgram.startProcess OpenFiles.noFiles none).bind fun p =>
        ((machine firstProgram OpenFiles.noFiles none).run p
          [.openFile ⟨some 3, some ⟨2⟩, some ⟨2⟩⟩ (some ⟨0⟩), .close 2]).bind fun q =>
            q.processExit.map fun s => (s.openCnt 2, s.openCnt 3, s.denyWriteCnt 2)) =
        some (1, 0, 0) := by
  decide +kernel

end Program

end Pintos.Userprog
