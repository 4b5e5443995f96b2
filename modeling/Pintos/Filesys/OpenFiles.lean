import Pintos.Foundation.Transition
import Pintos.Filesys.OpenInodes

/-!
# Open files and denied writes (filesys/file.c)

Every open file owns one reference to its inode, and may deny writes to it once. The
counters of an inode are shown to mirror this: `open_cnt` is the number of its references
and `deny_write_cnt` the number of its files with `deny_write` set, whatever files are
opened, reopened and closed. A reference that `inode_open` has returned and `file_open` has
not taken yet is held by the caller.
-/

namespace Pintos.Filesys

open Foundation Function List InodeTable

/-- The inodes in use by the open files of a list, and those they deny writes to. -/
def usersOf (file : FilePtr → File) (files : List FilePtr) : List InodePtr :=
  files.map fun f => (file f).inode

def deniersOf (file : FilePtr → File) (files : List FilePtr) : List InodePtr :=
  usersOf file (files.filter fun f => (file f).denyWrite)

structure OpenFiles where
  table : InodeTable
  file : FilePtr → File
  openFiles : List FilePtr
  /-- References that are not owned by a file. -/
  held : List InodePtr

namespace OpenFiles

def toFiles (s : OpenFiles) : Files := ⟨s.table.fs, s.table.inode, s.file⟩

def inodeOpen (s : OpenFiles) (sector : BlockSector) (mem : Option InodePtr) : OpenFiles :=
  let (i, table) := s.table.inodeOpen sector mem
  { s with table := table, held := i.toList ++ s.held }

/-- `file_open`; `mem` is what `calloc` returns. Without memory the inode is closed. -/
def fileOpen (s : OpenFiles) (inode : Option InodePtr) (mem : Option FilePtr) :
    Option FilePtr × OpenFiles :=
  match inode, mem with
  | some i, some f =>
      (some f, { s with
        file := Function.update s.file f ⟨i, 0, false⟩
        openFiles := f :: s.openFiles
        held := s.held.erase i })
  | some i, none => (none, { s with table := s.table.inodeClose i, held := s.held.erase i })
  | none, _ => (none, s)

def inodeReopen (s : OpenFiles) (i : InodePtr) : OpenFiles :=
  { s with table := s.table.inodeReopen i, held := i :: s.held }

def fileReopen (s : OpenFiles) (f : FilePtr) (mem : Option FilePtr) : Option FilePtr × OpenFiles :=
  (s.inodeReopen (s.file f).inode).fileOpen (some (s.file f).inode) mem

def fileDenyWrite (s : OpenFiles) (f : FilePtr) : OpenFiles :=
  if (s.file f).denyWrite then s
  else { s with
    table := s.table.inodeDenyWrite (s.file f).inode
    file := Function.update s.file f { s.file f with denyWrite := true } }

def fileAllowWrite (s : OpenFiles) (f : FilePtr) : OpenFiles :=
  let t := s.toFiles.fileAllowWrite f
  { s with table := { s.table with fs := t.fs, inode := t.inode }, file := t.file }

def fileClose (s : OpenFiles) (f : FilePtr) : OpenFiles :=
  let s := s.fileAllowWrite f
  { s with
    table := s.table.inodeClose (s.file f).inode
    openFiles := s.openFiles.erase f }

def fileWriteAt (s : OpenFiles) (f : FilePtr) (buffer : Nat → UInt8) (size : Int)
    (offset : Nat) : Nat × OpenFiles :=
  let (bytesWritten, table) := s.table.inodeWriteAt (s.file f).inode buffer size offset
  (bytesWritten, { s with table := table })

inductive Op
  | inodeOpen (sector : BlockSector) (mem : Option InodePtr)
  | fileOpen (inode : Option InodePtr) (mem : Option FilePtr)
  | fileReopen (f : FilePtr) (mem : Option FilePtr)
  | fileDenyWrite (f : FilePtr)
  | fileAllowWrite (f : FilePtr)
  | fileClose (f : FilePtr)
  | fileWriteAt (f : FilePtr) (buffer : Nat → UInt8) (size : Int) (offset : Nat)

/-- What callers and allocator promise: memory is fresh, references are held, files are open. -/
def Op.Enabled (s : OpenFiles) : Op → Prop
  | .inodeOpen _ mem => ∀ i ∈ mem, i ∉ s.table.openInodes
  | .fileOpen inode mem => (∀ i ∈ inode, i ∈ s.held) ∧ ∀ f ∈ mem, f ∉ s.openFiles
  | .fileReopen f mem => f ∈ s.openFiles ∧ ∀ f ∈ mem, f ∉ s.openFiles
  | .fileDenyWrite f => f ∈ s.openFiles
  | .fileAllowWrite f => f ∈ s.openFiles
  | .fileClose f => f ∈ s.openFiles
  | .fileWriteAt f _ _ _ => f ∈ s.openFiles

instance (s : OpenFiles) : (op : Op) → Decidable (op.Enabled s)
  | .inodeOpen _ mem => inferInstanceAs (Decidable (∀ i ∈ mem, i ∉ s.table.openInodes))
  | .fileOpen inode mem =>
    inferInstanceAs (Decidable ((∀ i ∈ inode, i ∈ s.held) ∧ ∀ f ∈ mem, f ∉ s.openFiles))
  | .fileReopen f mem =>
    inferInstanceAs (Decidable (f ∈ s.openFiles ∧ ∀ f ∈ mem, f ∉ s.openFiles))
  | .fileDenyWrite f => inferInstanceAs (Decidable (f ∈ s.openFiles))
  | .fileAllowWrite f => inferInstanceAs (Decidable (f ∈ s.openFiles))
  | .fileClose f => inferInstanceAs (Decidable (f ∈ s.openFiles))
  | .fileWriteAt f _ _ _ => inferInstanceAs (Decidable (f ∈ s.openFiles))

def Op.exec (s : OpenFiles) : Op → OpenFiles
  | .inodeOpen sector mem => s.inodeOpen sector mem
  | .fileOpen inode mem => (s.fileOpen inode mem).2
  | .fileReopen f mem => (s.fileReopen f mem).2
  | .fileDenyWrite f => s.fileDenyWrite f
  | .fileAllowWrite f => s.fileAllowWrite f
  | .fileClose f => s.fileClose f
  | .fileWriteAt f buffer size offset => (s.fileWriteAt f buffer size offset).2

def machine : Machine OpenFiles Op where
  start s := s.table.openInodes = [] ∧ s.openFiles = [] ∧ s.held = []
  step s op := if op.Enabled s then some (op.exec s) else none

/-- The operations on files and inodes alone are those used elsewhere. -/
lemma fileClose_toFiles (s : OpenFiles) (f : FilePtr) :
    (s.fileClose f).toFiles = s.toFiles.fileClose f := by
  unfold fileClose Files.fileClose fileAllowWrite InodeTable.inodeClose toFiles
  dsimp only
  generalize Files.fileAllowWrite _ f = t
  generalize Filesys.inodeClose t.fs (t.inode (t.file f).inode) = r
  obtain ⟨inode, fs⟩ := r
  cases inode <;> rfl

def users (s : OpenFiles) : List InodePtr := usersOf s.file s.openFiles

def deniers (s : OpenFiles) : List InodePtr := deniersOf s.file s.openFiles

end OpenFiles

section Lists

variable {file file' : FilePtr → File} {files files' : List FilePtr} {f : FilePtr}

lemma usersOf_congr (h : ∀ f ∈ files, (file' f).inode = (file f).inode) :
    usersOf file' files = usersOf file files :=
  map_congr_left h

lemma usersOf_perm (h : files.Perm files') : (usersOf file files).Perm (usersOf file files') :=
  h.map _

lemma deniersOf_congr (h : ∀ f ∈ files, file' f = file f) :
    deniersOf file' files = deniersOf file files := by
  have hfilter : files.filter (fun f => (file' f).denyWrite) =
      files.filter fun f => (file f).denyWrite :=
    filter_congr fun f hf => by rw [h f hf]
  rw [deniersOf, deniersOf, hfilter]
  exact usersOf_congr fun f hf => by rw [h f (mem_filter.mp hf).1]

lemma deniersOf_perm (h : files.Perm files') :
    (deniersOf file files).Perm (deniersOf file files') :=
  usersOf_perm (h.filter _)

lemma deniersOf_cons :
    deniersOf file (f :: files) =
      if (file f).denyWrite then (file f).inode :: deniersOf file files
      else deniersOf file files := by
  unfold deniersOf
  rw [filter_cons]
  split <;> rfl

lemma count_deniersOf_le (i : InodePtr) :
    (deniersOf file files).count i ≤ (usersOf file files).count i :=
  (filter_sublist.map _).count_le i

lemma mem_deniersOf {i : InodePtr} :
    i ∈ deniersOf file files ↔ ∃ f ∈ files, (file f).inode = i ∧ (file f).denyWrite = true := by
  simp only [deniersOf, usersOf, mem_map, mem_filter]
  exact ⟨fun ⟨f, ⟨hf, hd⟩, hi⟩ => ⟨f, hf, hi, hd⟩, fun ⟨f, hf, hi, hd⟩ => ⟨f, ⟨hf, hd⟩, hi⟩⟩

end Lists

namespace OpenFiles

/-! ## The invariant -/

structure Accounted (s : OpenFiles) : Prop where
  counted : s.table.Counted (s.held ++ s.users)
  nodup : s.openFiles.Nodup
  denied : ∀ i ∈ s.table.openInodes, (s.table.inode i).denyWriteCnt = s.deniers.count i

variable {s : OpenFiles} {f : FilePtr}

section

variable (h : s.Accounted)
include h

lemma Accounted.inode_mem (hf : f ∈ s.openFiles) : (s.file f).inode ∈ s.table.openInodes :=
  (h.counted.mem_iff _).mp (mem_append_right _ (mem_map_of_mem hf))

lemma Accounted.split (hf : f ∈ s.openFiles) :
    s.openFiles.Perm (f :: s.openFiles.erase f) ∧ f ∉ s.openFiles.erase f :=
  ⟨perm_cons_erase hf, h.nodup.not_mem_erase⟩

lemma Accounted.denied_le {i : InodePtr} (hi : i ∈ s.table.openInodes) :
    (s.table.inode i).denyWriteCnt ≤ (s.table.inode i).openCnt := by
  have hle : s.deniers.count i ≤ s.users.count i := count_deniersOf_le i
  rw [h.denied i hi, h.counted.count i hi, count_append]
  omega

lemma Accounted.inodeOpen (sector : BlockSector) {mem : Option InodePtr}
    (hfresh : ∀ i ∈ mem, i ∉ s.table.openInodes) : (s.inodeOpen sector mem).Accounted := by
  have hcounted := h.counted.inodeOpen sector hfresh
  rw [← append_assoc] at hcounted
  refine ⟨hcounted, h.nodup, ?_⟩
  unfold OpenFiles.inodeOpen InodeTable.inodeOpen
  cases hl : s.table.lookup sector with
  | some i =>
    intro j hj
    exact (set_field Inode.denyWriteCnt (by rfl) j).trans (h.denied j hj)
  | none =>
    cases mem with
    | none => exact h.denied
    | some i =>
      intro j hj
      dsimp only
      by_cases he : j = i
      · -- no file refers to memory that was not in use
        subst he
        have hnone : j ∉ s.deniers := by
          intro hd
          obtain ⟨f, hf, hi, -⟩ := mem_deniersOf.mp hd
          exact hfresh j rfl (hi ▸ h.inode_mem hf)
        rw [update_self]
        exact (congrArg Nat.cast (count_eq_zero.mpr hnone)).symm
      · rw [update_of_ne he]
        exact h.denied j ((mem_cons.mp hj).resolve_left he)

lemma Accounted.inodeReopen {i : InodePtr} (hi : i ∈ s.table.openInodes) :
    (s.inodeReopen i).Accounted := by
  refine ⟨h.counted.reopen hi, h.nodup, fun j hj => ?_⟩
  exact (set_field Inode.denyWriteCnt (by rfl) j).trans (h.denied j hj)

end

lemma inodeClose_denyWriteCnt (t : InodeTable) (i j : InodePtr) :
    ((t.inodeClose i).inode j).denyWriteCnt = (t.inode j).denyWriteCnt := by
  by_cases hlast : (t.inode i).openCnt = 1
  · rw [inodeClose_of_one hlast]
  · rw [inodeClose_of_ne_one hlast]
    exact set_field Inode.denyWriteCnt (by rfl) j

lemma inodeClose_openInodes_sub (t : InodeTable) (i : InodePtr) :
    ∀ j ∈ (t.inodeClose i).openInodes, j ∈ t.openInodes := by
  intro j hj
  by_cases hlast : (t.inode i).openCnt = 1
  · rw [inodeClose_of_one hlast] at hj
    exact mem_of_mem_erase hj
  · rwa [inodeClose_of_ne_one hlast] at hj

lemma Accounted.fileOpen (h : s.Accounted) {inode : Option InodePtr} {mem : Option FilePtr}
    (hheld : ∀ i ∈ inode, i ∈ s.held) (hfresh : ∀ f ∈ mem, f ∉ s.openFiles) :
    (s.fileOpen inode mem).2.Accounted := by
  cases inode with
  | none => exact h
  | some i =>
    have hi := hheld i rfl
    cases mem with
    | none =>
      have hcounted := h.counted.inodeClose (mem_append_left s.users hi)
      rw [erase_append_left _ hi] at hcounted
      refine ⟨hcounted, h.nodup, fun j hj => ?_⟩
      exact (inodeClose_denyWriteCnt _ i j).trans (h.denied j (inodeClose_openInodes_sub _ i j hj))
    | some f =>
      have hnew := hfresh f rfl
      have hold : ∀ g ∈ s.openFiles, update s.file f ⟨i, 0, false⟩ g = s.file g :=
        fun g hg => update_of_ne (fun he : g = f => hnew (he ▸ hg)) _ _
      have hself : update s.file f ⟨i, 0, false⟩ f = ⟨i, 0, false⟩ :=
        update_self _ _ _
      have husers : usersOf (update s.file f ⟨i, 0, false⟩) (f :: s.openFiles) = i :: s.users := by
        rw [usersOf, map_cons, hself]
        exact congrArg _ (usersOf_congr fun g hg => by rw [hold g hg])
      refine ⟨?_, nodup_cons.mpr ⟨hnew, h.nodup⟩, fun j hj => ?_⟩
      · -- the reference changes its owner
        refine h.counted.perm ?_
        dsimp only [OpenFiles.fileOpen, users]
        rw [husers]
        calc
          Perm (s.held ++ s.users) (i :: s.held.erase i ++ s.users) :=
            (perm_cons_erase hi).append_right _
          Perm _ (s.held.erase i ++ i :: s.users) := perm_middle.symm
      · dsimp only [OpenFiles.fileOpen, deniers]
        rw [deniersOf_cons, hself, if_neg Bool.false_ne_true, deniersOf_congr hold]
        exact h.denied j hj

section

variable (h : s.Accounted) (hf : f ∈ s.openFiles)
include h hf

/-- Changing `deny_write` of one file, and the counter of its inode with it. -/
lemma Accounted.setDeny {file : File} {inode : Inode}
    (fs : FileSys) (hinode : file.inode = (s.file f).inode)
    (huse : SameUse (s.table.inode (s.file f).inode) inode)
    (hcnt : inode.denyWriteCnt + (s.file f).denyWrite.toNat =
      (s.table.inode (s.file f).inode).denyWriteCnt + file.denyWrite.toNat) :
    Accounted { s with
      table := { s.table.set (s.file f).inode inode with fs := fs }
      file := update s.file f file } := by
  obtain ⟨hperm, hnot⟩ := h.split hf
  have hold : ∀ g ∈ s.openFiles.erase f, update s.file f file g = s.file g :=
    fun g hg => update_of_ne (fun he : g = f => hnot (he ▸ hg)) _ _
  have hself : update s.file f file f = file := update_self _ _ _
  have husers : usersOf (update s.file f file) s.openFiles = s.users := by
    refine usersOf_congr fun g _ => ?_
    by_cases he : g = f
    · rw [he, hself, hinode]
    · rw [update_of_ne he]
  -- before and after, the deniers are those among the other files and perhaps this one
  have hcount : ∀ (g : FilePtr → File) (j : InodePtr), (deniersOf g s.openFiles).count j =
      (deniersOf g (f :: s.openFiles.erase f)).count j :=
    fun g j => (deniersOf_perm hperm).count_eq j
  refine ⟨?_, h.nodup, fun j hj => ?_⟩
  · dsimp only [users]
    rw [husers]
    exact h.counted.of_sameUse rfl (sameUse_set huse)
  · have hden := h.denied j hj
    rw [deniers, hcount, deniersOf_cons] at hden
    dsimp only [deniers]
    rw [hcount, deniersOf_cons, hself, deniersOf_congr hold, hinode, set_inode]
    by_cases he : j = (s.file f).inode
    · subst he
      rw [if_pos rfl]
      cases hd : (s.file f).denyWrite <;> cases hd' : file.denyWrite <;>
        simp [hd, hd'] at hden hcnt ⊢ <;> omega
    · rw [if_neg he, hden]
      cases (s.file f).denyWrite <;> cases file.denyWrite <;>
        simp [count_cons_of_ne (Ne.symm he)]

/-- `ASSERT (inode->deny_write_cnt <= inode->open_cnt)` of `inode_deny_write`. -/
lemma Accounted.deny_room (hd : (s.file f).denyWrite = false) :
    (s.table.inode (s.file f).inode).denyWriteCnt + 1 ≤
      (s.table.inode (s.file f).inode).openCnt := by
  obtain ⟨hperm, -⟩ := h.split hf
  have hi := h.inode_mem hf
  -- this file is a user and no denier; among the others there are no more deniers than users
  have husers : s.users.count (s.file f).inode =
      (usersOf s.file (s.openFiles.erase f)).count (s.file f).inode + 1 := by
    rw [users, (usersOf_perm hperm).count_eq, usersOf, map_cons, count_cons_self]
    rfl
  have hdeniers : s.deniers.count (s.file f).inode =
      (deniersOf s.file (s.openFiles.erase f)).count (s.file f).inode := by
    rw [deniers, (deniersOf_perm hperm).count_eq, deniersOf_cons, hd, if_neg Bool.false_ne_true]
  have hle : (deniersOf s.file (s.openFiles.erase f)).count (s.file f).inode ≤
      (usersOf s.file (s.openFiles.erase f)).count (s.file f).inode := count_deniersOf_le _
  rw [h.denied _ hi, h.counted.count _ hi, count_append]
  omega

lemma Accounted.fileDenyWrite :
    (s.fileDenyWrite f).Accounted ∧ (s.fileDenyWrite f).table.fs = s.table.fs := by
  unfold OpenFiles.fileDenyWrite inodeDenyWrite
  cases hd : (s.file f).denyWrite with
  | true => exact ⟨h, rfl⟩
  | false =>
    refine ⟨h.setDeny hf _ rfl ⟨rfl, rfl⟩ ?_, if_pos (h.deny_room hf hd)⟩
    simp [hd]

end

lemma fileAllowWrite_of_not_denying (hd : (s.file f).denyWrite = false) :
    s.fileAllowWrite f = s := by
  unfold OpenFiles.fileAllowWrite Files.fileAllowWrite
  rw [if_neg (by simpa [toFiles] using hd)]
  rfl

section

variable (h : s.Accounted) (hf : f ∈ s.openFiles)
include h hf

lemma Accounted.fileAllowWrite :
    (s.fileAllowWrite f).Accounted ∧ (s.fileAllowWrite f).table.fs = s.table.fs ∧
      ((s.fileAllowWrite f).file f).denyWrite = false := by
  cases hd : (s.file f).denyWrite with
  | false =>
    rw [fileAllowWrite_of_not_denying hd]
    exact ⟨h, rfl, hd⟩
  | true =>
    have hi := h.inode_mem hf
    have hpos : 0 < (s.table.inode (s.file f).inode).denyWriteCnt := by
      have := count_pos_iff.mpr (mem_deniersOf.mpr ⟨f, hf, rfl, hd⟩)
      rw [h.denied _ hi]
      exact Int.natCast_pos.mpr this
    unfold OpenFiles.fileAllowWrite Files.fileAllowWrite
    rw [if_pos (by simpa [toFiles] using hd)]
    refine ⟨h.setDeny hf _ rfl ⟨rfl, rfl⟩ ?_, if_pos ⟨hpos, h.denied_le hi⟩, ?_⟩
    · simp [toFiles, hd]
    · simp [toFiles]

lemma Accounted.dropFile (hd : (s.file f).denyWrite = false) :
    Accounted { s with
      table := s.table.inodeClose (s.file f).inode
      openFiles := s.openFiles.erase f } := by
  obtain ⟨hperm, -⟩ := h.split hf
  have husers : s.users.Perm ((s.file f).inode :: usersOf s.file (s.openFiles.erase f)) :=
    usersOf_perm hperm
  have hrefs : (s.held ++ s.users).Perm
      ((s.file f).inode :: (s.held ++ usersOf s.file (s.openFiles.erase f))) :=
    (husers.append_left s.held).trans perm_middle
  have hmem : (s.file f).inode ∈ s.held ++ s.users :=
    mem_append_right _ (mem_map_of_mem hf)
  refine ⟨?_, h.nodup.erase f, fun j hj => ?_⟩
  · refine (h.counted.inodeClose hmem).perm ((hrefs.erase _).trans ?_)
    rw [erase_cons_head]
    exact Perm.refl _
  · have hden := h.denied j (inodeClose_openInodes_sub _ _ j hj)
    rw [deniers, (deniersOf_perm hperm).count_eq, deniersOf_cons, hd,
      if_neg Bool.false_ne_true] at hden
    exact (inodeClose_denyWriteCnt _ _ j).trans hden

lemma Accounted.fileClose : (s.fileClose f).Accounted := by
  obtain ⟨hacc, -, hd⟩ := h.fileAllowWrite hf
  exact hacc.dropFile hf hd

end

lemma Accounted.fileWriteAt (h : s.Accounted) (f : FilePtr) (buffer : Nat → UInt8) (size : Int)
    (offset : Nat) : (s.fileWriteAt f buffer size offset).2.Accounted := by
  have hdeny := (inodeWriteAt_header s.table.fs (s.table.inode (s.file f).inode)
    buffer size offset).2.1
  refine ⟨h.counted.inodeWriteAt _ buffer size offset, h.nodup, fun j hj => ?_⟩
  exact (set_field Inode.denyWriteCnt hdeny j).trans (h.denied j hj)

lemma Accounted.step (h : s.Accounted) {op : Op} (hop : op.Enabled s) : (op.exec s).Accounted := by
  cases op with
  | inodeOpen sector mem => exact h.inodeOpen sector hop
  | fileOpen inode mem => exact h.fileOpen hop.1 hop.2
  | fileReopen f mem =>
    refine (h.inodeReopen (h.inode_mem hop.1)).fileOpen ?_ hop.2
    intro i hi
    cases hi
    exact mem_cons_self
  | fileDenyWrite f => exact (h.fileDenyWrite hop).1
  | fileAllowWrite f => exact (h.fileAllowWrite hop).1
  | fileClose f => exact h.fileClose hop
  | fileWriteAt f buffer size offset => exact h.fileWriteAt f buffer size offset

lemma accounted_of_reachable (h : machine.Reachable s) : s.Accounted := by
  refine h.invariant ?_ ?_
  · rintro s ⟨hinodes, hfiles, hheld⟩
    have husers : s.users = [] := by rw [users, hfiles]; rfl
    refine ⟨⟨?_, ?_, ?_, ?_⟩, ?_, ?_⟩ <;> simp [hinodes, hfiles, hheld, husers]
  · intro s op s' hs hstep
    dsimp only [machine] at hstep
    split at hstep
    case isTrue hop =>
        cases hstep
        exact hs.step hop
    case isFalse => cases hstep

lemma count_users (s : OpenFiles) (i : InodePtr) :
    s.users.count i = s.openFiles.countP fun f => (s.file f).inode = i := by
  rw [users, usersOf, count, countP_map]
  rfl

lemma count_deniers (s : OpenFiles) (i : InodePtr) :
    s.deniers.count i =
      s.openFiles.countP fun f => (s.file f).inode = i ∧ (s.file f).denyWrite = true := by
  rw [deniers, deniersOf, usersOf, count, countP_map, countP_filter]
  refine countP_congr fun f _ => ?_
  simp

/-- In any sequence of calls the counters of an open inode are the numbers of its files and of its
denying files, so no assertion fails and a write is refused exactly while some file denies it. -/
theorem openFiles_accounting (h : machine.Reachable s) :
    (∀ i ∈ s.table.openInodes,
      (s.table.inode i).openCnt =
        (s.openFiles.countP fun f => (s.file f).inode = i) + s.held.count i ∧
      (i ∉ s.held → (s.table.inode i).openCnt =
        s.openFiles.countP fun f => (s.file f).inode = i) ∧
      (s.table.inode i).denyWriteCnt =
        s.openFiles.countP fun f => (s.file f).inode = i ∧ (s.file f).denyWrite = true) ∧
    (∀ f ∈ s.openFiles, (s.file f).inode ∈ s.table.openInodes ∧
      (s.fileDenyWrite f).table.fs = s.table.fs ∧
      (s.fileAllowWrite f).table.fs = s.table.fs) ∧
    ∀ i ∈ s.table.openInodes, ∀ (buffer : Nat → UInt8) (size : Int) (offset : Nat),
      ((∃ f ∈ s.openFiles, (s.file f).inode = i ∧ (s.file f).denyWrite = true) →
        s.table.inodeWriteAt i buffer size offset = (0, s.table)) ∧
      ((∀ f ∈ s.openFiles, (s.file f).inode = i → (s.file f).denyWrite = false) →
        Filesys.inodeWriteAt s.table.fs (s.table.inode i) buffer size offset =
          let (inode, fs) := extendTo s.table.fs (s.table.inode i) (wrap32 (offset + size))
          let (bytesWritten, fs) := inodeWriteLoop inode buffer size.toNat fs size offset 0
          (bytesWritten, inode, fs)) := by
  have hacc := accounted_of_reachable h
  refine ⟨fun i hi => ?_, fun f hf => ?_, fun i hi buffer size offset => ⟨?_, ?_⟩⟩
  · have hopen : (s.table.inode i).openCnt =
        (s.openFiles.countP fun f => (s.file f).inode = i) + s.held.count i := by
      rw [hacc.counted.count i hi, count_append, count_users]
      omega
    refine ⟨hopen, fun hheld => ?_, ?_⟩
    · rw [hopen, count_eq_zero.mpr hheld]
      omega
    · rw [hacc.denied i hi, count_deniers]
  · exact ⟨hacc.inode_mem hf, (hacc.fileDenyWrite hf).2, (hacc.fileAllowWrite hf).2.1⟩
  · intro hden
    have hpos := count_pos_iff.mpr (mem_deniersOf.mpr hden)
    have hne : (s.table.inode i).denyWriteCnt ≠ 0 := by
      rw [hacc.denied i hi, deniers]
      omega
    have hrefused : Filesys.inodeWriteAt s.table.fs (s.table.inode i) buffer size offset =
        (0, s.table.inode i, s.table.fs) := by
      rw [Filesys.inodeWriteAt, if_pos hne]
    rw [InodeTable.inodeWriteAt, hrefused]
    simp [InodeTable.set]
  · intro hnone
    have hzero : s.deniers.count i = 0 := by
      refine count_eq_zero.mpr fun hmem => ?_
      obtain ⟨f, hf, hi, hd⟩ := mem_deniersOf.mp hmem
      rw [hnone f hf hi] at hd
      cases hd
    have hcnt : (s.table.inode i).denyWriteCnt = 0 := by
      rw [hacc.denied i hi, hzero]
      rfl
    rw [Filesys.inodeWriteAt, if_neg (not_not.mpr hcnt)]

def noFiles : OpenFiles where
  table := { fs := smallVolume
             inode := fun _ => ⟨0, 0, false, 0, newInodeDisk smallVolume 0 false⟩
             openInodes := [] }
  file := fun _ => ⟨⟨0⟩, 0, false⟩
  openFiles := []
  held := []

/-- Two files on one inode deny writes, one of them twice, and that one is closed. -/
def denyingCalls : List Op :=
  [.inodeOpen 1 (some ⟨0⟩), .fileOpen (some ⟨0⟩) (some ⟨0⟩), .fileReopen ⟨0⟩ (some ⟨1⟩),
    .fileDenyWrite ⟨0⟩, .fileDenyWrite ⟨0⟩, .fileDenyWrite ⟨1⟩, .fileClose ⟨0⟩]

theorem openFiles_accounting_denyingCalls :
    ∃ s, machine.run noFiles denyingCalls = some s ∧ (s.table.inode ⟨0⟩).openCnt = 1 ∧
      (s.table.inode ⟨0⟩).denyWriteCnt = 1 ∧
      ∀ (buffer : Nat → UInt8) (size : Int) (offset : Nat),
        s.table.inodeWriteAt ⟨0⟩ buffer size offset = (0, s.table) := by
  have hlists : (machine.run noFiles denyingCalls).map (fun s =>
      (s.table.openInodes, s.held, s.openFiles, (s.file ⟨1⟩).inode, (s.file ⟨1⟩).denyWrite)) =
      some ([⟨0⟩], [], [⟨1⟩], ⟨0⟩, true) := by decide +kernel
  cases hrun : machine.run noFiles denyingCalls with
  | none => simp [hrun] at hlists
  | some s =>
    simp only [hrun, Option.map_some, Option.some.injEq, Prod.mk.injEq] at hlists
    obtain ⟨hinodes, hheld, hfiles, hinode, hdeny⟩ := hlists
    have hreach : machine.Reachable s :=
      Machine.reachable_run (.start ⟨rfl, rfl, rfl⟩) hrun
    have hmem : (⟨0⟩ : InodePtr) ∈ s.table.openInodes := by simp [hinodes]
    obtain ⟨hcounts, -, hwrites⟩ := openFiles_accounting hreach
    obtain ⟨-, hopen, hcnt⟩ := hcounts ⟨0⟩ hmem
    refine ⟨s, rfl, ?_, ?_, fun buffer size offset => ?_⟩
    · rw [hopen (by simp [hheld]), hfiles]
      simp [hinode]
    · rw [hcnt, hfiles]
      simp [hinode, hdeny]
    · exact (hwrites ⟨0⟩ hmem buffer size offset).1 ⟨⟨1⟩, by simp [hfiles], hinode, hdeny⟩

end OpenFiles

end Pintos.Filesys
