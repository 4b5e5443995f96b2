import Pintos.Filesys.File
import Pintos.Filesys.Layout
import Pintos.Userprog.Process

/-!
# The file descriptors of a process (userprog/syscall.c)

`file_list` holds the addresses of the entries that `add_file` and `add_dir` have
allocated. `close` finds its entry by number and `close_all_file` walks the list by
address while `close` unlinks entries from it, so that the walk depends on the
descriptors being distinct.
-/

namespace Pintos.Userprog

open Foundation Filesys List

structure DirPtr where
  byte : Nat
  deriving DecidableEq

structure FileProcess where
  file : FilePtr
  dir : DirPtr
  fd : Int
  isDir : Bool
  deriving DecidableEq

inductive Handle
  | file (f : FilePtr)
  | dir (d : DirPtr)
  deriving DecidableEq

def FileProcess.handle (fp : FileProcess) : Handle :=
  if fp.isDir then .dir fp.dir else .file fp.file

/-- `fd` and `file_list` of a thread and the entries; `closed` logs what is closed. -/
structure FileTable where
  fd : Int
  fileList : List Addr
  entry : Addr → FileProcess
  closed : List Handle

def initFd : Int := 2

namespace FileTable

/-- `fp->fd = cur->fd++`, after which the entry goes to the end of the list. -/
def push (t : FileTable) (a : Addr) (fp : FileProcess) : Int × FileTable :=
  (t.fd, { t with
    fd := wrap32 (t.fd + 1)
    fileList := t.fileList ++ [a]
    entry := Function.update t.entry a { fp with fd := t.fd } })

/-- `add_file`, with the result of `malloc`. The field `dir` is not initialised. -/
def addFile (t : FileTable) (f : FilePtr) : Option Addr → Int × FileTable
  | none => (error, t)
  | some a => t.push a { t.entry a with file := f, isDir := false }

/-- `add_dir`, with the result of `malloc`. The field `file` is not initialised. -/
def addDir (t : FileTable) (d : DirPtr) : Option Addr → Int × FileTable
  | none => (error, t)
  | some a => t.push a { t.entry a with dir := d, isDir := true }

def getFile (t : FileTable) (curFd : Int) : Option Addr :=
  t.fileList.find? fun a => (t.entry a).fd = curFd

def close (t : FileTable) (fd : Int) : FileTable :=
  match t.getFile fd with
  | none => t
  | some a =>
      if (t.entry a).isDir = false then
        { t with closed := t.closed ++ [.file (t.entry a).file], fileList := t.fileList.erase a }
      else
        { t with closed := t.closed ++ [.dir (t.entry a).dir], fileList := t.fileList.erase a }

/-- `list_next`, `none` inside for `list_end`. An element not on the list has been freed. -/
def listNext (e : Addr) : List Addr → Option (Option Addr)
  | [] => none
  | a :: l => if a = e then some l.head? else listNext e l

/-- The loop of `close_all_file`. An entry goes at each iteration. -/
def closeAllLoop : Nat → FileTable → Option Addr → Option FileTable
  | _, t, none => some t
  | 0, _, some _ => none
  | fuel + 1, t, some e =>
      match listNext e t.fileList with
      | none => none
      | some next => closeAllLoop fuel (t.close (t.entry e).fd) next

def closeAllFile (t : FileTable) : Option FileTable :=
  closeAllLoop t.fileList.length t t.fileList.head?

def descriptors (t : FileTable) : List Int := t.fileList.map fun a => (t.entry a).fd

/-- The descriptors on the list are distinct and were handed out. -/
structure Ok (t : FileTable) : Prop where
  nodup : t.descriptors.Nodup
  low : ∀ fd ∈ t.descriptors, initFd ≤ fd
  high : ∀ fd ∈ t.descriptors, fd < t.fd

variable {t : FileTable} {fd : Int} {a : Addr}

lemma Ok.getFile_eq_some (ok : Ok t) :
    t.getFile fd = some a ↔ a ∈ t.fileList ∧ (t.entry a).fd = fd := by
  unfold getFile
  constructor
  · intro h
    exact ⟨mem_of_find?_eq_some h, by simpa using find?_some h⟩
  · intro h
    cases hfind : t.fileList.find? fun b => (t.entry b).fd = fd with
    | none =>
      have hne := find?_eq_none.mp hfind a h.1
      simp [h.2] at hne
    | some b =>
      have hb : (t.entry b).fd = fd := by simpa using find?_some hfind
      rw [inj_on_of_nodup_map ok.nodup h.1 (mem_of_find?_eq_some hfind) (h.2.trans hb.symm)]

lemma close_of_none (h : t.getFile fd = none) : t.close fd = t := by
  unfold close
  rw [h]

lemma close_of_some (h : t.getFile fd = some a) :
    t.close fd = { t with
      closed := t.closed ++ [(t.entry a).handle]
      fileList := t.fileList.erase a } := by
  unfold close FileProcess.handle
  rw [h]
  cases hdir : (t.entry a).isDir with
  | false => simp [hdir]
  | true => simp [hdir]

lemma Ok.close (ok : Ok t) (fd : Int) : Ok (t.close fd) := by
  cases h : t.getFile fd with
  | none =>
    rwa [close_of_none h]
  | some a =>
    rw [close_of_some h]
    have hsub : ((t.fileList.erase a).map fun b => (t.entry b).fd).Sublist t.descriptors :=
      erase_sublist.map _
    exact ⟨ok.nodup.sublist hsub, fun fd hfd => ok.low fd (hsub.mem hfd),
      fun fd hfd => ok.high fd (hsub.mem hfd)⟩

lemma push_entry {b : Addr} (ha : a ∉ t.fileList) (hb : b ∈ t.fileList) (fp : FileProcess) :
    (t.push a fp).2.entry b = t.entry b :=
  Function.update_of_ne (fun h : b = a => ha (h ▸ hb)) _ _

lemma push_entry_self (t : FileTable) (a : Addr) (fp : FileProcess) :
    (t.push a fp).2.entry a = { fp with fd := t.fd } :=
  Function.update_self _ _ _

lemma descriptors_push (ha : a ∉ t.fileList) (fp : FileProcess) :
    (t.push a fp).2.descriptors = t.descriptors ++ [t.fd] := by
  have hrest : (t.fileList.map fun b => ((t.push a fp).2.entry b).fd) = t.descriptors := by
    apply map_congr_left
    intro b hb
    rw [push_entry ha hb]
  have happend : (t.push a fp).2.fileList = t.fileList ++ [a] := rfl
  rw [descriptors, happend, map_append, hrest, map_singleton, push_entry_self]

lemma Ok.push (ok : Ok t) (ha : a ∉ t.fileList) (fp : FileProcess) (hlow : initFd ≤ t.fd)
    (hhigh : t.fd < 2147483647) : (t.push a fp).2.fd = t.fd + 1 ∧ Ok (t.push a fp).2 := by
  have hfd : (t.push a fp).2.fd = t.fd + 1 := by
    unfold initFd at hlow
    exact wrap32_eq (by omega) (by omega)
  refine ⟨hfd, ?_, ?_, ?_⟩
  · rw [descriptors_push ha, nodup_append]
    refine ⟨ok.nodup, nodup_singleton _, fun fd hmem fd' hmem' => ?_⟩
    rw [mem_singleton.mp hmem']
    exact Int.ne_of_lt (ok.high fd hmem)
  · intro fd hmem
    rw [descriptors_push ha, mem_append, mem_singleton] at hmem
    rcases hmem with hmem | rfl
    · exact ok.low fd hmem
    · exact hlow
  · intro fd hmem
    rw [descriptors_push ha, mem_append, mem_singleton] at hmem
    rw [hfd]
    rcases hmem with hmem | rfl
    · exact Int.lt_trans (ok.high fd hmem) (by omega)
    · omega

/-- `close_all_file` closes in the order of the list. -/
lemma Ok.closeAllLoop (ok : Ok t) {l : List Addr} (hl : t.fileList = l) :
    FileTable.closeAllLoop l.length t l.head? =
      some { t with
        fileList := []
        closed := t.closed ++ l.map fun a => (t.entry a).handle } := by
  induction l generalizing t with
  | nil =>
    have hsame : t = { t with fileList := [], closed := t.closed ++ [] } := by
      rw [append_nil, ← hl]
    exact congrArg some hsame
  | cons e l ih =>
    have hfind : t.getFile (t.entry e).fd = some e :=
      ok.getFile_eq_some.mpr ⟨by simp [hl], rfl⟩
    have hclose := close_of_some hfind
    rw [hl, erase_cons_head] at hclose
    have hrest := ih (ok.close (t.entry e).fd) (by rw [hclose])
    have hnext : listNext e t.fileList = some l.head? := by
      rw [hl, listNext, if_pos rfl]
    rw [length_cons, head?_cons, FileTable.closeAllLoop, hnext]
    dsimp only
    rw [hrest, hclose]
    simp

end FileTable

/-! ## Histories of opens and closes -/

/-- A successful open, with the address of its entry, or a call of `close`. -/
inductive FileEvent
  | opened (fd : Int) (a : Addr) (h : Handle)
  | closed (fd : Int)
  deriving DecidableEq

/-- The entry of the last open that returned `fd`, unless `fd` has been closed since.
The latest event comes first. -/
def openEntry (fd : Int) : List FileEvent → Option (Addr × Handle)
  | [] => none
  | .opened fd' a h :: history => if fd' = fd then some (a, h) else openEntry fd history
  | .closed fd' :: history => if fd' = fd then none else openEntry fd history

def opens (history : List FileEvent) : Nat :=
  history.countP fun
    | .opened _ _ _ => true
    | .closed _ => false

lemma opens_opened (fd : Int) (a : Addr) (h : Handle) (history : List FileEvent) :
    opens (.opened fd a h :: history) = opens history + 1 :=
  countP_cons_of_pos rfl

lemma opens_closed (fd : Int) (history : List FileEvent) :
    opens (.closed fd :: history) = opens history :=
  countP_cons_of_neg (by simp)

structure FileSession where
  table : FileTable
  history : List FileEvent

/-- A call of `add_file` or `add_dir` with the result of `malloc`, or of `close`. -/
inductive FileOp
  | addFile (f : FilePtr) (a : Option Addr)
  | addDir (d : DirPtr) (a : Option Addr)
  | close (fd : Int)

namespace FileSession

/-- Logs the open of an entry at `a`; nothing was opened if `malloc` failed. -/
def opened (s : FileSession) (a : Option Addr) (h : Handle) (out : Int × FileTable) :
    Option FileSession :=
  match a with
  | none => some { s with table := out.2 }
  | some a =>
      if a ∈ s.table.fileList then none
      else some ⟨out.2, .opened out.1 a h :: s.history⟩

/-- `malloc` does not return the memory of an entry. -/
def step (s : FileSession) : FileOp → Option FileSession
  | .addFile f a => s.opened a (.file f) (s.table.addFile f a)
  | .addDir d a => s.opened a (.dir d) (s.table.addDir d a)
  | .close fd => some ⟨s.table.close fd, .closed fd :: s.history⟩

structure Start (s : FileSession) : Prop where
  fd : s.table.fd = initFd
  fileList : s.table.fileList = []
  history : s.history = []

def machine : Machine FileSession FileOp where
  start := Start
  step := step

/-- The history tells which entries are on the list, under which descriptors and for what. -/
structure Ok (s : FileSession) : Prop where
  table : s.table.Ok
  next : s.table.fd = initFd + opens s.history
  entries : ∀ fd a h, openEntry fd s.history = some (a, h) ↔
    a ∈ s.table.fileList ∧ (s.table.entry a).fd = fd ∧ (s.table.entry a).handle = h

variable {s : FileSession}

lemma Ok.push (ok : Ok s) {a : Addr} (ha : a ∉ s.table.fileList) (fp : FileProcess)
    (hbound : opens s.history < 2147483645) :
    Ok ⟨(s.table.push a fp).2, .opened (s.table.push a fp).1 a fp.handle :: s.history⟩ := by
  have hlow : initFd ≤ s.table.fd := by
    rw [ok.next]
    omega
  have hhigh : s.table.fd < 2147483647 := by
    rw [ok.next, initFd]
    omega
  have hpush := ok.table.push ha fp hlow hhigh
  refine ⟨hpush.2, ?_, fun fd b h => ?_⟩
  · rw [hpush.1, ok.next, opens_opened]
    omega
  · have hmem : b ∈ (s.table.push a fp).2.fileList ↔ b ∈ s.table.fileList ∨ b = a := by
      simp [FileTable.push]
    have hret : (s.table.push a fp).1 = s.table.fd := rfl
    rw [openEntry, hret, hmem]
    by_cases hfd : s.table.fd = fd
    · rw [if_pos hfd]
      constructor
      · intro heq
        cases heq
        rw [FileTable.push_entry_self]
        exact ⟨Or.inr rfl, hfd, rfl⟩
      · intro hb
        rcases hb with ⟨hb | rfl, hentry, hhandle⟩
        · rw [FileTable.push_entry ha hb] at hentry
          have := ok.table.high _ (mem_map_of_mem hb)
          omega
        · rw [FileTable.push_entry_self] at hhandle
          rw [← hhandle]
          rfl
    · rw [if_neg hfd, ok.entries]
      constructor
      · intro hb
        rw [FileTable.push_entry ha hb.1]
        exact ⟨Or.inl hb.1, hb.2⟩
      · intro hb
        rcases hb with ⟨hb | rfl, hentry, hhandle⟩
        · rw [FileTable.push_entry ha hb] at hentry hhandle
          exact ⟨hb, hentry, hhandle⟩
        · rw [FileTable.push_entry_self] at hentry
          exact absurd hentry hfd

lemma Ok.close (ok : Ok s) (fd : Int) : Ok ⟨s.table.close fd, .closed fd :: s.history⟩ := by
  cases hfind : s.table.getFile fd with
  | none =>
    rw [FileTable.close_of_none hfind]
    refine ⟨ok.table, by rw [opens_closed]; exact ok.next, fun fd' b h => ?_⟩
    rw [openEntry]
    by_cases hfd : fd = fd'
    · rw [if_pos hfd]
      refine iff_of_false (by simp) fun hb => ?_
      simp [ok.table.getFile_eq_some.mpr ⟨hb.1, hb.2.1.trans hfd.symm⟩] at hfind
    · rw [if_neg hfd]
      exact ok.entries fd' b h
  | some a =>
    have ha := ok.table.getFile_eq_some.mp hfind
    have hok := ok.table.close fd
    rw [FileTable.close_of_some hfind] at hok ⊢
    refine ⟨hok, by rw [opens_closed]; exact ok.next, fun fd' b h => ?_⟩
    have hmem : b ∈ s.table.fileList.erase a ↔ b ≠ a ∧ b ∈ s.table.fileList :=
      (ok.table.nodup.of_map _).mem_erase_iff
    rw [openEntry, hmem]
    by_cases hfd : fd = fd'
    · rw [if_pos hfd]
      refine iff_of_false (by simp) fun hb => hb.1.1 ?_
      exact inj_on_of_nodup_map ok.table.nodup hb.1.2 ha.1 (hb.2.1.trans (hfd.symm.trans ha.2.symm))
    · rw [if_neg hfd, ok.entries]
      constructor
      · intro hb
        exact ⟨⟨fun heq => hfd (by rw [← ha.2, ← heq]; exact hb.2.1), hb.1⟩, hb.2⟩
      · intro hb
        exact ⟨hb.1.2, hb.2⟩

lemma Start.ok (h : Start s) : Ok s := by
  have hempty : s.table.descriptors = [] := by rw [FileTable.descriptors, h.fileList]; rfl
  refine ⟨⟨?_, ?_, ?_⟩, ?_, fun fd a handle => ?_⟩
  · rw [hempty]
    exact nodup_nil
  · simp [hempty]
  · simp [hempty]
  · rw [h.fd, h.history]
    rfl
  · simp [h.history, h.fileList, openEntry]

/-- Both kinds of open: what `add_file` and `add_dir` differ in is the entry they make. -/
lemma Ok.opened {s' : FileSession} {a : Option Addr} {h : Handle} {out : Int × FileTable}
    (ok : opens s.history < 2147483646 → Ok s) (hnone : a = none → out.2 = s.table)
    (hsome : ∀ b, a = some b → ∃ fp, out = s.table.push b fp ∧ fp.handle = h)
    (hstep : s.opened a h out = some s') (hbound : opens s'.history < 2147483646) : Ok s' := by
  cases a with
  | none =>
    cases hstep
    rw [hnone rfl]
    exact ok hbound
  | some b =>
    rcases hsome b rfl with ⟨fp, rfl, rfl⟩
    rw [FileSession.opened, Option.ite_none_left_eq_some] at hstep
    cases hstep.2
    rw [opens_opened] at hbound
    exact (ok (by omega)).push hstep.1 fp (by omega)

lemma Ok.step {s' : FileSession} {op : FileOp} (ok : opens s.history < 2147483646 → Ok s)
    (h : FileSession.step s op = some s') (hbound : opens s'.history < 2147483646) : Ok s' := by
  cases op with
  | addFile f a =>
    refine Ok.opened ok (fun ha => by rw [ha]; rfl) (fun b hb => ?_) h hbound
    exact ⟨_, by rw [hb]; rfl, rfl⟩
  | addDir d a =>
    refine Ok.opened ok (fun ha => by rw [ha]; rfl) (fun b hb => ?_) h hbound
    exact ⟨_, by rw [hb]; rfl, rfl⟩
  | close fd =>
    cases h
    rw [opens_closed] at hbound
    exact (ok hbound).close fd

/-- The descriptors are distinct and below the next one, one is found exactly while it is open,
`close` unlinks its entry only, and `close_all_file` closes everything once. -/
theorem reachable_descriptors {s : FileSession} (h : machine.Reachable s)
    (hopens : opens s.history < 2147483646) :
    (s.table.descriptors.Nodup ∧ ∀ fd ∈ s.table.descriptors, 2 ≤ fd ∧ fd < s.table.fd) ∧
      (∀ fd a, s.table.getFile fd = some a ↔ ∃ handle, openEntry fd s.history = some (a, handle)) ∧
      (∀ fd a handle, openEntry fd s.history = some (a, handle) →
        (s.table.entry a).fd = fd ∧ (s.table.entry a).handle = handle) ∧
      (∀ fd a, s.table.getFile fd = some a → s.table.close fd = { s.table with
        closed := s.table.closed ++ [(s.table.entry a).handle]
        fileList := s.table.fileList.filter (· != a) }) ∧
      (∀ fd, s.table.getFile fd = none → s.table.close fd = s.table) ∧
      s.table.closeAllFile = some { s.table with
        fileList := []
        closed := s.table.closed ++ s.table.fileList.map fun a => (s.table.entry a).handle } := by
  have ok : Ok s := by
    refine h.invariant (I := fun s => opens s.history < 2147483646 → Ok s)
      (fun s hs _ => Start.ok hs) (fun s op s' ih hstep => Ok.step ih hstep) hopens
  have hfind : ∀ fd a, s.table.getFile fd = some a ↔
      ∃ handle, openEntry fd s.history = some (a, handle) := by
    intro fd a
    rw [ok.table.getFile_eq_some]
    constructor
    · intro ha
      exact ⟨_, (ok.entries fd a _).mpr ⟨ha.1, ha.2, rfl⟩⟩
    · rintro ⟨handle, ha⟩
      have hentry := (ok.entries fd a handle).mp ha
      exact ⟨hentry.1, hentry.2.1⟩
  refine ⟨⟨ok.table.nodup, fun fd hfd => ⟨ok.table.low fd hfd, ok.table.high fd hfd⟩⟩, hfind,
    fun fd a handle ha => ((ok.entries fd a handle).mp ha).2, fun fd a ha => ?_,
    fun fd => FileTable.close_of_none, ok.table.closeAllLoop rfl⟩
  rw [FileTable.close_of_some ha, (ok.table.nodup.of_map _).erase_eq_filter]

/-- A file and a directory are opened, the file is closed and another one opened. -/
def shortSession : List FileOp :=
  [.addFile ⟨100⟩ (some ⟨0⟩), .addDir ⟨200⟩ (some ⟨1⟩), .close 2, .addFile ⟨300⟩ (some ⟨0⟩)]

def newSession : FileSession := ⟨⟨initFd, [], fun _ => ⟨⟨0⟩, ⟨0⟩, 0, false⟩, []⟩, []⟩

theorem reachable_descriptors_shortSession :
    ∃ s, machine.run newSession shortSession = some s ∧ s.table.descriptors = [3, 4] ∧
      s.table.closeAllFile = some { s.table with
        fileList := []
        closed := s.table.closed ++ s.table.fileList.map fun a => (s.table.entry a).handle } := by
  have hrun : (machine.run newSession shortSession).map
      (fun s => (s.table.descriptors, opens s.history)) = some ([3, 4], 3) := by decide +kernel
  rcases Option.map_eq_some_iff.mp hrun with ⟨s, hs, heq⟩
  have hopens : opens s.history = 3 := congrArg Prod.snd heq
  refine ⟨s, hs, congrArg Prod.fst heq, ?_⟩
  have hstart : machine.Reachable newSession := .start ⟨rfl, rfl, rfl⟩
  exact (reachable_descriptors (Machine.reachable_run hstart hs) (by omega)).2.2.2.2.2

end FileSession

end Pintos.Userprog
