import Pintos.Foundation.Transition
import Pintos.Filesys.OpenInodes
import Pintos.Filesys.StoredFiles

/-!
# Files between opens (filesys/inode.c)

While an inode is open its length, pointers and counters are those in memory, and only the
last close writes them to its sector; data and index blocks go to disk at once. The machine
below runs any sequence of `inode_open`, `inode_reopen`, `inode_write_at`, `inode_remove` and
`inode_close`. Nothing in it depends on what the sectors hold; that a file is found again as it
was left needs sectors that do hold an inode, which is a condition on the calls
(`InodeOp.Permitted`) and not on the machine.
-/

namespace Pintos.Filesys

open Foundation Function List

namespace InodeTable

/-- The inode of `sector`: that in memory if the sector is open, and otherwise that on disk. -/
def data (t : InodeTable) (sector : BlockSector) : InodeDisk :=
  match t.lookup sector with
  | some i => (t.inode i).data
  | none => onDisk t.fs sector

variable {t t' : InodeTable} {refs refs' : List InodePtr} {i : InodePtr} {x sector : BlockSector}
  {mem : Option InodePtr}

lemma Counted.data_eq (h : t.Counted refs) (hi : i ∈ t.openInodes) :
    t.data (t.inode i).sector = (t.inode i).data := by
  rw [data, h.lookup_eq hi]

lemma data_of_closed (h : ∀ i ∈ t.openInodes, (t.inode i).sector ≠ x) :
    t.data x = onDisk t.fs x := by
  cases hl : t.lookup x with
  | none => rw [data, hl]
  | some i =>
    obtain ⟨hi, hsector⟩ := lookup_some hl
    exact absurd hsector (h i hi)

lemma Counted.data_congr (h : t.Counted refs) (h' : t'.Counted refs')
    (hopen : ∀ i ∈ t.openInodes, (t.inode i).sector = x → i ∈ t'.openInodes ∧
      (t'.inode i).sector = x ∧ (t'.inode i).data = (t.inode i).data)
    (hclosed : ∀ i ∈ t'.openInodes, (t'.inode i).sector = x →
      i ∈ t.openInodes ∧ (t.inode i).sector = x) (hdisk : t'.fs.disk x = t.fs.disk x) :
    t'.data x = t.data x := by
  by_cases hx : ∃ i ∈ t.openInodes, (t.inode i).sector = x
  · obtain ⟨i, hi, hsector⟩ := hx
    obtain ⟨hi', hsector', hdata⟩ := hopen i hi hsector
    calc
      t'.data x = (t'.inode i).data := by rw [← h'.data_eq hi', hsector']
      _ = (t.inode i).data := hdata
      _ = t.data x := by rw [← h.data_eq hi, hsector]
  · have hnone : ∀ i ∈ t.openInodes, (t.inode i).sector ≠ x := fun i hi he => hx ⟨i, hi, he⟩
    have hnone' : ∀ i ∈ t'.openInodes, (t'.inode i).sector ≠ x := by
      intro i hi he
      obtain ⟨hi, hsector⟩ := hclosed i hi he
      exact hnone i hi hsector
    rw [data_of_closed hnone, data_of_closed hnone', onDisk, onDisk, hdisk]

/-- A step on inode `i` leaves the other sectors alone, and its own if its data stays. -/
lemma Counted.data_set (h : t.Counted refs) {inode : Inode} {fs : FileSys}
    (h' : Counted { t.set i inode with fs := fs } refs')
    (hsector : inode.sector = (t.inode i).sector)
    (hdata : (t.inode i).sector = x → inode.data = (t.inode i).data)
    (hdisk : fs.disk x = t.fs.disk x) :
    InodeTable.data { t.set i inode with fs := fs } x = t.data x := by
  refine h.data_congr h' (fun j hj he => ⟨hj, ?_, ?_⟩) (fun j hj he => ⟨hj, ?_⟩) hdisk
  · exact (set_sector hsector j).trans he
  · dsimp only
    rw [set_inode]
    split
    case isTrue hji =>
        rw [hji] at he ⊢
        exact hdata he
    case isFalse => rfl
  · exact (set_sector hsector j).symm.trans he

def loaded (t : InodeTable) (i : InodePtr) (sector : BlockSector) : InodeTable where
  fs := t.fs
  inode := Function.update t.inode i (inodeAt sector (onDisk t.fs sector))
  openInodes := i :: t.openInodes

lemma inodeOpen_of_closed (hl : t.lookup sector = none) (hlt : sector.toNat < t.fs.size)
    (i : InodePtr) : t.inodeOpen sector (some i) = (some i, t.loaded i sector) := by
  simp only [inodeOpen, hl, inodeLoad_eq hlt, loaded]

lemma Counted.data_loaded (h : t.Counted refs) (hl : t.lookup sector = none)
    (hfresh : i ∉ t.openInodes) (x : BlockSector) : (t.loaded i sector).data x = t.data x := by
  have hcounted : (t.loaded i sector).Counted (i :: refs) := h.load hl hfresh t.fs rfl rfl
  have hself : (t.loaded i sector).inode i = inodeAt sector (onDisk t.fs sector) :=
    update_self _ _ _
  have hold : ∀ j ∈ t.openInodes, (t.loaded i sector).inode j = t.inode j :=
    fun j hj => update_of_ne (fun he : j = i => hfresh (he ▸ hj)) _ _
  by_cases hx : x = sector
  · have hnew := hcounted.data_eq mem_cons_self
    rw [hself] at hnew
    rw [hx]
    refine hnew.trans ?_
    rw [data, hl]
    rfl
  · refine h.data_congr hcounted (fun j hj he => ?_) (fun j hj he => ?_) rfl
    · rw [hold j hj]
      exact ⟨mem_cons_of_mem i hj, he, rfl⟩
    · have hne : j ≠ i := by
        intro hji
        rw [hji, hself] at he
        exact hx he.symm
      have hmem : j ∈ t.openInodes := (mem_cons.mp hj).resolve_left hne
      rw [hold j hmem] at he
      exact ⟨hmem, he⟩

lemma Counted.data_inodeOpen (h : t.Counted refs) (hfresh : ∀ i ∈ mem, i ∉ t.openInodes)
    (hlt : sector.toNat < t.fs.size) :
    (t.inodeOpen sector mem).2.fs = t.fs ∧
      ∀ x, (t.inodeOpen sector mem).2.data x = t.data x := by
  cases hl : t.lookup sector with
  | some i =>
    have hopen : t.inodeOpen sector mem = (some i, t.inodeReopen i) := by
      simp only [InodeTable.inodeOpen, hl]
    rw [hopen]
    exact ⟨rfl, fun x => h.data_set (h.reopen (lookup_some hl).1) rfl (fun _ => rfl) rfl⟩
  | none =>
    cases mem with
    | none =>
      have hopen : t.inodeOpen sector none = (none, t) := by
        simp only [InodeTable.inodeOpen, hl]
      rw [hopen]
      exact ⟨rfl, fun _ => rfl⟩
    | some i =>
      rw [inodeOpen_of_closed hl hlt]
      exact ⟨rfl, h.data_loaded hl (hfresh i rfl)⟩

lemma inodeOpen_keeps (hfresh : ∀ i ∈ mem, i ∉ t.openInodes) (hi : i ∈ t.openInodes) :
    i ∈ (t.inodeOpen sector mem).2.openInodes ∧
      ((t.inodeOpen sector mem).2.inode i).sector = (t.inode i).sector := by
  unfold InodeTable.inodeOpen
  cases t.lookup sector with
  | some j => exact ⟨hi, set_sector (by rfl) i⟩
  | none =>
    cases mem with
    | none => exact ⟨hi, rfl⟩
    | some j =>
      have hne : i ≠ j := fun he => hfresh j rfl (he ▸ hi)
      exact ⟨mem_cons_of_mem j hi, congrArg _ (update_of_ne hne _ _)⟩

lemma inodeOpen_sector (hi : i ∈ (t.inodeOpen sector mem).2.openInodes)
    (hnew : i ∉ t.openInodes) : ((t.inodeOpen sector mem).2.inode i).sector = sector := by
  unfold InodeTable.inodeOpen at hi ⊢
  cases hl : t.lookup sector with
  | some j =>
    rw [hl] at hi
    exact absurd hi hnew
  | none =>
    rw [hl] at hi
    cases mem with
    | none => exact absurd hi hnew
    | some j =>
      obtain rfl : i = j := (mem_cons.mp hi).resolve_right hnew
      dsimp only
      rw [update_self]
      rfl

section

variable (h : t.Counted refs) (hi : i ∈ t.openInodes)
include h hi

lemma Counted.mem_erase {j : InodePtr} :
    j ∈ t.openInodes.erase i ↔
      j ∈ t.openInodes ∧ (t.inode j).sector ≠ (t.inode i).sector := by
  rw [h.nodup.mem_erase_iff, and_comm]
  refine and_congr_right fun hj => not_congr ?_
  exact ⟨fun he => he ▸ rfl, h.sectors j hj i hi⟩

lemma Counted.data_erase {fs : FileSys}
    (h' : Counted { t with fs := fs, openInodes := t.openInodes.erase i } refs')
    (hx : x ≠ (t.inode i).sector) (hdisk : fs.disk x = t.fs.disk x) :
    InodeTable.data { t with fs := fs, openInodes := t.openInodes.erase i } x = t.data x := by
  refine h.data_congr h' (fun j hj he => ⟨?_, he, rfl⟩) (fun j hj he => ⟨?_, he⟩) hdisk
  · exact (h.mem_erase hi).mpr ⟨hj, he ▸ hx⟩
  · exact ((h.mem_erase hi).mp hj).1

lemma Counted.data_erase_self (fs : FileSys) :
    InodeTable.data { t with fs := fs, openInodes := t.openInodes.erase i }
      (t.inode i).sector = onDisk fs (t.inode i).sector :=
  data_of_closed fun _ hj => ((h.mem_erase hi).mp hj).2

end

end InodeTable

/-- Open inodes and the references to them; `live` is history: the sectors of files. -/
structure Mounted where
  table : InodeTable
  held : List InodePtr
  live : List BlockSector

inductive InodeOp
  | inodeOpen (sector : BlockSector) (mem : Option InodePtr)
  | inodeReopen (i : InodePtr)
  | inodeWriteAt (i : InodePtr) (buffer : Nat → UInt8) (size : Int) (offset : Nat)
  | inodeRemove (i : InodePtr)
  | inodeClose (i : InodePtr)

namespace Mounted

/-- Whether closing `i` once more deletes its file. -/
def deletes (s : Mounted) (i : InodePtr) : Bool :=
  (s.table.inode i).openCnt == 1 && (s.table.inode i).removed

def inodeOpen (s : Mounted) (sector : BlockSector) (mem : Option InodePtr) : Mounted :=
  { s with
    table := (s.table.inodeOpen sector mem).2
    held := (s.table.inodeOpen sector mem).1.toList ++ s.held }

def inodeClose (s : Mounted) (i : InodePtr) : Mounted where
  table := s.table.inodeClose i
  held := s.held.erase i
  live := if s.deletes i then s.live.erase (s.table.inode i).sector else s.live

lemma inodeClose_of_keeps {s : Mounted} {i : InodePtr} (h : s.deletes i = false) :
    s.inodeClose i = ⟨s.table.inodeClose i, s.held.erase i, s.live⟩ := by
  rw [inodeClose, h, if_neg Bool.false_ne_true]

lemma deletes_of_not_removed {s : Mounted} {i : InodePtr}
    (h : (s.table.inode i).removed = false) : s.deletes i = false := by
  rw [deletes, h, Bool.and_false]

end Mounted

/-- New memory is not in use; closes are balanced, and the other calls are made with a
reference that is held. -/
def InodeOp.Enabled (s : Mounted) : InodeOp → Prop
  | .inodeOpen _ mem => ∀ i ∈ mem, i ∉ s.table.openInodes
  | .inodeReopen i => i ∈ s.held
  | .inodeWriteAt i _ _ _ => i ∈ s.held
  | .inodeRemove i => i ∈ s.held
  | .inodeClose i => i ∈ s.held

instance (s : Mounted) : (op : InodeOp) → Decidable (op.Enabled s)
  | .inodeOpen _ mem => inferInstanceAs (Decidable (∀ i ∈ mem, i ∉ s.table.openInodes))
  | .inodeReopen i => inferInstanceAs (Decidable (i ∈ s.held))
  | .inodeWriteAt i _ _ _ => inferInstanceAs (Decidable (i ∈ s.held))
  | .inodeRemove i => inferInstanceAs (Decidable (i ∈ s.held))
  | .inodeClose i => inferInstanceAs (Decidable (i ∈ s.held))

def InodeOp.exec (s : Mounted) : InodeOp → Mounted
  | .inodeOpen sector mem => s.inodeOpen sector mem
  | .inodeReopen i => { s with table := s.table.inodeReopen i, held := i :: s.held }
  | .inodeWriteAt i buffer size offset =>
      { s with table := (s.table.inodeWriteAt i buffer size offset).2 }
  | .inodeRemove i => { s with table := s.table.inodeRemove i }
  | .inodeClose i => s.inodeClose i

def inodeMachine : Machine Mounted InodeOp where
  start s := s.table.openInodes = [] ∧ s.held = []
  step s op := if op.Enabled s then some (op.exec s) else none

/-- A write of a length the index can hold, all of whose allocations succeed. -/
def InodeOp.Succeeds (s : Mounted) : InodeOp → Prop
  | .inodeWriteAt i buffer size offset => -2147483648 ≤ size ∧ offset + size ≤ maxFileLength ∧
      (s.table.inodeWriteAt i buffer size offset).2.fs.allocFailed = false
  | _ => True

/-- A sector that is opened holds an inode. -/
def InodeOp.OnFile (s : Mounted) : InodeOp → Prop
  | .inodeOpen sector _ => sector ∈ s.live
  | _ => True

def InodeOp.Permitted (s : Mounted) (op : InodeOp) : Prop := op.Succeeds s ∧ op.OnFile s

def InodeOp.WritesTo (s : Mounted) (x : BlockSector) : InodeOp → Prop
  | .inodeWriteAt i _ _ _ => (s.table.inode i).sector = x
  | _ => False

instance (s : Mounted) : (op : InodeOp) → Decidable (op.Succeeds s)
  | .inodeWriteAt i buffer size offset => inferInstanceAs (Decidable
      (-2147483648 ≤ size ∧ offset + size ≤ maxFileLength ∧
        (s.table.inodeWriteAt i buffer size offset).2.fs.allocFailed = false))
  | .inodeOpen _ _ => isTrue trivial
  | .inodeReopen _ => isTrue trivial
  | .inodeRemove _ => isTrue trivial
  | .inodeClose _ => isTrue trivial

instance (s : Mounted) : (op : InodeOp) → Decidable (op.OnFile s)
  | .inodeOpen sector _ => inferInstanceAs (Decidable (sector ∈ s.live))
  | .inodeReopen _ => isTrue trivial
  | .inodeWriteAt _ _ _ _ => isTrue trivial
  | .inodeRemove _ => isTrue trivial
  | .inodeClose _ => isTrue trivial

instance (s : Mounted) (op : InodeOp) : Decidable (op.Permitted s) :=
  inferInstanceAs (Decidable (op.Succeeds s ∧ op.OnFile s))

instance (s : Mounted) (x : BlockSector) : (op : InodeOp) → Decidable (op.WritesTo s x)
  | .inodeWriteAt i _ _ _ => inferInstanceAs (Decidable ((s.table.inode i).sector = x))
  | .inodeOpen _ _ => isFalse id
  | .inodeReopen _ => isFalse id
  | .inodeRemove _ => isFalse id
  | .inodeClose _ => isFalse id

/-- Whether `op` is the last close of `i`. -/
def InodeOp.LastClose (s : Mounted) (i : InodePtr) : InodeOp → Prop
  | .inodeClose j => j = i ∧ (s.table.inode i).openCnt = 1
  | _ => False

section Steps

variable {s s' : Mounted} {op : InodeOp}

lemma inodeMachine_step (h : inodeMachine.step s op = some s') : op.Enabled s ∧ op.exec s = s' := by
  dsimp only [inodeMachine] at h
  split at h
  case isTrue hop => exact ⟨hop, Option.some.inj h⟩
  case isFalse => cases h

lemma InodeOp.counted (h : s.table.Counted s.held) (hop : op.Enabled s) :
    (op.exec s).table.Counted (op.exec s).held := by
  cases op with
  | inodeOpen sector mem => exact h.inodeOpen sector hop
  | inodeReopen i => exact h.reopen ((h.mem_iff i).mp hop)
  | inodeWriteAt i buffer size offset => exact h.inodeWriteAt i buffer size offset
  | inodeRemove i => exact h.inodeRemove i
  | inodeClose i => exact h.inodeClose hop

lemma counted_of_start (h : inodeMachine.start s) : s.table.Counted s.held := by
  obtain ⟨hopen, hheld⟩ := h
  constructor <;> simp [hopen, hheld]

lemma counted_of_reachable (h : inodeMachine.Reachable s) : s.table.Counted s.held := by
  refine h.invariant (fun s => counted_of_start) fun s op s' hs hstep => ?_
  obtain ⟨hop, rfl⟩ := inodeMachine_step hstep
  exact InodeOp.counted hs hop

/-- Only its last close takes an inode off the list, and nothing changes its sector. -/
lemma InodeOp.stays_open (hop : op.Enabled s) {i : InodePtr} (hi : i ∈ s.table.openInodes)
    (hlast : ¬ op.LastClose s i) :
    i ∈ (op.exec s).table.openInodes ∧
      ((op.exec s).table.inode i).sector = (s.table.inode i).sector := by
  cases op with
  | inodeOpen sector mem => exact InodeTable.inodeOpen_keeps hop hi
  | inodeReopen j => exact ⟨hi, InodeTable.set_sector (by rfl) i⟩
  | inodeWriteAt j buffer size offset =>
    have hsector := (InodeTable.inodeWriteAt_header s.table.fs (s.table.inode j) buffer size
      offset).2.2.2
    exact ⟨hi, InodeTable.set_sector hsector i⟩
  | inodeRemove j => exact ⟨hi, InodeTable.set_sector (by rfl) i⟩
  | inodeClose j =>
    dsimp only [InodeOp.exec, Mounted.inodeClose]
    by_cases hcnt : (s.table.inode j).openCnt = 1
    · have hne : i ≠ j := fun he => hlast ⟨he.symm, he ▸ hcnt⟩
      rw [InodeTable.inodeClose_of_one hcnt]
      exact ⟨(mem_erase_of_ne hne).mpr hi, rfl⟩
    · rw [InodeTable.inodeClose_of_ne_one hcnt]
      exact ⟨hi, InodeTable.set_sector (by rfl) i⟩

lemma inodeOpen_again {as : List InodeOp} {i : InodePtr} (h : s.table.Counted s.held)
    (hi : i ∈ s.table.openInodes) (hopen : inodeMachine.Meets (fun s op => ¬ op.LastClose s i) s as)
    (hrun : inodeMachine.run s as = some s') (mem : Option InodePtr) :
    (s'.table.inodeOpen (s.table.inode i).sector mem).1 = some i := by
  obtain ⟨⟨hcounted, hi', hsector⟩, -⟩ := Machine.run_rel
    (I := fun s' => s'.table.Counted s'.held ∧ i ∈ s'.table.openInodes ∧
      (s'.table.inode i).sector = (s.table.inode i).sector)
    (R := fun _ _ => True) (fun _ => trivial) (fun _ _ _ _ _ => trivial)
    (fun s₁ op s₂ hs₁ hstep hlast => by
      obtain ⟨hop, rfl⟩ := inodeMachine_step hstep
      obtain ⟨hstays, hsector⟩ := InodeOp.stays_open hop hs₁.2.1 hlast
      exact ⟨⟨InodeOp.counted hs₁.1 hop, hstays, hsector.trans hs₁.2.2⟩, trivial⟩)
    ⟨h, hi, rfl⟩ hopen hrun
  rw [← hsector]
  simp only [InodeTable.inodeOpen, hcounted.lookup_eq hi']

end Steps

/-! ## Files -/

/-- The files of the volume are in order, and only files are open. -/
structure Mounted.Sound (s : Mounted) : Prop where
  counted : s.table.Counted s.held
  stored : Stored s.table.fs s.table.data s.live
  nodup : s.live.Nodup
  opened : ∀ i ∈ s.table.openInodes, (s.table.inode i).sector ∈ s.live

/-- The file `x`, if it is still there, is as it was. -/
def Mounted.Keeps (x : BlockSector) (s s' : Mounted) : Prop :=
  x ∈ s'.live →
    x ∈ s.live ∧ SameFile s.table.fs (s.table.data x) s'.table.fs (s'.table.data x)

namespace Mounted.Sound

variable {s : Mounted} {s' : Mounted} {i : InodePtr}

section

variable (h : s.Sound)
include h

lemma unchanged (hcounted : s'.table.Counted s'.held)
    (hfs : s'.table.fs = s.table.fs) (hlive : s'.live = s.live)
    (hdata : ∀ x, s'.table.data x = s.table.data x)
    (hopened : ∀ i ∈ s'.table.openInodes, (s'.table.inode i).sector ∈ s.live) :
    s'.Sound ∧ ∀ x, s.Keeps x s' := by
  have hfun : s'.table.data = s.table.data := funext hdata
  refine ⟨⟨hcounted, ?_, ?_, ?_⟩, fun x hx => ?_⟩
  · rw [hfs, hfun, hlive]
    exact h.stored
  · rw [hlive]
    exact h.nodup
  · rwa [hlive]
  · rw [hfs, hfun]
    exact ⟨hlive ▸ hx, SameFile.refl _ _⟩

lemma liveInode (hi : i ∈ s.table.openInodes) : LiveInode s.table.fs (s.table.inode i) := by
  refine (h.stored.inode _ (h.opened i hi)).of_data ?_ rfl
  exact (h.counted.data_eq hi).symm

lemma inodeOpen {sector : BlockSector} {mem : Option InodePtr}
    (hfresh : ∀ i ∈ mem, i ∉ s.table.openInodes) (hsector : sector ∈ s.live) :
    (s.inodeOpen sector mem).Sound ∧ ∀ x, s.Keeps x (s.inodeOpen sector mem) := by
  have hlt := h.stored.ok.lt_of_used (h.stored.inode sector hsector).sector_used
  obtain ⟨hfs, hdata⟩ := h.counted.data_inodeOpen hfresh hlt
  refine h.unchanged (h.counted.inodeOpen sector hfresh) hfs rfl hdata fun i hi => ?_
  by_cases hold : i ∈ s.table.openInodes
  · have hkept : ((s.inodeOpen sector mem).table.inode i).sector = (s.table.inode i).sector :=
      (InodeTable.inodeOpen_keeps hfresh hold).2
    rw [hkept]
    exact h.opened i hold
  · have hnew : ((s.inodeOpen sector mem).table.inode i).sector = sector :=
      InodeTable.inodeOpen_sector hi hold
    rwa [hnew]

lemma set {inode : Inode} {held : List InodePtr} (hcounted : (s.table.set i inode).Counted held)
    (hsector : inode.sector = (s.table.inode i).sector)
    (hdata : inode.data = (s.table.inode i).data) :
    Mounted.Sound { s with table := s.table.set i inode, held := held } ∧
      ∀ x, s.Keeps x { s with table := s.table.set i inode, held := held } := by
  refine h.unchanged hcounted rfl rfl
    (fun x => h.counted.data_set hcounted hsector (fun _ => hdata) rfl) fun j hj => ?_
  dsimp only
  rw [InodeTable.set_sector hsector]
  exact h.opened j hj

lemma inodeWriteAt (hi : i ∈ s.table.openInodes) (buffer : Nat → UInt8)
    {size : Int} {offset : Nat} (hlow : -2147483648 ≤ size) (hmax : offset + size ≤ maxFileLength)
    (hsucc : (s.table.inodeWriteAt i buffer size offset).2.fs.allocFailed = false) :
    Mounted.Sound { s with table := (s.table.inodeWriteAt i buffer size offset).2 } ∧
      ∀ x, (s.table.inode i).sector ≠ x →
        s.Keeps x { s with table := (s.table.inodeWriteAt i buffer size offset).2 } := by
  have hcounted := h.counted.inodeWriteAt i buffer size offset
  obtain ⟨written, inode', fs', hrun, hw, -⟩ := inodeWriteAt_written buffer h.stored.ok
    (h.liveInode hi).toLaidOut hlow (le_of_le_maxFileLength hmax) hsucc
  have htable : (s.table.inodeWriteAt i buffer size offset).2 =
      { s.table.set i inode' with fs := fs' } := by
    rw [InodeTable.inodeWriteAt, hrun]
  rw [htable] at hcounted ⊢
  have hsector : inode'.sector = (s.table.inode i).sector := by rw [hw.header]
  have hsectors : ∀ j, ((s.table.set i inode').inode j).sector = (s.table.inode j).sector :=
    InodeTable.set_sector hsector
  have hself : InodeTable.data { s.table.set i inode' with fs := fs' } (s.table.inode i).sector =
      inode'.data := by
    have hnew := hcounted.data_eq hi
    dsimp only at hnew
    rwa [hsectors, InodeTable.set_inode, if_pos rfl] at hnew
  have hother : ∀ y ∈ s.live, y ≠ (s.table.inode i).sector →
      InodeTable.data { s.table.set i inode' with fs := fs' } y = s.table.data y := by
    intro y hy hne
    refine h.counted.data_set hcounted hsector (fun he => absurd he.symm hne) ?_
    obtain ⟨hu, hmap, -, hnot⟩ := h.stored.others (h.opened i hi) hy hne mem_cons_self
    rw [h.counted.data_eq hi] at hnot
    exact hw.kept y hu hnot hmap
  obtain ⟨hstored, hsame⟩ := h.stored.write (h.opened i hi) (h.counted.data_eq hi).symm hw
    hself hother
  refine ⟨⟨hcounted, hstored, h.nodup, fun j hj => ?_⟩, fun x hx hlive => ?_⟩
  · dsimp only
    rw [hsectors]
    exact h.opened j hj
  · exact ⟨hlive, hsame x hlive (Ne.symm hx)⟩

lemma deleted (hheld : i ∈ s.held) (hcnt : (s.table.inode i).openCnt = 1)
    (hremoved : (s.table.inode i).removed = true) :
    (s.inodeClose i).Sound ∧ ∀ x, s.Keeps x (s.inodeClose i) := by
  have hi := (h.counted.mem_iff i).mp hheld
  have hcounted := h.counted.inodeClose hheld
  have hsame : inodeRemove (s.table.inode i) = s.table.inode i := by rw [inodeRemove, ← hremoved]
  have hr := inodeClose_released h.stored.ok (h.liveInode hi) h.stored.opened hcnt
  rw [hsame] at hr
  have hgone : ∀ q ∈ (s.table.inode i).sector :: deallocated s.table.fs (s.table.inode i).data
      (bytesToSectors (inodeLength (s.table.inode i))),
      q ∈ fileSectors s.table.fs (s.table.inode i).sector
        (s.table.data (s.table.inode i).sector) := by
    intro q hq
    rw [h.counted.data_eq hi]
    refine (mem_cons.mp hq).elim (fun he => he ▸ mem_cons_self) fun hq => ?_
    refine mem_cons_of_mem _ ?_
    change q ∈ ownSectors s.table.fs (s.table.inode i)
    rw [ownSectors, own_eq_deallocated]
    exact mem_append_left _ hq
  have hdeletes : s.deletes i = true := by
    rw [Mounted.deletes, hcnt, hremoved]
    rfl
  rw [InodeTable.inodeClose_of_one hcnt] at hcounted
  rw [Mounted.inodeClose, if_pos hdeletes, InodeTable.inodeClose_of_one hcnt]
  have hsub : ∀ y ∈ s.live.erase (s.table.inode i).sector,
      y ∈ s.live ∧ y ≠ (s.table.inode i).sector := by
    intro y hy
    rw [h.nodup.mem_erase_iff] at hy
    exact hy.symm
  obtain ⟨hstored, hkept⟩ := h.stored.release (h.opened i hi) hr hgone hsub fun y hy =>
    h.counted.data_erase hi hcounted (hsub y hy).2
      (hr.kept y ((h.stored.inode y (hsub y hy).1).fileSectors_used mem_cons_self).2)
  refine ⟨⟨hcounted, hstored, h.nodup.erase _, fun j hj => ?_⟩, fun x hx => ?_⟩
  · obtain ⟨hj, hne⟩ := (h.counted.mem_erase hi).mp hj
    exact h.nodup.mem_erase_iff.mpr ⟨hne, h.opened j hj⟩
  · exact ⟨(hsub x hx).1, hkept x hx⟩

lemma stored_back (hheld : i ∈ s.held) (hcnt : (s.table.inode i).openCnt = 1)
    (hremoved : (s.table.inode i).removed = false) :
    (s.inodeClose i).Sound ∧ ∀ x, s.Keeps x (s.inodeClose i) := by
  have hi := (h.counted.mem_iff i).mp hheld
  have hcounted := h.counted.inodeClose hheld
  have hfs : (Filesys.inodeClose s.table.fs (s.table.inode i)).2 =
      blockWrite s.table.fs (s.table.inode i).sector
        (s.table.data (s.table.inode i).sector).toBlock := by
    rw [h.counted.data_eq hi, Filesys.inodeClose]
    dsimp only
    rw [hcnt, hremoved]
    rfl
  rw [InodeTable.inodeClose_of_one hcnt] at hcounted
  rw [Mounted.inodeClose_of_keeps (Mounted.deletes_of_not_removed hremoved),
    InodeTable.inodeClose_of_one hcnt]
  obtain ⟨hstored, hkept⟩ := h.stored.store (h.opened i hi) hfs.symm
    (h.counted.data_erase_self hi _) fun y hy hne => by
      refine h.counted.data_erase hi hcounted hne ?_
      rw [hfs]
      exact blockWrite_disk_of_ne hne _
  refine ⟨⟨hcounted, hstored, h.nodup, fun j hj => ?_⟩, fun x hx => ⟨hx, hkept x hx⟩⟩
  exact h.opened j ((h.counted.mem_erase hi).mp hj).1

lemma inodeClose (hheld : i ∈ s.held) :
    (s.inodeClose i).Sound ∧ ∀ x, s.Keeps x (s.inodeClose i) := by
  by_cases hcnt : (s.table.inode i).openCnt = 1
  · cases hremoved : (s.table.inode i).removed with
    | true => exact h.deleted hheld hcnt hremoved
    | false => exact h.stored_back hheld hcnt hremoved
  · have hcounted := h.counted.inodeClose hheld
    have hkeeps : s.deletes i = false := by
      rw [Mounted.deletes, beq_false_of_ne hcnt, Bool.false_and]
    rw [InodeTable.inodeClose_of_ne_one hcnt] at hcounted
    rw [Mounted.inodeClose_of_keeps hkeeps, InodeTable.inodeClose_of_ne_one hcnt]
    exact h.set hcounted rfl rfl

lemma step {op : InodeOp} (hop : op.Enabled s) (hsucc : op.Succeeds s)
    (hfile : op.OnFile s) : (op.exec s).Sound ∧ ∀ x, ¬ op.WritesTo s x → s.Keeps x (op.exec s) := by
  cases op with
  | inodeOpen sector mem =>
    obtain ⟨hsound, hkeeps⟩ := h.inodeOpen hop hfile
    exact ⟨hsound, fun x _ => hkeeps x⟩
  | inodeReopen i =>
    obtain ⟨hsound, hkeeps⟩ := h.set (h.counted.reopen ((h.counted.mem_iff i).mp hop)) rfl rfl
    exact ⟨hsound, fun x _ => hkeeps x⟩
  | inodeWriteAt i buffer size offset =>
    exact h.inodeWriteAt ((h.counted.mem_iff i).mp hop) buffer hsucc.1 hsucc.2.1 hsucc.2.2
  | inodeRemove i =>
    obtain ⟨hsound, hkeeps⟩ := h.set (h.counted.inodeRemove i) rfl rfl
    exact ⟨hsound, fun x _ => hkeeps x⟩
  | inodeClose i =>
    obtain ⟨hsound, hkeeps⟩ := h.inodeClose hop
    exact ⟨hsound, fun x _ => hkeeps x⟩

lemma run {as : List InodeOp} (hmeets : inodeMachine.Meets (fun s op => op.Permitted s) s as)
    (hrun : inodeMachine.run s as = some s') : s'.Sound := by
  refine (Machine.run_rel (R := fun _ _ => True) (fun _ => trivial) (fun _ _ _ _ _ => trivial)
    (fun s op s' hs hstep hop => ?_) h hmeets hrun).1
  obtain ⟨henabled, rfl⟩ := inodeMachine_step hstep
  exact ⟨(hs.step henabled hop.1 hop.2).1, trivial⟩

lemma run_keeps {as : List InodeOp} {x : BlockSector}
    (hmeets : inodeMachine.Meets (fun s op => op.Permitted s ∧ ¬ op.WritesTo s x) s as)
    (hrun : inodeMachine.run s as = some s') : s'.Sound ∧ s.Keeps x s' := by
  refine Machine.run_rel (fun s hx => ⟨hx, SameFile.refl _ _⟩) ?_ ?_ h hmeets hrun
  · intro s₁ s₂ s₃ h₁₂ h₂₃ hx
    obtain ⟨hx₂, hsame₂⟩ := h₂₃ hx
    obtain ⟨hx₁, hsame₁⟩ := h₁₂ hx₂
    exact ⟨hx₁, hsame₁.trans hsame₂⟩
  · intro s op s' hs hstep hop
    obtain ⟨henabled, rfl⟩ := inodeMachine_step hstep
    obtain ⟨hsound, hkeeps⟩ := hs.step henabled hop.1.1 hop.1.2
    exact ⟨hsound, hkeeps x hop.2⟩

end

lemma of_start (h : inodeMachine.start s)
    (hstored : Stored s.table.fs (onDisk s.table.fs) s.live) (hnodup : s.live.Nodup) : s.Sound := by
  have hnone : s.table.data = onDisk s.table.fs :=
    funext fun x => InodeTable.data_of_closed (by simp [h.1])
  exact ⟨counted_of_start h, hnone ▸ hstored, hnodup, by simp [h.1]⟩

lemma read_eq {j : InodePtr} (h : s.Sound) (h' : s'.Sound) (hi : i ∈ s.table.openInodes)
    (hj : j ∈ s'.table.openInodes) (hsector : (s'.table.inode j).sector = (s.table.inode i).sector)
    (hkeeps : s.Keeps (s.table.inode i).sector s') :
    inodeLength (s'.table.inode j) = inodeLength (s.table.inode i) ∧
      (s.table.fs.mallocOk = true → s'.table.fs.mallocOk = true →
        ∀ (buffer : Nat → UInt8) (size : Int) (offset : Nat),
          (inodeReadAt s'.table.fs (s'.table.inode j) buffer size offset).1 =
              (inodeReadAt s.table.fs (s.table.inode i) buffer size offset).1 ∧
            (inodeReadAt s'.table.fs (s'.table.inode j) buffer size offset).2.1 =
              (inodeReadAt s.table.fs (s.table.inode i) buffer size offset).2.1) := by
  have hsame := (hkeeps (hsector ▸ h'.opened j hj)).2
  rw [h.counted.data_eq hi, ← hsector, h'.counted.data_eq hj] at hsame
  exact ⟨hsame.length_eq, fun hm hm' => hsame.inodeReadAt_eq h.stored.ok h'.stored.ok
    (h.liveInode hi).toLaidOut (h'.liveInode hj).toLaidOut hm hm'⟩

lemma live_of_close (h : s.Sound) (hi : i ∈ s.table.openInodes)
    (hcnt : (s.table.inode i).openCnt = 1) (hremoved : (s.table.inode i).removed = false) :
    i ∉ (s.inodeClose i).table.openInodes ∧
      (s.table.inode i).sector ∈ (s.inodeClose i).live := by
  rw [Mounted.inodeClose_of_keeps (Mounted.deletes_of_not_removed hremoved),
    InodeTable.inodeClose_of_one hcnt]
  exact ⟨h.counted.nodup.not_mem_erase, h.opened i hi⟩

end Mounted.Sound

lemma InodeTable.Counted.inodeOpen_some {t : InodeTable} {refs : List InodePtr}
    (h : t.Counted refs) {sector : BlockSector} {mem : Option InodePtr} {i : InodePtr}
    (hfresh : ∀ i ∈ mem, i ∉ t.openInodes) (hopen : (t.inodeOpen sector mem).1 = some i) :
    i ∈ (t.inodeOpen sector mem).2.openInodes ∧
      ((t.inodeOpen sector mem).2.inode i).sector = sector := by
  have hmem : i ∈ (t.inodeOpen sector mem).2.openInodes := by
    rw [← (h.inodeOpen sector hfresh).mem_iff, hopen]
    exact mem_cons_self
  refine ⟨hmem, ?_⟩
  by_cases hold : i ∈ t.openInodes
  · -- memory that is in use is returned only if the sector is found on the list
    rw [(InodeTable.inodeOpen_keeps hfresh hold).2]
    cases hl : t.lookup sector with
    | some j =>
      obtain rfl : j = i := by simpa [InodeTable.inodeOpen, hl] using hopen
      exact (lookup_some hl).2
    | none =>
      cases mem with
      | none => simp [InodeTable.inodeOpen, hl] at hopen
      | some j =>
        obtain rfl : j = i := by simpa [InodeTable.inodeOpen, hl] using hopen
        exact absurd hold (hfresh j rfl)
  · exact InodeTable.inodeOpen_sector hmem hold

/-- There is one inode for a sector, and opening it again returns it. If opened sectors hold inodes
and allocations succeed, a file closed for the last time is found as it was left, until it is
written to or deleted. -/
theorem inodes_persist (s : Mounted) :
    (inodeMachine.Reachable s → s.table.openInodes.Nodup ∧
      (∀ i ∈ s.table.openInodes, ∀ j ∈ s.table.openInodes,
        (s.table.inode i).sector = (s.table.inode j).sector → i = j) ∧
      ∀ i ∈ s.table.openInodes, 0 < (s.table.inode i).openCnt) ∧
    (∀ x mem s₁ i as s₂ mem', inodeMachine.Reachable s →
      inodeMachine.step s (.inodeOpen x mem) = some s₁ →
      (s.table.inodeOpen x mem).1 = some i →
      inodeMachine.Meets (fun s op => ¬ op.LastClose s i) s₁ as →
      inodeMachine.run s₁ as = some s₂ →
      (s₂.table.inodeOpen x mem').1 = some i) ∧
    ∀ s₀ as i s₁, inodeMachine.start s₀ →
      Stored s₀.table.fs (onDisk s₀.table.fs) s₀.live → s₀.live.Nodup →
      inodeMachine.Meets (fun s op => op.Permitted s) s₀ as →
      inodeMachine.run s₀ as = some s → inodeMachine.step s (.inodeClose i) = some s₁ →
      (s.table.inode i).openCnt = 1 → (s.table.inode i).removed = false →
      i ∉ s₁.table.openInodes ∧ (s.table.inode i).sector ∈ s₁.live ∧
      ∀ bs s₂ mem s₃ j,
        inodeMachine.Meets
          (fun s' op => op.Permitted s' ∧ ¬ op.WritesTo s' (s.table.inode i).sector) s₁ bs →
        inodeMachine.run s₁ bs = some s₂ → (s.table.inode i).sector ∈ s₂.live →
        inodeMachine.step s₂ (.inodeOpen (s.table.inode i).sector mem) = some s₃ →
        (s₂.table.inodeOpen (s.table.inode i).sector mem).1 = some j →
        inodeLength (s₃.table.inode j) = inodeLength (s.table.inode i) ∧
        (s.table.fs.mallocOk = true → s₃.table.fs.mallocOk = true →
          ∀ (buffer : Nat → UInt8) (size : Int) (offset : Nat),
            (inodeReadAt s₃.table.fs (s₃.table.inode j) buffer size offset).1 =
                (inodeReadAt s.table.fs (s.table.inode i) buffer size offset).1 ∧
              (inodeReadAt s₃.table.fs (s₃.table.inode j) buffer size offset).2.1 =
                (inodeReadAt s.table.fs (s.table.inode i) buffer size offset).2.1) := by
  refine ⟨fun hs => ?_, ?_, ?_⟩
  · have hcounted := counted_of_reachable hs
    exact ⟨hcounted.nodup, hcounted.sectors, fun i hi => hcounted.pos hi⟩
  · intro x mem s₁ i as s₂ mem' hs hstep hopen hlast hrun
    have hcounted := counted_of_reachable hs
    obtain ⟨hfresh, rfl⟩ := inodeMachine_step hstep
    obtain ⟨hi, hsector⟩ := hcounted.inodeOpen_some hfresh hopen
    have hagain := inodeOpen_again (InodeOp.counted hcounted hfresh) hi hlast hrun mem'
    have hx : (((InodeOp.inodeOpen x mem).exec s).table.inode i).sector = x := hsector
    rwa [hx] at hagain
  · intro s₀ as i s₁ hstart hstored hnodup hmeets hrun hstep hcnt hremoved
    have hs := (Mounted.Sound.of_start hstart hstored hnodup).run hmeets hrun
    obtain ⟨hheld, rfl⟩ := inodeMachine_step hstep
    have hi := (hs.counted.mem_iff i).mp hheld
    obtain ⟨hclosed, hlive⟩ := hs.live_of_close hi hcnt hremoved
    refine ⟨hclosed, hlive, fun bs s₂ mem s₃ j hmeets' hrun' hlive' hopen hj => ?_⟩
    obtain ⟨hs₁, hkeeps₁⟩ := hs.inodeClose hheld
    obtain ⟨hs₂, hkeeps₂⟩ := hs₁.run_keeps hmeets' hrun'
    obtain ⟨hfresh, rfl⟩ := inodeMachine_step hopen
    obtain ⟨hs₃, hkeeps₃⟩ := hs₂.inodeOpen hfresh hlive'
    obtain ⟨hj, hsector⟩ := hs₂.counted.inodeOpen_some hfresh hj
    refine hs.read_eq hs₃ hi hj hsector fun hx => ?_
    obtain ⟨hx₂, hsame₃⟩ := hkeeps₃ _ hx
    obtain ⟨hx₁, hsame₂⟩ := hkeeps₂ hx₂
    obtain ⟨hx₀, hsame₁⟩ := hkeeps₁ _ hx₁
    exact ⟨hx₀, (hsame₁.trans hsame₂).trans hsame₃⟩

lemma mapInode_fits : ∀ inode ∈ some mapInode, (Lib.byteCnt 512 : Int) ≤ inodeLength inode := by
  simp [mapInode, inodeLength, Lib.byteCnt, Lib.elemCnt]

/-- A device with an open free-map file and two sectors, numbers 8 and 9, for new inodes. -/
def pairVolume : FileSys :=
  { mappedVolume with
    freeMap :=
      { map := ⟨512, fun k => if k = 0 then 775 else 0⟩
        file := some mapInode
        fits := mapInode_fits } }

def twoFiles : Mounted where
  table :=
    { fs := (createInode (createInode pairVolume 8 512 false).2 9 0 false).2
      inode := fun _ => mapInode
      openInodes := [] }
  held := []
  live := [9, 8]

lemma pairVolume_ok : FsOk pairVolume := by
  refine ⟨rfl, by decide, fun inode hi => ?_⟩
  obtain rfl := Option.some.inj hi
  have hindex : inodeIndex pairVolume mapInode.data 1 = [] := indexSectors_direct (by decide)
  refine ⟨by decide, by decide, ⟨by decide, rfl, ?_, ?_⟩⟩
  · rw [show bytesToSectors (inodeLength mapInode) = 1 from rfl, hindex, append_nil]
    exact nodup_singleton _
  · rw [show bytesToSectors (inodeLength mapInode) = 1 from rfl, hindex, append_nil]
    intro s hs
    obtain rfl : s = 2 := by simpa [inodeData, dataSectors, resolve, mapInode] using hs
    decide

lemma twoFiles_stored : Stored twoFiles.table.fs (onDisk twoFiles.table.fs) twoFiles.live := by
  have hempty : Stored pairVolume (onDisk pairVolume) [] := .empty pairVolume_ok rfl
  obtain ⟨inode, fs₁, hrun₁, hc₁⟩ := createInode_spec pairVolume_ok (by decide) (by decide)
    (by decide) (by decide) (show (inodeCreate pairVolume 8 512 false).1 = true by decide +kernel)
    (by decide +kernel)
  have hone := hempty.create hrun₁ hc₁ fun y hy => absurd hy not_mem_nil
  have hused : Used fs₁ 9 := (hc₁.alloc.used 9).mpr (Or.inl (by decide))
  have hapart : (9 : BlockSector) ∉ mapData fs₁ ∧ (9 : BlockSector) ∉ mapIndex fs₁ := by
    rw [hc₁.alloc.mapData_eq, hc₁.alloc.mapIndex_eq]
    decide
  have hfs₁ : (createInode pairVolume 8 512 false).2 = fs₁ := by rw [hrun₁]
  have hbuilt : (inodeCreate fs₁ 9 0 false).1 = true := by
    rw [← hfs₁]
    decide +kernel
  have hsucc : (createInode fs₁ 9 0 false).2.allocFailed = false := by
    rw [← hfs₁]
    decide +kernel
  obtain ⟨inode', fs₂, hrun₂, hc₂⟩ := createInode_spec hc₁.alloc.ok hused hapart (by decide)
    (by decide) hbuilt hsucc
  have hfs : twoFiles.table.fs = fs₂ := by
    rw [twoFiles, hrun₁, hrun₂]
  rw [hfs]
  refine hone.create hrun₂ hc₂ fun y hy => ?_
  obtain rfl := mem_singleton.mp hy
  exact hc₁.notMem_fileSectors hrun₁ (by decide) (by decide)

def writeSecond : List InodeOp :=
  [.inodeOpen 9 (some ⟨1⟩), .inodeWriteAt ⟨1⟩ (fun _ => 7) 512 0]

/-- Sector 8 is opened, and a byte is written to the file it is taken to hold. -/
def writeFirst : List InodeOp :=
  [.inodeOpen 8 (some ⟨0⟩), .inodeWriteAt ⟨0⟩ (fun _ => 5) 1 0]

/-- Writing to the first file does not concern the second. -/
theorem inodes_persist_twoFiles :
    ∃ s s₁ s₂ s₃, inodeMachine.run twoFiles writeSecond = some s ∧
      inodeMachine.step s (.inodeClose ⟨1⟩) = some s₁ ∧
      inodeMachine.run s₁ writeFirst = some s₂ ∧
      inodeMachine.step s₂ (.inodeOpen 9 (some ⟨1⟩)) = some s₃ ∧
      inodeLength (s₃.table.inode ⟨1⟩) = inodeLength (s.table.inode ⟨1⟩) ∧
      ∀ (buffer : Nat → UInt8) (size : Int) (offset : Nat),
        (inodeReadAt s₃.table.fs (s₃.table.inode ⟨1⟩) buffer size offset).2.1 =
          (inodeReadAt s.table.fs (s.table.inode ⟨1⟩) buffer size offset).2.1 := by
  refine ⟨_, _, _, _, rfl, rfl, rfl, rfl, ?_⟩
  obtain ⟨-, -, hlater⟩ := (inodes_persist _).2.2 twoFiles writeSecond ⟨1⟩ _ ⟨rfl, rfl⟩
    twoFiles_stored (by decide) (by decide +kernel) rfl rfl (by decide +kernel) (by decide +kernel)
  obtain ⟨hlen, hread⟩ := hlater writeFirst _ (some ⟨1⟩) _ ⟨1⟩ (by decide +kernel) rfl
    (by decide +kernel) rfl (by decide +kernel)
  refine ⟨hlen, fun buffer size offset => (hread ?_ ?_ buffer size offset).2⟩
  all_goals decide +kernel

/-- The first file is deleted, and the second takes over its data sector. -/
def deleteFirst : List InodeOp :=
  [.inodeOpen 8 (some ⟨0⟩), .inodeOpen 9 (some ⟨1⟩), .inodeRemove ⟨0⟩, .inodeClose ⟨0⟩,
    .inodeWriteAt ⟨1⟩ (fun _ => 7) 512 0]

/-- What `inode_open` finds in a released sector is taken for an inode, and a write through it
changes another file. -/
theorem inodeOpen_deleted_changes_file :
    inodeMachine.start twoFiles ∧
    Stored twoFiles.table.fs (onDisk twoFiles.table.fs) twoFiles.live ∧
    ∃ s s₁ s₂ s₃, inodeMachine.run twoFiles deleteFirst = some s ∧
      inodeMachine.Meets (fun s op => op.Succeeds s) twoFiles deleteFirst ∧
      inodeMachine.step s (.inodeClose ⟨1⟩) = some s₁ ∧
      (s.table.inode ⟨1⟩).openCnt = 1 ∧ (s.table.inode ⟨1⟩).removed = false ∧
      (s.table.inode ⟨1⟩).sector = 9 ∧
      inodeMachine.run s₁ writeFirst = some s₂ ∧
      inodeMachine.Meets (fun s op => op.Succeeds s ∧ ¬ op.WritesTo s 9) s₁ writeFirst ∧
      9 ∈ s₂.live ∧ inodeMachine.step s₂ (.inodeOpen 9 (some ⟨1⟩)) = some s₃ ∧
      (s₂.table.inodeOpen 9 (some ⟨1⟩)).1 = some ⟨1⟩ ∧
      s.table.fs.mallocOk = true ∧ s₃.table.fs.mallocOk = true ∧
      s₃.table.fs.panicked = false ∧
      (inodeReadAt s.table.fs (s.table.inode ⟨1⟩) (fun _ => 0) 1 0).2.1 0 = 7 ∧
      (inodeReadAt s₃.table.fs (s₃.table.inode ⟨1⟩) (fun _ => 0) 1 0).2.1 0 = 5 := by
  refine ⟨⟨rfl, rfl⟩, twoFiles_stored, _, _, _, _, rfl, ?_, rfl, ?_, ?_, ?_, rfl, ?_, ?_, rfl, ?_,
    ?_, ?_, ?_, ?_, ?_⟩
  all_goals decide +kernel

end Pintos.Filesys
