import Pintos.Foundation.PackedWords
import Mathlib.Tactic.SplitIfs

/-!
# Partition tables (devices/partition.c)

`partition_scan` reads the table in sector 0 and is meant to follow its extended
partitions to further tables. `read_partition_table` reads sector 0 whatever table it is
called for, so that only the numbers it computes along the way depend on the table it is
at. The recursion is bounded here by `fuel`.
-/

namespace Pintos.Devices

open Foundation List

structure Disk where
  size : UInt32
  sector : UInt32 → ByteBlock 512

/-- `struct partition_table_entry`, with the fields that are read. -/
structure Entry where
  type : UInt8
  offset : UInt32
  size : UInt32
  deriving DecidableEq

def fieldOf (b : ByteBlock 512) (i : Fin 509) : UInt32 :=
  wordOfBytes (b ⟨i, by omega⟩) (b ⟨i + 1, by omega⟩) (b ⟨i + 2, by omega⟩) (b ⟨i + 3, by omega⟩)

/-- Entry `i` of the four that follow the 446 bytes of the loader. -/
def Entry.ofBlock (b : ByteBlock 512) (i : Fin 4) : Entry where
  type := b ⟨446 + 16 * i + 4, by omega⟩
  offset := fieldOf b ⟨446 + 16 * i + 8, by omega⟩
  size := fieldOf b ⟨446 + 16 * i + 12, by omega⟩

def entries (b : ByteBlock 512) : List Entry :=
  [.ofBlock b 0, .ofBlock b 1, .ofBlock b 2, .ofBlock b 3]

def Signed (b : ByteBlock 512) : Prop := b 510 = 0x55 ∧ b 511 = 0xaa

instance (b : ByteBlock 512) : Decidable (Signed b) := inferInstanceAs (Decidable (_ ∧ _))

namespace Entry

def Empty (e : Entry) : Prop := e.size = 0 ∨ e.type = 0

def Extended (e : Entry) : Prop :=
  e.type = 0x05 ∨ e.type = 0x0f ∨ e.type = 0x85 ∨ e.type = 0xc5

instance (e : Entry) : Decidable e.Empty := inferInstanceAs (Decidable (_ ∨ _))

instance (e : Entry) : Decidable e.Extended := inferInstanceAs (Decidable (_ ∨ _))

/-- The table an extended entry leads to, and the primary sector it is read with. -/
def target (e : Entry) (sector primary : UInt32) : UInt32 × UInt32 :=
  if sector = 0 then (e.offset, e.offset) else (e.offset + primary, primary)

end Entry

inductive BlockType where
  | kernel
  | filesys
  | scratch
  | swap
  | foreign
  deriving DecidableEq

inductive Message where
  | tablePastEnd (sector : UInt32)
  | invalidSignature
  | invalidExtended (sector : UInt32)
  | extended (sector : UInt32)
  | startPastEnd (partNr : Nat) (start : UInt32)
  | endPastEnd (partNr : Nat) (last : UInt32)
  | noPartitions
  deriving DecidableEq

structure Found where
  type : UInt8
  start : UInt32
  size : UInt32
  partNr : Nat
  deriving DecidableEq

structure Registered where
  partNr : Nat
  type : BlockType
  start : UInt32
  size : UInt32
  deriving DecidableEq

/-- What a scan has done so far, all in order. -/
structure Scan where
  partNr : Nat
  found : List Found
  registered : List Registered
  console : List Message

namespace Scan

def init : Scan := ⟨0, [], [], []⟩

def print (s : Scan) (m : Message) : Scan := { s with console := s.console ++ [m] }

end Scan

def blockTypeOf (partType : UInt8) : BlockType :=
  if partType = 0x20 then .kernel
  else if partType = 0x21 then .filesys
  else if partType = 0x22 then .scratch
  else if partType = 0x23 then .swap
  else .foreign

def foundPartition (d : Disk) (f : Found) (s : Scan) : Scan :=
  let s := { s with found := s.found ++ [f] }
  if f.start ≥ d.size then s.print (.startPastEnd f.partNr f.start)
  else if f.start + f.size < f.start ∨ f.start + f.size > d.size then
    s.print (.endPastEnd f.partNr (f.start + f.size))
  else
    { s with
      registered := s.registered ++ [⟨f.partNr, blockTypeOf f.type, f.start, f.size⟩] }

/-- The loop over the entries of the table in `sector`; `read` is the recursive call. -/
def scanEntries (d : Disk) (read : UInt32 → UInt32 → Scan → Option Scan)
    (sector primary : UInt32) : List Entry → Scan → Option Scan
  | [], s => some s
  | e :: es, s =>
      if e.Empty then scanEntries d read sector primary es s
      else if e.Extended then
        match read (e.target sector primary).1 (e.target sector primary).2
            (s.print (.extended sector)) with
        | some s' => scanEntries d read sector primary es s'
        | none => none
      else
        let s := { s with partNr := s.partNr + 1 }
        scanEntries d read sector primary es
          (foundPartition d ⟨e.type, e.offset + sector, e.size, s.partNr⟩ s)

def readPartitionTable (d : Disk) : Nat → UInt32 → UInt32 → Scan → Option Scan
  | 0, _, _, _ => none
  | fuel + 1, sector, primary, s =>
      if sector ≥ d.size then some (s.print (.tablePastEnd sector))
      else
        -- The source passes 0 to `block_read`, not `sector`.
        let pt := d.sector 0
        if Signed pt then
          scanEntries d (readPartitionTable d fuel) sector primary (entries pt) s
        else if primary = 0 then some (s.print .invalidSignature)
        else some (s.print (.invalidExtended sector))

def partitionScan (d : Disk) (fuel : Nat) : Option Scan :=
  match readPartitionTable d fuel 0 0 .init with
  | some s => some (if s.partNr = 0 then s.print .noPartitions else s)
  | none => none

/-- The partitions that the entries `es` describe, with those of the tables they lead to, in the
order of the traversal. A derivation is finite, so no table leads back to itself. -/
inductive Described (d : Disk) : UInt32 → UInt32 → List Entry → List Found → Prop
  | nil {sector primary : UInt32} : Described d sector primary [] []
  | empty {sector primary : UInt32} {e : Entry} {es : List Entry} {fs : List Found}
      (he : e.Empty) (hes : Described d sector primary es fs) :
      Described d sector primary (e :: es) fs
  | partition {sector primary : UInt32} {e : Entry} {es : List Entry} {fs : List Found}
      (he : ¬ e.Empty) (hx : ¬ e.Extended) (hes : Described d sector primary es fs) :
      Described d sector primary (e :: es) (⟨e.type, e.offset + sector, e.size, 0⟩ :: fs)
  | extended {sector primary : UInt32} {e : Entry} {es : List Entry} {fs gs : List Found}
      (he : ¬ e.Empty) (hx : e.Extended) (hin : (e.target sector primary).1 < d.size)
      (hs : Signed (d.sector (e.target sector primary).1))
      (hsub : Described d (e.target sector primary).1 (e.target sector primary).2
        (entries (d.sector (e.target sector primary).1)) gs)
      (hes : Described d sector primary es fs) :
      Described d sector primary (e :: es) (gs ++ fs)

/-- The partitions numbered in order, from `n + 1` on. -/
def numbered (n : Nat) : List Found → List Found
  | [] => []
  | f :: fs => { f with partNr := n + 1 } :: numbered (n + 1) fs

def extendedEntries (d : Disk) : List Entry :=
  (entries (d.sector 0)).filter fun e => ¬ e.Empty ∧ e.Extended

def Terminates (d : Disk) : Prop := ∃ fuel, (partitionScan d fuel).isSome

variable {d : Disk}

lemma mem_extendedEntries {e : Entry} :
    e ∈ extendedEntries d ↔ e ∈ entries (d.sector 0) ∧ ¬ e.Empty ∧ e.Extended := by
  simp [extendedEntries]

variable {read : UInt32 → UInt32 → Scan → Option Scan} {sector primary : UInt32} {es : List Entry}
  {fuel : Nat} {fs : List Found} {s : Scan}

/-- A loop that comes to an extended entry whose table cannot be read to its end does not
end either. -/
lemma scanEntries_eq_none {e : Entry} (he : ¬ e.Empty) (hx : e.Extended)
    (hnone : ∀ s, read (e.target sector primary).1 (e.target sector primary).2 s = none)
    (hmem : e ∈ es) (s : Scan) : scanEntries d read sector primary es s = none := by
  induction es generalizing s with
  | nil => cases hmem
  | cons f es ih =>
    rcases mem_cons.mp hmem with rfl | hmem
    · simp [scanEntries, he, hx, hnone]
    · unfold scanEntries
      split_ifs with hf hfx
      · exact ih hmem s
      · cases read (f.target sector primary).1 (f.target sector primary).2
            (s.print (.extended sector)) with
        | none => rfl
        | some s' => exact ih hmem s'
      · exact ih hmem _

/-- A set of tables each of which leads to another one of the set is never left. -/
lemma readPartitionTable_eq_none {I : UInt32 → UInt32 → Prop} (hsig : Signed (d.sector 0))
    (hstep : ∀ sector primary, I sector primary → sector < d.size ∧
      ∃ e ∈ extendedEntries d,
        I (e.target sector primary).1 (e.target sector primary).2) (fuel : Nat)
    (hI : I sector primary) (s : Scan) : readPartitionTable d fuel sector primary s = none := by
  induction fuel generalizing sector primary s with
  | zero => rfl
  | succ fuel ih =>
    obtain ⟨hin, e, he, hnext⟩ := hstep sector primary hI
    obtain ⟨hmem, hne, hx⟩ := mem_extendedEntries.mp he
    have hread : ¬ sector ≥ d.size := UInt32.not_le.mpr hin
    simp only [readPartitionTable, if_neg hread, if_pos hsig]
    exact scanEntries_eq_none hne hx (ih hnext) hmem s

lemma scanEntries_isSome (hread : ∀ e ∈ es, ¬ e.Empty → e.Extended →
      ∀ s, (read (e.target sector primary).1 (e.target sector primary).2 s).isSome) (s : Scan) :
    (scanEntries d read sector primary es s).isSome := by
  induction es generalizing s with
  | nil => rfl
  | cons e es ih =>
    have hes := fun f hf => hread f (mem_cons_of_mem e hf)
    unfold scanEntries
    split_ifs with he hx
    · exact ih hes s
    · obtain ⟨s', hs'⟩ := Option.isSome_iff_exists.mp
        (hread e mem_cons_self he hx (s.print (.extended sector)))
      rw [hs']
      exact ih hes s'
    · exact ih hes _

lemma readPartitionTable_isSome
    (h : sector < d.size → Signed (d.sector 0) → ∀ e ∈ extendedEntries d,
      ∀ s, (readPartitionTable d fuel (e.target sector primary).1
        (e.target sector primary).2 s).isSome) (s : Scan) :
    (readPartitionTable d (fuel + 1) sector primary s).isSome := by
  simp only [readPartitionTable]
  split_ifs with hend hsig
  · rfl
  · refine scanEntries_isSome (fun e he hne hx => ?_) s
    exact h (UInt32.not_le.mp hend) hsig e (mem_extendedEntries.mpr ⟨he, hne, hx⟩)
  · rfl
  · rfl

lemma partitionScan_isSome_iff (fuel : Nat) :
    (partitionScan d fuel).isSome ↔ (readPartitionTable d fuel 0 0 .init).isSome := by
  unfold partitionScan
  cases readPartitionTable d fuel 0 0 .init <;> simp

/-- No entry leads into a circle: an extended entry to a table on the device is not to sector 0, and
all extended entries of its table point past the end. -/
def Escapes (d : Disk) : Prop :=
  ∀ e ∈ extendedEntries d, e.offset < d.size →
    e.offset ≠ 0 ∧ ∀ f ∈ extendedEntries d, f.offset + e.offset ≥ d.size

lemma Escapes.terminates (h : 0 < d.size → Signed (d.sector 0) → Escapes d) : Terminates d := by
  refine ⟨3, (partitionScan_isSome_iff 3).mpr ?_⟩
  refine readPartitionTable_isSome (fun hin hsig e he => ?_) _
  refine readPartitionTable_isSome fun hin' _ f hf s => ?_
  simp only [Entry.target, if_true] at hin' ⊢
  obtain ⟨hne, hpast⟩ := h hin hsig e he hin'
  rw [if_neg hne]
  simp [readPartitionTable, if_pos (hpast f hf)]

lemma not_terminates {e f : Entry} (hsig : Signed (d.sector 0)) (he : e ∈ extendedEntries d)
    (hf : f ∈ extendedEntries d) (hin : e.offset < d.size)
    (hback : e.offset = 0 ∨ f.offset + e.offset < d.size) : ¬ Terminates d := by
  rintro ⟨fuel, hfuel⟩
  rw [partitionScan_isSome_iff] at hfuel
  have hpos : 0 < d.size := UInt32.lt_of_le_of_lt (UInt32.zero_le) hin
  suffices readPartitionTable d fuel 0 0 .init = none by rw [this] at hfuel; cases hfuel
  by_cases hzero : e.offset = 0
  · -- The entry leads to sector 0 itself.
    refine readPartitionTable_eq_none (I := fun s p => s = 0 ∧ p = 0) hsig ?_ fuel ⟨rfl, rfl⟩ _
    rintro _ _ ⟨rfl, rfl⟩
    exact ⟨hpos, e, he, by simp [Entry.target, hzero]⟩
  · have hback := hback.resolve_left hzero
    -- From sector 0 to the table of `e`, from there to that of `f`, and back to one of these.
    refine readPartitionTable_eq_none
      (I := fun s p => s = 0 ∨ (s = e.offset ∨ s = f.offset + e.offset) ∧ p = e.offset)
      hsig ?_ fuel (.inl rfl) _
    intro s p hI
    by_cases hs : s = 0
    · subst hs
      exact ⟨hpos, e, he, .inr ⟨.inl (by simp [Entry.target]), by simp [Entry.target]⟩⟩
    · obtain ⟨hs', rfl⟩ := hI.resolve_left hs
      refine ⟨?_, f, hf, .inr ⟨.inr (by simp [Entry.target, hs]), by simp [Entry.target, hs]⟩⟩
      rcases hs' with rfl | rfl
      · exact hin
      · exact hback

lemma terminates_iff : Terminates d ↔ (0 < d.size → Signed (d.sector 0) → Escapes d) := by
  refine ⟨fun h _ hsig e he hin => ?_, Escapes.terminates⟩
  constructor
  · intro hzero
    exact not_terminates hsig he he hin (.inl hzero) h
  · intro f hf
    exact UInt32.not_lt.mp fun hback => not_terminates hsig he hf hin (.inr hback) h

/-! ## The partitions found -/

lemma foundPartition_found (f : Found) (s : Scan) :
    (foundPartition d f s).found = s.found ++ [f] := by
  unfold foundPartition
  dsimp only
  split_ifs <;> rfl

lemma foundPartition_partNr (f : Found) (s : Scan) : (foundPartition d f s).partNr = s.partNr := by
  unfold foundPartition
  dsimp only
  split_ifs <;> rfl

/-- Where no entry leads to a table on the device, the loop finds what the entries
describe. -/
lemma scanEntries_found (h : Described d sector primary es fs)
    (hout : ∀ e ∈ es, ¬ e.Empty → e.Extended → (e.target sector primary).1 ≥ d.size) (s : Scan) :
    ∃ s', scanEntries d read sector primary es s = some s' ∧
      s'.found = s.found ++ numbered s.partNr fs := by
  induction h generalizing s with
  | nil => exact ⟨s, rfl, by simp [numbered]⟩
  | @empty sector primary e es fs he _ ih =>
    simp only [scanEntries, if_pos he]
    exact ih (fun f hf => hout f (mem_cons_of_mem e hf)) s
  | @partition sector primary e es fs he hx _ ih =>
    simp only [scanEntries, if_neg he, if_neg hx]
    obtain ⟨s', hs', hfound⟩ := ih (fun f hf => hout f (mem_cons_of_mem e hf))
      (foundPartition d ⟨e.type, e.offset + sector, e.size, s.partNr + 1⟩
        { s with partNr := s.partNr + 1 })
    refine ⟨s', hs', ?_⟩
    rw [hfound, foundPartition_found, foundPartition_partNr]
    simp [numbered]
  | extended he hx hin =>
    exact absurd hin (UInt32.not_lt.mpr (hout _ mem_cons_self he hx))

/-- The partitions of a disk, in order; without a table in sector 0 there are none. -/
def Partitions (d : Disk) (fs : List Found) : Prop :=
  if 0 < d.size ∧ Signed (d.sector 0) then Described d 0 0 (entries (d.sector 0)) fs
  else fs = []

lemma readPartitionTable_found (h : Partitions d fs)
    (hout : ∀ e ∈ extendedEntries d, e.offset ≥ d.size) (fuel : Nat) :
    ∃ s, readPartitionTable d (fuel + 1) 0 0 .init = some s ∧ s.found = numbered 0 fs := by
  unfold Partitions at h
  unfold readPartitionTable
  by_cases hpos : 0 < d.size
  · by_cases hsig : Signed (d.sector 0)
    · rw [if_pos ⟨hpos, hsig⟩] at h
      rw [if_neg (UInt32.not_le.mpr hpos)]
      simp only [if_pos hsig]
      refine scanEntries_found h (fun e he hne hx => ?_) .init
      exact hout e (mem_extendedEntries.mpr ⟨he, hne, hx⟩)
    · rw [if_neg fun hc => hsig hc.2] at h
      subst h
      rw [if_neg (UInt32.not_le.mpr hpos)]
      simp only [if_neg hsig, if_true]
      exact ⟨_, rfl, rfl⟩
  · rw [if_neg fun hc => hpos hc.1] at h
    subst h
    rw [if_pos (UInt32.not_lt.mp hpos)]
    exact ⟨_, rfl, rfl⟩

lemma partitionScan_found (h : Partitions d fs)
    (hout : ∀ e ∈ extendedEntries d, e.offset ≥ d.size) (hs : partitionScan d fuel = some s) :
    s.found = numbered 0 fs := by
  unfold partitionScan at hs
  cases fuel with
  | zero => cases hs
  | succ fuel =>
    obtain ⟨s', hs', hfound⟩ := readPartitionTable_found h hout fuel
    rw [hs'] at hs
    simp only [Option.some.injEq] at hs
    subst hs
    split_ifs <;> exact hfound

/-- A disk of 64 sectors with one partition. -/
def plainDisk : Disk where
  size := 64
  sector := fun _ i =>
    if i = 510 then 0x55
    else if i = 511 then 0xaa
    else if i = 450 then 0x21
    else if i = 454 then 2
    else if i = 458 then 5
    else 0

/-- 64 sectors with an extended partition, whose table describes one partition. -/
def nestedDisk : Disk where
  size := 64
  sector := fun n i =>
    if i = 510 then 0x55
    else if i = 511 then 0xaa
    else if n = 0 then
      if i = 450 then 5 else if i = 454 then 10 else if i = 458 then 20 else 0
    else
      if i = 450 then 0x21 else if i = 454 then 1 else if i = 458 then 5 else 0

lemma nestedDisk_entries :
    entries (nestedDisk.sector 0) = [⟨5, 10, 20⟩, ⟨0, 0, 0⟩, ⟨0, 0, 0⟩, ⟨0, 0, 0⟩] ∧
      entries (nestedDisk.sector 10) = [⟨0x21, 1, 5⟩, ⟨0, 0, 0⟩, ⟨0, 0, 0⟩, ⟨0, 0, 0⟩] := by
  decide +kernel

def Registered.Fits (d : Disk) (r : Registered) : Prop :=
  r.start.toNat + r.size.toNat ≤ d.size.toNat

lemma foundPartition_fits {f : Found} (h : ∀ r ∈ s.registered, r.Fits d) :
    ∀ r ∈ (foundPartition d f s).registered, r.Fits d := by
  unfold foundPartition
  dsimp only
  split_ifs with hstart hend
  · exact h
  · exact h
  · intro r hr
    rcases mem_append.mp hr with hr | hr
    · exact h r hr
    · rw [mem_singleton.mp hr]
      simp only [not_or, UInt32.not_lt] at hend
      have hadd : (f.start + f.size).toNat = (f.start.toNat + f.size.toNat) % 2 ^ 32 :=
        UInt32.toNat_add _ _
      have hle := UInt32.le_iff_toNat_le.mp hend.1
      have hsize := UInt32.le_iff_toNat_le.mp hend.2
      have hlt := f.size.toNat_lt
      unfold Registered.Fits
      dsimp only
      omega

lemma scanEntries_fits (hread : ∀ sector primary s s', (∀ r ∈ s.registered, r.Fits d) →
      read sector primary s = some s' → ∀ r ∈ s'.registered, r.Fits d) {s' : Scan}
    (h : ∀ r ∈ s.registered, r.Fits d) (hs : scanEntries d read sector primary es s = some s') :
    ∀ r ∈ s'.registered, r.Fits d := by
  induction es generalizing s with
  | nil =>
    cases hs
    exact h
  | cons e es ih =>
    unfold scanEntries at hs
    split_ifs at hs with he hx
    · exact ih h hs
    · split at hs
      case h_1 s'' hsub => exact ih (hread _ _ (s.print (.extended sector)) s'' h hsub) hs
      case h_2 => cases hs
    · exact ih (foundPartition_fits (s := { s with partNr := s.partNr + 1 }) h) hs

lemma readPartitionTable_fits {s' : Scan} (h : ∀ r ∈ s.registered, r.Fits d)
    (hs : readPartitionTable d fuel sector primary s = some s') :
    ∀ r ∈ s'.registered, r.Fits d := by
  induction fuel generalizing sector primary s s' with
  | zero => cases hs
  | succ fuel ih =>
    unfold readPartitionTable at hs
    dsimp only at hs
    split_ifs at hs with hend hsig hzero
    · cases hs
      exact h
    · exact scanEntries_fits (fun _ _ _ _ h hs => ih h hs) h hs
    · cases hs
      exact h
    · cases hs
      exact h

/-- Whatever the tables say, a partition that is registered lies on the device. -/
lemma partitionScan_fits (hs : partitionScan d fuel = some s) : ∀ r ∈ s.registered, r.Fits d := by
  unfold partitionScan at hs
  split at hs
  case h_1 s' hs' =>
      cases hs
      have hfits := readPartitionTable_fits (s := .init) nofun hs'
      split_ifs <;> exact hfits
  case h_2 => cases hs

end Pintos.Devices
