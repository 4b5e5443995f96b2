import Pintos.Devices.Partition
import Pintos.Foundation.Transition

/-!
# Block devices (devices/block.c, devices/partition.c)

Reads and writes of registered devices. A disk is served by its drive; a partition passes the
access on to the device it was found on, which checks the sector once more. `found_partition`
is the one of the scan of partition tables, called here on any registered device with any
arguments.
-/

namespace Pintos.Devices

open Foundation Function List UInt32

/-- `struct block` and its driver; `nr` is its place in `all_blocks`. -/
inductive Block where
  /-- A disk of ide.c, of type `BLOCK_RAW`. -/
  | disk (nr : Nat) (size : UInt32) (drive : Nat)
  | partition (nr : Nat) (type : BlockType) (size : UInt32) (start : UInt32) (block : Block)

namespace Block

@[simp] def nr : Block → Nat
  | disk nr _ _ => nr
  | partition nr _ _ _ _ => nr

@[simp] def size : Block → UInt32
  | disk _ size _ => size
  | partition _ _ size _ _ => size

end Block

inductive BlockPanic where
  /-- "Access past end of device %s (sector=%u, size=%u)" -/
  | pastEnd (nr : Nat) (sector size : UInt32)
  /-- `ASSERT (block->type != BLOCK_FOREIGN)` -/
  | foreign (nr : Nat)

/-- The registered devices with their counters, and the sectors of the drives. -/
structure BlockLayer where
  all : List Block
  readCnt : Nat → UInt64
  writeCnt : Nat → UInt64
  media : Nat → UInt32 → ByteBlock 512

def checkSector (b : Block) (sector : UInt32) : Except BlockPanic Unit :=
  if sector ≥ b.size then .error (.pastEnd b.nr sector b.size) else .ok ()

namespace BlockLayer

def countRead (s : BlockLayer) (nr : Nat) : BlockLayer :=
  { s with readCnt := Function.update s.readCnt nr (s.readCnt nr + 1) }

def countWrite (s : BlockLayer) (nr : Nat) : BlockLayer :=
  { s with writeCnt := Function.update s.writeCnt nr (s.writeCnt nr + 1) }

def ideRead (s : BlockLayer) (drive : Nat) (sector : UInt32) : ByteBlock 512 :=
  s.media drive sector

def ideWrite (s : BlockLayer) (drive : Nat) (sector : UInt32) (buffer : ByteBlock 512) :
    BlockLayer :=
  { s with
    media := Function.update s.media drive (Function.update (s.media drive) sector buffer) }

def blockRead (s : BlockLayer) : Block → UInt32 → Except BlockPanic (BlockLayer × ByteBlock 512)
  | .disk nr size drive, sector => do
      checkSector (.disk nr size drive) sector
      return (s.countRead nr, s.ideRead drive sector)
  | .partition nr type size start block, sector => do
      checkSector (.partition nr type size start block) sector
      let (s, buffer) ← s.blockRead block (start + sector)
      return (s.countRead nr, buffer)

/-- The operation behind a partition, as `blockRead` calls it. -/
def partitionRead (s : BlockLayer) (start : UInt32) (block : Block) (sector : UInt32) :
    Except BlockPanic (BlockLayer × ByteBlock 512) :=
  s.blockRead block (start + sector)

def blockWrite (s : BlockLayer) : Block → UInt32 → ByteBlock 512 → Except BlockPanic BlockLayer
  | .disk nr size drive, sector, buffer => do
      checkSector (.disk nr size drive) sector
      return (s.ideWrite drive sector buffer).countWrite nr
  | .partition nr type size start block, sector, buffer => do
      checkSector (.partition nr type size start block) sector
      if type = .foreign then throw (.foreign nr)
      let s ← s.blockWrite block (start + sector) buffer
      return s.countWrite nr

def partitionWrite (s : BlockLayer) (start : UInt32) (block : Block) (sector : UInt32)
    (buffer : ByteBlock 512) : Except BlockPanic BlockLayer :=
  s.blockWrite block (start + sector) buffer

/-- `register_disk` for a drive of `size` sectors. -/
def registerDisk (s : BlockLayer) (size : UInt32) (drive : Nat) : BlockLayer :=
  { s with all := s.all ++ [.disk s.all.length size drive] }

def foundPartition (s : BlockLayer) (block : Block) (f : Found) : BlockLayer :=
  let found := (Devices.foundPartition ⟨block.size, fun _ _ => 0⟩ f .init).registered
  { s with
    all := s.all ++ found.map fun r => .partition s.all.length r.type r.size r.start block }

inductive Label where
  | registerDisk (size : UInt32) (drive : Nat)
  | foundPartition (nr : Nat) (f : Found)
  | read (nr : Nat) (sector : UInt32)
  | write (nr : Nat) (sector : UInt32) (buffer : ByteBlock 512)

/-- A panic is the end of the run. -/
def step (s : BlockLayer) : Label → Option BlockLayer
  | .registerDisk size drive => some (s.registerDisk size drive)
  | .foundPartition nr f => s.all[nr]?.map fun b => s.foundPartition b f
  | .read nr sector =>
      s.all[nr]?.bind fun b => (s.blockRead b sector).toOption.map Prod.fst
  | .write nr sector buffer => s.all[nr]?.bind fun b => (s.blockWrite b sector buffer).toOption

def machine : Machine BlockLayer Label := ⟨fun s => s.all = [], step⟩

end BlockLayer

namespace Block

/-- Every partition of the chain lies on the device it was found on. -/
def Fits : Block → Prop
  | disk _ _ _ => True
  | partition _ _ size start block => start.toNat + size.toNat ≤ block.size.toNat ∧ block.Fits

/-- The drive behind a device and the sector of it that is sector `k` of the device. -/
def place : Block → Nat → Nat × Nat
  | disk _ _ drive, k => (drive, k)
  | partition _ _ _ start block, k => block.place (start.toNat + k)

/-- No device of the chain is foreign. -/
def Writable : Block → Prop
  | disk _ _ _ => True
  | partition _ type _ _ block => type ≠ .foreign ∧ block.Writable

end Block

variable {sector : UInt32}

lemma checkSector_eq_ok {b : Block} : checkSector b sector = .ok () ↔ sector < b.size := by
  unfold checkSector
  split
  next h => exact iff_of_false nofun (UInt32.not_lt.mpr h)
  next h => exact iff_of_true rfl (UInt32.not_le.mp h)

lemma of_bind_eq_ok {α β : Type} {x : Except BlockPanic α} {rest : α → Except BlockPanic β}
    {out : β} (h : (x >>= rest) = .ok out) : ∃ a, x = .ok a ∧ rest a = .ok out := by
  cases x with
  | error e => cases h
  | ok a => exact ⟨a, rfl, h⟩

/-- A sector of a partition is one of the device below, and the sum does not wrap around. -/
lemma partition_sector {start size deviceSize : UInt32}
    (hfits : start.toNat + size.toNat ≤ deviceSize.toNat) (hsector : sector < size) :
    (start + sector).toNat = start.toNat + sector.toNat ∧ start + sector < deviceSize := by
  have hlt := lt_iff_toNat_lt.mp hsector
  have hdevice := deviceSize.toNat_lt
  have hadd : (start + sector).toNat = start.toNat + sector.toNat := by
    rw [UInt32.toNat_add]
    exact Nat.mod_eq_of_lt (by omega)
  refine ⟨hadd, lt_iff_toNat_lt.mpr ?_⟩
  omega

namespace BlockLayer

variable {b : Block} {sector : UInt32} {s : BlockLayer}

lemma blockRead_eq (s : BlockLayer) (hb : b.Fits) (hsector : sector < b.size) :
    ∃ s', s.blockRead b sector =
        .ok (s', s.media (b.place sector.toNat).1 (ofNat (b.place sector.toNat).2)) := by
  induction b generalizing sector with
  | disk nr size drive =>
    refine ⟨s.countRead nr, ?_⟩
    rw [blockRead, checkSector_eq_ok.mpr hsector, Block.place, UInt32.ofNat_toNat]
    rfl
  | partition nr type size start block ih =>
    obtain ⟨hadd, hlt⟩ := partition_sector hb.1 hsector
    obtain ⟨s', hread⟩ := ih hb.2 hlt
    refine ⟨s'.countRead nr, ?_⟩
    rw [blockRead, checkSector_eq_ok.mpr hsector, hread, Block.place, hadd]
    rfl

lemma blockWrite_eq (s : BlockLayer) (hb : b.Fits) (hwritable : b.Writable)
    (hsector : sector < b.size) (buffer : ByteBlock 512) :
    ∃ s', s.blockWrite b sector buffer = .ok s' ∧
      s'.media = (s.ideWrite (b.place sector.toNat).1
        (ofNat (b.place sector.toNat).2) buffer).media := by
  induction b generalizing sector with
  | disk nr size drive =>
    refine ⟨(s.ideWrite drive sector buffer).countWrite nr, ?_, ?_⟩
    · rw [blockWrite, checkSector_eq_ok.mpr hsector]
      rfl
    · rw [Block.place, UInt32.ofNat_toNat]
      rfl
  | partition nr type size start block ih =>
    obtain ⟨hadd, hlt⟩ := partition_sector hb.1 hsector
    obtain ⟨s', hwrite, hmedia⟩ := ih hb.2 hwritable.2 hlt
    refine ⟨s'.countWrite nr, ?_, ?_⟩
    · rw [blockWrite, checkSector_eq_ok.mpr hsector, if_neg hwritable.1, hwrite]
      rfl
    · rwa [Block.place, ← hadd]

lemma blockRead_all {s' : BlockLayer} {buffer : ByteBlock 512}
    (h : s.blockRead b sector = .ok (s', buffer)) : s'.all = s.all := by
  induction b generalizing sector s' buffer with
  | disk nr size drive =>
    obtain ⟨-, -, h⟩ := of_bind_eq_ok h
    cases h
    rfl
  | partition nr type size start block ih =>
    obtain ⟨-, -, h⟩ := of_bind_eq_ok h
    obtain ⟨out, hread, h⟩ := of_bind_eq_ok h
    cases h
    exact (ih hread :)

lemma blockWrite_all {s' : BlockLayer} {buffer : ByteBlock 512}
    (h : s.blockWrite b sector buffer = .ok s') : s'.all = s.all := by
  induction b generalizing sector s' with
  | disk nr size drive =>
    obtain ⟨-, -, h⟩ := of_bind_eq_ok h
    cases h
    rfl
  | partition nr type size start block ih =>
    obtain ⟨-, -, h⟩ := of_bind_eq_ok h
    split at h
    · cases h
    · obtain ⟨out, hwrite, h⟩ := of_bind_eq_ok h
      cases h
      exact (ih hwrite :)

lemma registered_fits {block : Block} (hblock : block.Fits) (f : Found) (nr : Nat) :
    ∀ b ∈ (Devices.foundPartition ⟨block.size, fun _ _ => 0⟩ f .init).registered.map
      (fun r => Block.partition nr r.type r.size r.start block), b.Fits := by
  intro b hb
  obtain ⟨r, hr, rfl⟩ := mem_map.mp hb
  have hfits : r.Fits ⟨block.size, fun _ _ => 0⟩ :=
    foundPartition_fits (s := .init) (fun r hr => absurd hr not_mem_nil) r hr
  exact ⟨hfits, hblock⟩

lemma fits_of_reachable (hs : machine.Reachable s) : ∀ b ∈ s.all, b.Fits := by
  refine hs.invariant (I := fun s => ∀ b ∈ s.all, b.Fits) ?_ ?_
  · intro s hstart b hb
    rw [show s.all = [] from hstart] at hb
    cases hb
  · intro s label s' hfits hstep
    cases label with
    | registerDisk size drive =>
      cases hstep
      intro b hb
      rcases mem_append.mp hb with hb | hb
      · exact hfits b hb
      · rw [mem_singleton.mp hb]
        trivial
    | foundPartition nr f =>
      obtain ⟨block, hblock, rfl⟩ := Option.map_eq_some_iff.mp hstep
      have hnew := registered_fits (hfits block (mem_of_getElem? hblock)) f s.all.length
      intro b hb
      rcases mem_append.mp hb with hb | hb
      · exact hfits b hb
      · exact hnew b hb
    | read nr sector =>
      obtain ⟨b, -, hread⟩ := Option.bind_eq_some_iff.mp hstep
      cases hout : s.blockRead b sector with
      | error e =>
        rw [hout] at hread
        cases hread
      | ok out =>
        rw [hout] at hread
        cases hread
        rw [blockRead_all hout]
        exact hfits
    | write nr sector buffer =>
      obtain ⟨b, -, hwrite⟩ := Option.bind_eq_some_iff.mp hstep
      cases hout : s.blockWrite b sector buffer with
      | error e =>
        rw [hout] at hwrite
        cases hwrite
      | ok out =>
        rw [hout] at hwrite
        cases hwrite
        rw [blockWrite_all hout]
        exact hfits

/-- What `block_read` and `block_write` accept for a partition is a sector of its device, without
wrap-around, and of all devices below. -/
theorem partition_stays {s : BlockLayer} (hs : machine.Reachable s) {nr : Nat} {type : BlockType}
    {size start : UInt32} {block : Block}
    (hmem : .partition nr type size start block ∈ s.all) :
    start.toNat + size.toNat ≤ block.size.toNat ∧
      ∀ sector, checkSector (.partition nr type size start block) sector = .ok () →
        (start + sector).toNat = start.toNat + sector.toNat ∧
        checkSector block (start + sector) = .ok () ∧
        (∃ s', s.partitionRead start block sector = .ok (s',
          s.media (block.place (start.toNat + sector.toNat)).1
            (UInt32.ofNat (block.place (start.toNat + sector.toNat)).2))) ∧
        ∀ buffer, block.Writable → ∃ s', s.partitionWrite start block sector buffer = .ok s' ∧
          s'.media = (s.ideWrite (block.place (start.toNat + sector.toNat)).1
            (UInt32.ofNat (block.place (start.toNat + sector.toNat)).2) buffer).media := by
  obtain ⟨hfits, hblock⟩ := fits_of_reachable hs _ hmem
  refine ⟨hfits, fun sector haccepted => ?_⟩
  obtain ⟨hadd, hlt⟩ := partition_sector hfits (checkSector_eq_ok.mp haccepted)
  refine ⟨hadd, checkSector_eq_ok.mpr hlt, ?_, fun buffer hwritable => ?_⟩
  · rw [← hadd]
    exact blockRead_eq s hblock hlt
  · rw [← hadd]
    exact blockWrite_eq s hblock hwritable hlt buffer

def noBlocks : BlockLayer := ⟨[], fun _ => 0, fun _ => 0, fun _ _ _ => 0⟩

/-- A disk of 100 sectors with a file system on its last 20. -/
def oneDisk : BlockLayer :=
  (noBlocks.registerDisk 100 0).foundPartition (.disk 0 100 0) ⟨0x21, 80, 20, 1⟩

lemma oneDisk_reachable : machine.Reachable oneDisk := by
  have hstart : machine.Reachable noBlocks := .start rfl
  have hdisk : machine.Reachable (noBlocks.registerDisk 100 0) :=
    hstart.step (a := .registerDisk 100 0) rfl
  exact hdisk.step (a := .foundPartition 0 ⟨0x21, 80, 20, 1⟩) rfl

theorem partition_stays_oneDisk :
    (80 : UInt32).toNat + (20 : UInt32).toNat ≤ (100 : UInt32).toNat ∧
      checkSector (.disk 0 100 0) (80 + 19) = .ok () := by
  have hmem : .partition 1 .filesys 20 80 (.disk 0 100 0) ∈ oneDisk.all :=
    mem_cons_of_mem _ (mem_singleton.mpr rfl)
  have hstays := partition_stays oneDisk_reachable hmem
  exact ⟨hstays.1, (hstays.2 19 rfl).2.1⟩

end BlockLayer

end Pintos.Devices
