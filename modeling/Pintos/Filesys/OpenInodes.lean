import Pintos.Filesys.File
import Pintos.Filesys.FileGrowth

/-!
# The list of open inodes (filesys/inode.c)

`inode_open` looks for the sector among the inodes that are open before it reads it from
disk, and `inode_close` takes an inode off the list when its count reaches zero. `Counted`
relates the list to the references its users hold: there is one inode for a sector, and
its `open_cnt` is the number of references to it.
-/

namespace Pintos.Filesys

open Function List

structure InodeTable where
  fs : FileSys
  inode : InodePtr → Inode
  openInodes : List InodePtr

namespace InodeTable

def set (t : InodeTable) (i : InodePtr) (inode : Inode) : InodeTable :=
  { t with inode := Function.update t.inode i inode }

def lookup (t : InodeTable) (sector : BlockSector) : Option InodePtr :=
  t.openInodes.find? fun i => (t.inode i).sector = sector

def inodeReopen (t : InodeTable) (i : InodePtr) : InodeTable :=
  t.set i { t.inode i with openCnt := (t.inode i).openCnt + 1 }

/-- `inode_open`; `mem` is what `malloc` returns. -/
def inodeOpen (t : InodeTable) (sector : BlockSector) (mem : Option InodePtr) :
    Option InodePtr × InodeTable :=
  match t.lookup sector with
  | some i => (some i, t.inodeReopen i)
  | none =>
      match mem with
      | none => (none, t)
      | some i =>
          let (inode, fs) := inodeLoad t.fs sector
          (some i, { fs := fs
                     inode := Function.update t.inode i inode
                     openInodes := i :: t.openInodes })

def inodeClose (t : InodeTable) (i : InodePtr) : InodeTable :=
  match Filesys.inodeClose t.fs (t.inode i) with
  | (some inode, fs) => { t.set i inode with fs := fs }
  | (none, fs) => { t with fs := fs, openInodes := t.openInodes.erase i }

def inodeRemove (t : InodeTable) (i : InodePtr) : InodeTable :=
  t.set i (Filesys.inodeRemove (t.inode i))

def inodeWriteAt (t : InodeTable) (i : InodePtr) (buffer : Nat → UInt8) (size : Int)
    (offset : Nat) : Nat × InodeTable :=
  let (bytesWritten, inode, fs) := Filesys.inodeWriteAt t.fs (t.inode i) buffer size offset
  (bytesWritten, { t.set i inode with fs := fs })

def inodeDenyWrite (t : InodeTable) (i : InodePtr) : InodeTable :=
  let inode := { t.inode i with denyWriteCnt := (t.inode i).denyWriteCnt + 1 }
  let fs := if inode.denyWriteCnt ≤ inode.openCnt then t.fs else t.fs.panic
  { t.set i inode with fs := fs }

lemma set_inode (t : InodeTable) (i j : InodePtr) (inode : Inode) :
    (t.set i inode).inode j = if j = i then inode else t.inode j := by
  by_cases h : j = i
  · subst h
    simp [set]
  · simp [set, h]

variable {t : InodeTable} {i : InodePtr} {inode : Inode} {sector : BlockSector}

lemma set_field {β : Type} (field : Inode → β) (h : field inode = field (t.inode i))
    (j : InodePtr) : field ((t.set i inode).inode j) = field (t.inode j) := by
  rw [set_inode]
  split
  case isTrue he => rw [he, h]
  case isFalse => rfl

lemma set_sector (h : inode.sector = (t.inode i).sector) (j : InodePtr) :
    ((t.set i inode).inode j).sector = (t.inode j).sector :=
  set_field Inode.sector h j

/-- The fields of an inode that only opening and closing change. -/
structure SameUse (inode inode' : Inode) : Prop where
  sector : inode'.sector = inode.sector
  openCnt : inode'.openCnt = inode.openCnt

lemma inodeWriteAt_header (fs : FileSys) (inode : Inode) (buffer : Nat → UInt8) (size : Int)
    (offset : Nat) :
    (Filesys.inodeWriteAt fs inode buffer size offset).2.1.openCnt = inode.openCnt ∧
      (Filesys.inodeWriteAt fs inode buffer size offset).2.1.denyWriteCnt = inode.denyWriteCnt ∧
      (Filesys.inodeWriteAt fs inode buffer size offset).2.1.removed = inode.removed ∧
      (Filesys.inodeWriteAt fs inode buffer size offset).2.1.sector = inode.sector := by
  unfold Filesys.inodeWriteAt
  split
  · exact ⟨rfl, rfl, rfl, rfl⟩
  · exact extendTo_inode fs inode _

lemma inodeClose_fst (fs : FileSys) (inode : Inode) :
    (Filesys.inodeClose fs inode).1 =
      if inode.openCnt = 1 then none else some { inode with openCnt := inode.openCnt - 1 } := by
  unfold Filesys.inodeClose
  dsimp only
  by_cases h : inode.openCnt = 1
  · rw [if_pos h, if_pos (by omega)]
    split <;> rfl
  · rw [if_neg h, if_neg (by omega)]

lemma inodeClose_of_ne_one (h : (t.inode i).openCnt ≠ 1) :
    t.inodeClose i =
      t.set i { t.inode i with openCnt := (t.inode i).openCnt - 1 } := by
  have hstate : Filesys.inodeClose t.fs (t.inode i) =
      (some { t.inode i with openCnt := (t.inode i).openCnt - 1 }, t.fs) := by
    unfold Filesys.inodeClose
    dsimp only
    rw [if_neg (by omega)]
  unfold inodeClose
  rw [hstate]
  rfl

lemma inodeClose_of_one (h : (t.inode i).openCnt = 1) :
    t.inodeClose i = { t with
      fs := (Filesys.inodeClose t.fs (t.inode i)).2
      openInodes := t.openInodes.erase i } := by
  have hnone := inodeClose_fst t.fs (t.inode i)
  rw [if_pos h] at hnone
  unfold inodeClose
  generalize Filesys.inodeClose t.fs (t.inode i) = r at hnone ⊢
  obtain ⟨r₁, fs⟩ := r
  dsimp only at hnone
  subst hnone
  rfl

/-! ## References -/

/-- The open inodes are those of `refs`, as often as they count, one for each sector. -/
structure Counted (t : InodeTable) (refs : List InodePtr) : Prop where
  nodup : t.openInodes.Nodup
  sectors : ∀ i ∈ t.openInodes, ∀ j ∈ t.openInodes,
    (t.inode i).sector = (t.inode j).sector → i = j
  mem_iff : ∀ i, i ∈ refs ↔ i ∈ t.openInodes
  count : ∀ i ∈ t.openInodes, (t.inode i).openCnt = refs.count i

variable {t : InodeTable} {refs : List InodePtr}

lemma lookup_some (h : t.lookup sector = some i) : i ∈ t.openInodes ∧ (t.inode i).sector = sector :=
  ⟨mem_of_find?_eq_some h, by simpa using find?_some h⟩

lemma lookup_none (h : t.lookup sector = none) :
    ∀ i ∈ t.openInodes, (t.inode i).sector ≠ sector := by
  intro i hi
  simpa using find?_eq_none.mp h i hi

lemma Counted.lookup_eq (h : t.Counted refs) (hi : i ∈ t.openInodes) :
    t.lookup (t.inode i).sector = some i := by
  cases hl : t.lookup (t.inode i).sector with
  | none => exact absurd rfl (lookup_none hl i hi)
  | some j =>
    obtain ⟨hj, hsec⟩ := lookup_some hl
    rw [h.sectors j hj i hi hsec]

lemma Counted.pos (h : t.Counted refs) (hi : i ∈ t.openInodes) : 0 < (t.inode i).openCnt := by
  rw [h.count i hi]
  have := count_pos_iff.mpr ((h.mem_iff i).mpr hi)
  omega

lemma Counted.perm {refs' : List InodePtr} (h : t.Counted refs) (hp : refs.Perm refs') :
    t.Counted refs' :=
  ⟨h.nodup, h.sectors, fun i => hp.mem_iff.symm.trans (h.mem_iff i),
    fun i hi => by rw [h.count i hi, hp.count_eq]⟩

lemma Counted.of_sameUse {t' : InodeTable} (h : t.Counted refs)
    (hlist : t'.openInodes = t.openInodes) (hsame : ∀ i, SameUse (t.inode i) (t'.inode i)) :
    t'.Counted refs := by
  constructor
  case nodup => rw [hlist]; exact h.nodup
  case sectors =>
      intro i hi j hj he
      rw [hlist] at hi hj
      rw [(hsame i).sector, (hsame j).sector] at he
      exact h.sectors i hi j hj he
  case mem_iff => rw [hlist]; exact h.mem_iff
  case count =>
      intro i hi
      rw [hlist] at hi
      rw [(hsame i).openCnt]
      exact h.count i hi

lemma sameUse_set (h : SameUse (t.inode i) inode) (j : InodePtr) :
    SameUse (t.inode j) ((t.set i inode).inode j) :=
  ⟨set_sector h.sector j, set_field Inode.openCnt h.openCnt j⟩

lemma Counted.inodeWriteAt (h : t.Counted refs) (i : InodePtr) (buffer : Nat → UInt8)
    (size : Int) (offset : Nat) : (t.inodeWriteAt i buffer size offset).2.Counted refs := by
  obtain ⟨hopen, -, -, hsector⟩ := inodeWriteAt_header t.fs (t.inode i) buffer size offset
  exact h.of_sameUse rfl (sameUse_set ⟨hsector, hopen⟩)

lemma Counted.inodeRemove (h : t.Counted refs) (i : InodePtr) : (t.inodeRemove i).Counted refs :=
  h.of_sameUse rfl (sameUse_set ⟨rfl, rfl⟩)

lemma Counted.reopen (h : t.Counted refs) (hi : i ∈ t.openInodes) :
    (t.inodeReopen i).Counted (i :: refs) := by
  have hsector : ∀ j, ((t.inodeReopen i).inode j).sector = (t.inode j).sector :=
    set_sector rfl
  constructor
  case nodup => exact h.nodup
  case sectors =>
      intro j hj k hk he
      rw [hsector, hsector] at he
      exact h.sectors j hj k hk he
  case mem_iff =>
      intro j
      rw [mem_cons, h.mem_iff]
      exact ⟨fun hj => hj.elim (fun he => he ▸ hi) id, Or.inr⟩
  case count =>
      intro j hj
      have hcount := h.count j hj
      rw [inodeReopen, set_inode, count_cons]
      by_cases he : j = i
      · subst he
        simp [hcount]
      · simp [he, Ne.symm he, hcount]

lemma Counted.load (h : t.Counted refs) (hnone : t.lookup sector = none)
    (hfresh : i ∉ t.openInodes) (fs : FileSys) (hsector : inode.sector = sector)
    (hcnt : inode.openCnt = 1) :
    Counted { fs := fs
              inode := update t.inode i inode
              openInodes := i :: t.openInodes } (i :: refs) := by
  have hold : ∀ j ∈ t.openInodes, update t.inode i inode j = t.inode j :=
    fun j hj => update_of_ne (fun he : j = i => hfresh (he ▸ hj)) _ _
  have hself : update t.inode i inode i = inode := update_self _ _ _
  have hnew := lookup_none hnone
  constructor
  case nodup => exact nodup_cons.mpr ⟨hfresh, h.nodup⟩
  case sectors =>
      intro j hj k hk he
      dsimp only at he
      rcases mem_cons.mp hj with hji | hjold
      · rcases mem_cons.mp hk with hki | hkold
        · rw [hji, hki]
        · rw [hji, hself, hold k hkold, hsector] at he
          exact absurd he.symm (hnew k hkold)
      · rcases mem_cons.mp hk with hki | hkold
        · rw [hki, hself, hold j hjold, hsector] at he
          exact absurd he (hnew j hjold)
        · rw [hold j hjold, hold k hkold] at he
          exact h.sectors j hjold k hkold he
  case mem_iff =>
      intro j
      rw [mem_cons, mem_cons, h.mem_iff]
  case count =>
      intro j hj
      dsimp only
      rcases mem_cons.mp hj with rfl | hj
      · have hzero : refs.count j = 0 :=
          count_eq_zero.mpr fun hr => hfresh ((h.mem_iff j).mp hr)
        rw [hself, hcnt, count_cons_self, hzero]
        rfl
      · have hne : i ≠ j := fun he => hfresh (he ▸ hj)
        rw [hold j hj, h.count j hj, count_cons_of_ne hne]

lemma Counted.inodeOpen (h : t.Counted refs) (sector : BlockSector) {mem : Option InodePtr}
    (hfresh : ∀ i ∈ mem, i ∉ t.openInodes) :
    (t.inodeOpen sector mem).2.Counted ((t.inodeOpen sector mem).1.toList ++ refs) := by
  unfold InodeTable.inodeOpen
  cases hl : t.lookup sector with
  | some i => exact h.reopen (lookup_some hl).1
  | none =>
    cases mem with
    | none => exact h
    | some i => exact h.load hl (hfresh i rfl) _ rfl rfl

lemma Counted.inodeClose (h : t.Counted refs) (hi : i ∈ refs) :
    (t.inodeClose i).Counted (refs.erase i) := by
  have hopen := (h.mem_iff i).mp hi
  have hcount := h.count i hopen
  by_cases hlast : (t.inode i).openCnt = 1
  · rw [inodeClose_of_one hlast]
    have hgone : i ∉ refs.erase i := by
      rw [← count_eq_zero, count_erase_self]
      omega
    have hmem : ∀ j, j ∈ t.openInodes.erase i ↔ j ∈ t.openInodes ∧ j ≠ i := by
      intro j
      rw [h.nodup.mem_erase_iff, and_comm]
    constructor
    case nodup => exact h.nodup.erase i
    case sectors =>
        exact fun j hj k hk he => h.sectors j ((hmem j).mp hj).1 k ((hmem k).mp hk).1 he
    case mem_iff =>
        intro j
        dsimp only
        rw [hmem]
        by_cases he : j = i
        · subst he
          simp [hgone]
        · rw [mem_erase_of_ne he, h.mem_iff]
          simp [he]
    case count =>
        intro j hj
        obtain ⟨hj, hne⟩ := (hmem j).mp hj
        rw [count_erase_of_ne (Ne.symm hne).symm]
        exact h.count j hj
  · rw [inodeClose_of_ne_one hlast]
    have hsector : ∀ j, ((t.set i { t.inode i with openCnt := (t.inode i).openCnt - 1 }).inode
        j).sector = (t.inode j).sector := set_sector rfl
    have hmore : 1 < refs.count i := by
      have := h.pos hopen
      omega
    constructor
    case nodup => exact h.nodup
    case sectors =>
        intro j hj k hk he
        exact h.sectors j hj k hk ((hsector j).symm.trans (he.trans (hsector k)))
    case mem_iff =>
        intro j
        change _ ↔ j ∈ t.openInodes
        rw [← h.mem_iff]
        by_cases he : j = i
        · subst he
          have : j ∈ refs.erase j := by
            rw [← count_pos_iff, count_erase_self]
            omega
          simp [this, hi]
        · exact mem_erase_of_ne he
    case count =>
        intro j hj
        rw [set_inode]
        by_cases he : j = i
        · subst he
          rw [if_pos rfl, count_erase_self]
          dsimp only
          omega
        · rw [if_neg he, count_erase_of_ne he]
          exact h.count j hj

end InodeTable

end Pintos.Filesys
