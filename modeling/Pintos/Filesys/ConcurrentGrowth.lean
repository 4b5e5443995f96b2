import Pintos.Filesys.Content
import Pintos.Filesys.Capacity
import Pintos.Foundation.Transition

/-!
# Concurrent calls of `inode_write_at` on one file

`inode_write_at` compares the end of the write with the length before it takes the
lock of the inode, and `inode_grow` subtracts the length it finds when it runs. The
calls move in any order: the comparison, the assignment of the length under the lock
and the copy of each sector are the steps.
-/

namespace Pintos.Filesys

open Foundation Lib Function Option

universe u

structure WriteCall where
  buffer : Nat → UInt8
  size : Int
  offset : Nat

def WriteCall.finish (call : WriteCall) : Int := wrap32 (call.offset + call.size)

/-- A write of at least one byte that ends inside the largest file. -/
structure WriteCall.InRange (call : WriteCall) : Prop where
  pos : 0 < call.size
  le_max : call.offset + call.size ≤ maxFileLength

lemma WriteCall.InRange.finish_eq {call : WriteCall} (h : call.InRange) :
    call.finish = call.offset + call.size := by
  have hpos := h.pos
  have hmax := h.le_max
  unfold maxFileLength at hmax
  exact wrap32_eq (by omega) (by omega)

inductive WritePoint
  | testing
  | growing
  | copying (size : Int) (offset bytesWritten : Nat)
  | finished (bytesWritten : Nat)
  deriving DecidableEq

/-- The file, where each call is, and the data sectors and all the sectors each call took. -/
structure Writers (ι : Type u) where
  fs : FileSys
  inode : Inode
  point : ι → WritePoint
  allocated : ι → Nat
  taken : ι → Nat

inductive WriteStep (ι : Type u)
  | test (i : ι)
  | grow (i : ι)
  | copy (i : ι)

namespace Writers

variable {ι : Type u} [DecidableEq ι]

def setPoint (s : Writers ι) (i : ι) (p : WritePoint) : Writers ι :=
  { s with point := Function.update s.point i p }

/-- The tests of `deny_write_cnt` and of the length. -/
def test (s : Writers ι) (i : ι) (call : WriteCall) : Writers ι :=
  if s.inode.denyWriteCnt ≠ 0 then s.setPoint i (.finished 0)
  else if inodeLength s.inode < call.finish then s.setPoint i .growing
  else s.setPoint i (.copying call.size call.offset 0)

/-- `inode->data.length = inode_grow (offset + size, inode)`, under the lock. -/
def grow (s : Writers ι) (i : ι) (call : WriteCall) : Writers ι :=
  let g := inodeGrow s.fs call.finish s.inode
  { fs := g.fs
    inode := { g.inode with data := { g.inode.data with length := g.length } }
    point := Function.update s.point i (.copying call.size call.offset 0)
    allocated := Function.update s.allocated i (g.fs.dataLog.length - s.fs.dataLog.length)
    taken := Function.update s.taken i ((freeSectors s.fs).card - (freeSectors g.fs).card) }

/-- One iteration of the loop; one that copies nothing is the last. -/
def copy (s : Writers ι) (i : ι) (call : WriteCall) (size : Int) (offset bytesWritten : Nat) :
    Writers ι :=
  let (written, fs) := inodeWriteLoop s.inode call.buffer 1 s.fs size offset bytesWritten
  let chunk := written - bytesWritten
  let s := { s with fs := fs }
  if chunk = 0 then s.setPoint i (.finished bytesWritten)
  else s.setPoint i (.copying (size - chunk) (offset + chunk) written)

def step (calls : ι → WriteCall) (s : Writers ι) : WriteStep ι → Option (Writers ι)
  | .test i => if s.point i = .testing then some (s.test i (calls i)) else none
  | .grow i => if s.point i = .growing then some (s.grow i (calls i)) else none
  | .copy i =>
      match s.point i with
      | .copying size offset bytesWritten => some (s.copy i (calls i) size offset bytesWritten)
      | _ => none

/-- Calls that start on an open regular file. -/
structure Start (s : Writers ι) : Prop where
  ok : FsOk s.fs
  file : LaidOut s.fs s.inode
  regular : s.inode.data.subDir = false
  point : ∀ i, s.point i = .testing
  allocated : ∀ i, s.allocated i = 0
  taken : ∀ i, s.taken i = 0

def machine (calls : ι → WriteCall) : Machine (Writers ι) (WriteStep ι) where
  start := Start
  step := step calls

/-- Writes are allowed at the start of a call, and the lock is got while the file is too short. -/
def Extending (calls : ι → WriteCall) (s : Writers ι) : WriteStep ι → Prop
  | .test _ => s.inode.denyWriteCnt = 0
  | .grow i => inodeLength s.inode ≤ (calls i).finish
  | .copy _ => True

instance (calls : ι → WriteCall) (s : Writers ι) : ∀ a, Decidable (Extending calls s a)
  | .test _ => inferInstanceAs (Decidable (s.inode.denyWriteCnt = 0))
  | .grow i => inferInstanceAs (Decidable (inodeLength s.inode ≤ (calls i).finish))
  | .copy _ => isTrue trivial

/-- The sectors a file of this length is made of, data and index. -/
def sectorsNeeded (length : Int) : Nat :=
  bytesToSectors length + indexCount (bytesToSectors length)

/-! ## What a step does -/

variable {calls : ι → WriteCall} {s s' : Writers ι}

lemma step_cases {a : WriteStep ι} (h : step calls s a = some s') :
    (∃ i, a = .test i ∧ s.point i = .testing ∧ s' = s.test i (calls i)) ∨
      (∃ i, a = .grow i ∧ s.point i = .growing ∧ s' = s.grow i (calls i)) ∨
      ∃ i size offset bytesWritten, a = .copy i ∧ s.point i = .copying size offset bytesWritten ∧
        s' = s.copy i (calls i) size offset bytesWritten := by
  cases a with
  | test i =>
    simp only [step, ite_none_right_eq_some, some.injEq] at h
    exact Or.inl ⟨i, rfl, h.1, h.2.symm⟩
  | grow i =>
    simp only [step, ite_none_right_eq_some, some.injEq] at h
    exact Or.inr (Or.inl ⟨i, rfl, h.1, h.2.symm⟩)
  | copy i =>
    cases hp : s.point i with
    | copying size offset bytesWritten =>
      simp only [step, hp, some.injEq] at h
      exact Or.inr (Or.inr ⟨i, size, offset, bytesWritten, rfl, hp, h.symm⟩)
    | testing => simp [step, hp] at h
    | growing => simp [step, hp] at h
    | finished bytesWritten => simp [step, hp] at h

/-- A call that has grown the file or found it long enough finds it so from then on. -/
def Covered (calls : ι → WriteCall) (s : Writers ι) (i : ι) : Prop :=
  s.point i = .testing ∨ s.point i = .growing ∨ (calls i).finish ≤ inodeLength s.inode

structure Grown (calls : ι → WriteCall) (s : Writers ι) : Prop where
  ok : FsOk s.fs
  file : LaidOut s.fs s.inode
  covered : ∀ i, Covered calls s i
  allocated : ∀ i, s.allocated i ≤ bytesToSectors (inodeLength s.inode)
  taken : ∀ i, s.taken i ≤ sectorsNeeded (inodeLength s.inode)

omit [DecidableEq ι] in
lemma Start.grown (h : Start s) : Grown calls s where
  ok := h.ok
  file := h.file
  covered i := Or.inl (h.point i)
  allocated i := by rw [h.allocated]; exact Nat.zero_le _
  taken i := by rw [h.taken]; exact Nat.zero_le _

lemma Grown.move {i : ι} {p : WritePoint} (hg : Grown calls s) (ok : FsOk s'.fs)
    (file : LaidOut s'.fs s.inode) (hinode : s'.inode = s.inode)
    (hpoint : s'.point = update s.point i p) (hallocated : s'.allocated = s.allocated)
    (htaken : s'.taken = s.taken) (hp : p = .growing ∨ (calls i).finish ≤ inodeLength s.inode) :
    Grown calls s' := by
  refine ⟨ok, hinode ▸ file, fun j => ?_, fun j => ?_, fun j => ?_⟩
  · unfold Covered
    rw [hinode, hpoint]
    by_cases hj : j = i
    · subst hj
      rw [update_self]
      exact Or.inr hp
    · rw [update_of_ne hj]
      exact hg.covered j
  · rw [hallocated, hinode]
    exact hg.allocated j
  · rw [htaken, hinode]
    exact hg.taken j

lemma Grown.test (hg : Grown calls s) (i : ι) (hdeny : s.inode.denyWriteCnt = 0) :
    Grown calls (s.test i (calls i)) := by
  unfold Writers.test
  rw [if_neg (by simp [hdeny])]
  by_cases hlt : inodeLength s.inode < (calls i).finish
  · rw [if_pos hlt]
    exact hg.move hg.ok hg.file rfl rfl rfl rfl (Or.inl rfl)
  · rw [if_neg hlt]
    exact hg.move hg.ok hg.file rfl rfl rfl rfl (Or.inr (Int.not_lt.mp hlt))

lemma Grown.copy (hg : Grown calls s) (i : ι) {size : Int} {offset bytesWritten : Nat}
    (hp : s.point i = .copying size offset bytesWritten) :
    Grown calls (s.copy i (calls i) size offset bytesWritten) := by
  have hfits := (bytesToSectors_bounds hg.file.nonneg hg.file.le_max).2.1
  rcases inodeWriteLoop_spec (calls i).buffer 1 size offset bytesWritten
    (hg.file.placed hg.ok) (by omega) with ⟨w, -, hw, -⟩
  rcases hg.file.wrote hg.ok hw with ⟨file, -, ok, -, -⟩
  have hc : (calls i).finish ≤ inodeLength s.inode := by
    have h := hg.covered i
    simpa [Covered, hp] using h
  unfold Writers.copy
  dsimp only
  split
  · exact hg.move ok file rfl rfl rfl rfl (Or.inr hc)
  · exact hg.move ok file rfl rfl rfl rfl (Or.inr hc)

/-- Growth that finds the file too short sets the length and takes the sectors that are missing. -/
lemma Grown.grow (hg : Grown calls s) (i : ι) (hi : (calls i).InRange)
    (hle : inodeLength s.inode ≤ (calls i).finish)
    (hsucc : (s.grow i (calls i)).fs.allocFailed = false) :
    inodeLength (s.grow i (calls i)).inode = (calls i).finish ∧
      Grown calls (s.grow i (calls i)) := by
  have hmax : (calls i).finish ≤ maxFileLength := hi.finish_eq ▸ hi.le_max
  rcases inodeGrow_spec hg.ok hg.file.file hg.file.nonneg hle (le_of_le_maxFileLength hmax)
    hsucc with ⟨new, hcount, hlen, hext⟩
  rw [cappedLength_of_le (Int.le_trans hg.file.nonneg hle) hmax] at hcount hlen
  rcases hext.allocated with ⟨pre, hindex, halloc⟩
  have hlength : inodeLength (s.grow i (calls i)).inode = (calls i).finish := hlen
  have hlog : (s.grow i (calls i)).fs.dataLog = s.fs.dataLog ++ new := hext.grew.log
  have hfree : (freeSectors (s.grow i (calls i)).fs).card + (pre ++ new).length =
      (freeSectors s.fs).card := halloc.freeSectors_card hg.ok
  have hneeded : sectorsNeeded (calls i).finish =
      sectorsNeeded (inodeLength s.inode) + (pre ++ new).length := by
    rw [sectorsNeeded, hcount, hindex, sectorsNeeded, List.length_append]
    omega
  refine ⟨hlength, hext.grew.ok, ⟨?_, ?_, ?_⟩, fun j => ?_, fun j => ?_, fun j => ?_⟩
  · rw [hlength]
    exact Int.le_trans hg.file.nonneg hle
  · rwa [hlength]
  · rw [hlength, hcount]
    exact ⟨hext.bound, hext.counters, hext.grew.owns⟩
  · unfold Covered
    rw [hlength]
    by_cases hj : j = i
    · exact Or.inr (Or.inr (by rw [hj]))
    · have hpoint : (s.grow i (calls i)).point j = s.point j := update_of_ne hj _ _
      rw [hpoint]
      exact (hg.covered j).imp_right (Or.imp_right fun h => Int.le_trans h hle)
  · rw [hlength, hcount]
    by_cases hj : j = i
    · have hself : (s.grow i (calls i)).allocated j =
          (s.grow i (calls i)).fs.dataLog.length - s.fs.dataLog.length := by
        rw [hj]
        exact update_self _ _ _
      rw [hself, hlog, List.length_append]
      omega
    · have hother : (s.grow i (calls i)).allocated j = s.allocated j :=
        update_of_ne hj _ _
      have := hg.allocated j
      omega
  · rw [hlength, hneeded]
    by_cases hj : j = i
    · have hself : (s.grow i (calls i)).taken j =
          (freeSectors s.fs).card - (freeSectors (s.grow i (calls i)).fs).card := by
        rw [hj]
        exact update_self _ _ _
      omega
    · have hother : (s.grow i (calls i)).taken j = s.taken j := update_of_ne hj _ _
      have := hg.taken j
      omega

lemma inodeLength_test (s : Writers ι) (i : ι) (call : WriteCall) :
    inodeLength (s.test i call).inode = inodeLength s.inode := by
  unfold Writers.test
  split_ifs <;> rfl

lemma inodeLength_copy (s : Writers ι) (i : ι) (call : WriteCall) (size : Int)
    (offset bytesWritten : Nat) :
    inodeLength (s.copy i call size offset bytesWritten).inode = inodeLength s.inode := by
  unfold Writers.copy
  dsimp only
  split <;> rfl

lemma Grown.step (hcalls : ∀ i, (calls i).InRange) {a : WriteStep ι} (hg : Grown calls s)
    (h : Writers.step calls s a = some s') (hcond : Extending calls s a)
    (hsucc : s'.fs.allocFailed = false) :
    inodeLength s.inode ≤ inodeLength s'.inode ∧ Grown calls s' := by
  rcases step_cases h with ⟨i, rfl, -, rfl⟩ | ⟨i, rfl, -, rfl⟩ |
    ⟨i, size, offset, bytesWritten, rfl, hp, rfl⟩
  · exact ⟨Int.le_of_eq (inodeLength_test s i _).symm, hg.test i hcond⟩
  · have hgrow := hg.grow i (hcalls i) hcond hsucc
    exact ⟨hgrow.1 ▸ hcond, hgrow.2⟩
  · exact ⟨Int.le_of_eq (inodeLength_copy s i _ _ _ _).symm, hg.copy i hp⟩

/-- If every call that gets the lock still extends the file, the length never decreases, no call
takes more sectors than needed, and in the end the file reaches the end of each. -/
theorem length_monotone_of_extending {calls : ι → WriteCall} {s : Writers ι}
    {as : List (WriteStep ι)} (hcalls : ∀ i, (calls i).InRange) (hs : (machine calls).start s)
    (hsucc : (machine calls).EachStep (fun _ _ s' => s'.fs.allocFailed = false) s as)
    (hcond : (machine calls).Meets (Extending calls) s as) :
    (machine calls).EachStep (fun s _ s' => inodeLength s.inode ≤ inodeLength s'.inode) s as ∧
      ∀ s', (machine calls).run s as = some s' →
        (∀ i, s'.allocated i ≤ bytesToSectors (inodeLength s'.inode)) ∧
        (∀ i, s'.taken i ≤ sectorsNeeded (inodeLength s'.inode)) ∧
        ((∀ i, ∃ bytesWritten, s'.point i = .finished bytesWritten) →
          ∀ i, (calls i).offset + (calls i).size ≤ inodeLength s'.inode) := by
  have hrun := hcond.and hsucc
  have hmono := hrun.imp (I := Grown calls)
    (R := fun s _ s' => inodeLength s.inode ≤ inodeLength s'.inode)
    (fun s a s' hg h hG => hg.step hcalls h hG.1 hG.2) hs.grown
  have hgrown : (machine calls).Throughout (Grown calls) s as := by
    refine ⟨hs.grown, hrun.imp (I := Grown calls) (fun s a s' hg h hG => ?_) hs.grown⟩
    have hg' := (hg.step hcalls h hG.1 hG.2).2
    exact ⟨hg', hg'⟩
  refine ⟨hmono, fun s' hlast => ?_⟩
  have hg := hgrown.last hlast
  refine ⟨hg.allocated, hg.taken, fun hdone i => ?_⟩
  rcases hdone i with ⟨bytesWritten, hp⟩
  have hc := hg.covered i
  rw [← (hcalls i).finish_eq]
  simpa [Covered, hp] using hc

/-- Two writes at the end of the small file, the first of 100 bytes and the other of
50. -/
def appends : Bool → WriteCall
  | false => ⟨fun _ => 1, 100, 600⟩
  | true => ⟨fun _ => 2, 50, 600⟩

def appending : Writers Bool where
  fs := smallFile.2
  inode := smallFile.1
  point := fun _ => .testing
  allocated := fun _ => 0
  taken := fun _ => 0

lemma appending_start : Start appending where
  ok := smallFile_volume.ok
  file := smallFile_volume.laid none
  regular := by decide +kernel
  point := fun _ => rfl
  allocated := fun _ => rfl
  taken := fun _ => rfl

lemma appends_inRange (i : Bool) : (appends i).InRange := by
  cases i with
  | false => exact ⟨by decide, by decide⟩
  | true => exact ⟨by decide, by decide⟩

theorem length_monotone_of_extending_appends :
    (machine appends).EachStep (fun s _ s' => inodeLength s.inode ≤ inodeLength s'.inode) appending
      [.test true, .grow true, .test false, .copy true, .grow false, .copy false] := by
  refine (length_monotone_of_extending appends_inRange appending_start ?_ ?_).1
  · decide +kernel
  · decide +kernel

/-- The longer write extends the file, the shorter one cuts it back, and half is lost. -/
theorem inodeWriteAt_shrinks_file :
    (machine appends).start appending ∧ (∀ i, (appends i).InRange) ∧ ∃ s s' : Writers Bool,
      (machine appends).run appending [.test false, .test true, .grow false] = some s ∧
        inodeLength s.inode = 700 ∧
        (machine appends).run s
          [.grow true, .copy false, .copy false, .copy true, .copy true] = some s' ∧
        s'.fs.allocFailed = false ∧ s'.point false = .finished 50 ∧
        s'.point true = .finished 50 ∧ inodeLength s'.inode = 650 := by
  have hrun : (((machine appends).run appending [.test false, .test true, .grow false]).bind
      fun s => ((machine appends).run s
        [.grow true, .copy false, .copy false, .copy true, .copy true]).map
      fun s' => decide (inodeLength s.inode = 700 ∧ s'.fs.allocFailed = false ∧
        s'.point false = .finished 50 ∧ s'.point true = .finished 50 ∧
        inodeLength s'.inode = 650)) = some true := by decide +kernel
  rcases bind_eq_some_iff.mp hrun with ⟨s, hs, hrest⟩
  rcases map_eq_some_iff.mp hrest with ⟨s', hs', hfacts⟩
  have h := of_decide_eq_true hfacts
  exact ⟨appending_start, appends_inRange, s, s', hs, h.1, hs', h.2⟩

end Writers

end Pintos.Filesys
