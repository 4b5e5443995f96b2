import Pintos.Filesys.Content
import Pintos.Filesys.File
import Pintos.Lib.UstarRoundTrip

/-!
# Appending to an archive (filesys/fsutil.c)

`fsutil_append` copies a file to the scratch device behind a header and marks the end of
the archive. The position on the device is kept from call to call; the marker does not
advance it. The second sector of the marker is written over the first one, from memory
that starts one byte later, so that the marker is in order only by chance.
-/

namespace Pintos.Filesys

open Foundation Lib Function List

/-- The scratch device and the static position of `fsutil_append`. -/
structure Archive where
  size : Nat
  disk : Nat → ByteBlock 512
  sector : Nat

namespace Archive

def write (a : Archive) (block : ByteBlock 512) : Option Archive :=
  if a.sector < a.size then some { a with disk := Function.update a.disk a.sector block }
  else none

def advance (a : Archive) : Archive := { a with sector := a.sector + 1 }

end Archive

def blockAt (memory : Nat → UInt8) (ofs : Nat) : ByteBlock 512 := fun j => memory (ofs + j)

/-- Memory with zeros from `start` to the end of the buffer. -/
def clearFrom (memory : Nat → UInt8) (start : Nat) : Nat → UInt8 :=
  fun k => if start ≤ k ∧ k < 512 then 0 else memory k

/-- The copy loop. A round that copies nothing ends it, so the size is fuel enough. -/
def copyLoop (src : FilePtr) : Nat → Archive → Files → (Nat → UInt8) → Int →
    Option (Archive × Files × (Nat → UInt8))
  | 0, a, t, buffer, _ => some (a, t, buffer)
  | fuel + 1, a, t, buffer, size =>
      if 0 < size then
        let chunk : Int := if size > 512 then 512 else size
        if a.sector ≥ a.size then none
        else
          let (count, buffer, t) := t.fileRead src buffer chunk
          if (count : Int) ≠ chunk then none
          else
            let buffer := clearFrom buffer chunk.toNat
            match a.write (blockAt buffer 0) with
            | none => none
            | some a => copyLoop src fuel a.advance t buffer (size - chunk)
      else some (a, t, buffer)

/-- A call of `fsutil_append`: the name, the open file, and memory from the buffer on. -/
structure AppendCall where
  files : Files
  fileName : List UInt8
  src : FilePtr
  memory : Nat → UInt8

/-- `fsutil_append`, from the allocation of the buffer on; `none` is a panic. -/
def fsutilAppend (a : Archive) (c : AppendCall) : Option (Archive × Files) :=
  if c.files.fs.mallocOk then
    let size := c.files.fileLength c.src
    match ustarMakeHeader c.fileName .regular size with
    | some (some h) =>
        let buffer := fun k => if hk : k < 512 then h ⟨k, hk⟩ else c.memory k
        match a.write (blockAt buffer 0) with
        | none => none
        | some a =>
            match copyLoop c.src size.toNat a.advance c.files buffer size with
            | none => none
            | some (a, t, buffer) =>
                let buffer := clearFrom buffer 0
                match a.write (blockAt buffer 0) with
                | none => none
                | some a =>
                    -- The source means the next sector, but advances the buffer.
                    match a.write (blockAt buffer 1) with
                    | none => none
                    | some a => some (a, t.fileClose c.src)
    | _ => none
  else none

/-- Calls one after another; the file system may change between them. -/
def appendAll (a : Archive) : List AppendCall → Option Archive
  | [] => some a
  | c :: cs =>
      match fsutilAppend a c with
      | none => none
      | some (a, _) => appendAll a cs

structure Member where
  name : List UInt8
  bytes : List UInt8

def sectorsOf (n : Nat) : Nat := (n + 511) / 512

/-- The device holds `members` from sector `s` up to sector `e`: a header each, and its
bytes filled up with zeros. -/
def ArchiveAt (disk : Nat → ByteBlock 512) : Nat → List Member → Nat → Prop
  | s, [], e => s = e
  | s, m :: ms, e =>
      ustarParseHeader (disk s) = some (.ok ⟨some m.name, .regular, m.bytes.length⟩) ∧
        (∀ k < sectorsOf m.bytes.length, ∀ j : Fin 512,
          disk (s + 1 + k) j = m.bytes.getD (512 * k + j) 0) ∧
        ArchiveAt disk (s + 1 + sectorsOf m.bytes.length) ms e

def EndMarker (a : Archive) : Prop :=
  ∀ j : Fin 512, a.disk a.sector j = 0 ∧ a.disk (a.sector + 1) j = 0

namespace AppendCall

def inode (c : AppendCall) : Inode := c.files.inode (c.files.file c.src).inode

def member (c : AppendCall) : Member where
  name := ((stripAntisocialPrefixes c.fileName).map cstr).getD []
  bytes := content c.files.fs c.inode

/-- The file has just been opened, on a volume in order, and `ustar_make_header` accepts
its name. -/
structure Ready (c : AppendCall) : Prop where
  volume : ∃ (ι : Type) (files : ι → Inode) (i : ι),
    VolumeOk c.files.fs files ∧ c.inode = files i
  memory : c.files.fs.mallocOk = true
  start : (c.files.file c.src).pos = 0
  terminated : 0 ∈ c.fileName
  short : c.member.name.length ≤ 99

end AppendCall

def archiveSectors (cs : List AppendCall) : Nat :=
  (cs.map fun c => 1 + sectorsOf c.member.bytes.length).sum

/-- The file at `src` has content `bytes` and is at position `pos`. -/
structure Reads (t : Files) (src : FilePtr) (bytes : List UInt8) (pos : Nat) : Prop where
  volume : ∃ (ι : Type) (files : ι → Inode) (i : ι), VolumeOk t.fs files ∧
    t.inode (t.file src).inode = files i ∧ content t.fs (files i) = bytes
  memory : t.fs.mallocOk = true
  pos : (t.file src).pos = pos

open Nat

variable {t : Files} {src : FilePtr} {bytes : List UInt8} {pos : Nat} {c : AppendCall} {a : Archive}

lemma Reads.fileRead {n : Nat} (h : Reads t src bytes pos) (hn : pos + n ≤ bytes.length)
    (buffer : Nat → UInt8) :
    ∃ buffer' t', t.fileRead src buffer n = (n, buffer', t') ∧ Reads t' src bytes (pos + n) ∧
      (∀ k < n, buffer' k = bytes.getD (pos + k) 0) ∧ ∀ k, n ≤ k → buffer' k = buffer k := by
  obtain ⟨ι, files, i, hv, hinode, hbytes⟩ := h.volume
  obtain ⟨count, buffer', hread, hcount, hcontent, hframe⟩ :=
    hv.inodeReadAt_spec h.memory i buffer n pos
  have hlen : (inodeLength (files i)).toNat = bytes.length := by
    rw [← hbytes, content_length]
  have hcount' : count = n := by omega
  subst hcount'
  refine ⟨buffer', t.setPos src (pos + count), ?_, ?_, ?_, hframe⟩
  · unfold Files.fileRead
    rw [hinode, h.pos, hread]
  · refine ⟨⟨ι, files, i, hv, ?_, hbytes⟩, h.memory, ?_⟩
    · simpa [Files.setPos] using hinode
    · simp [Files.setPos]
  · intro k hk
    have hget := congrArg (fun l => l.getD k 0) hcontent
    rw [hbytes] at hget
    simpa [getD_eq_getElem?_getD, hk] using hget

lemma AppendCall.Ready.reads (h : c.Ready) : Reads c.files c.src c.member.bytes 0 := by
  obtain ⟨ι, files, i, hv, hi⟩ := h.volume
  exact ⟨⟨ι, files, i, hv, hi, by rw [AppendCall.member, hi]⟩, h.memory, h.start⟩

lemma Archive.write_eq (h : a.sector < a.size) (block : ByteBlock 512) :
    a.write block = some { a with disk := update a.disk a.sector block } :=
  if_pos h

/-- The device has the bytes of the file from `pos` on, the rest as it was. -/
structure Copied (a a' : Archive) (bytes : List UInt8) (pos : Nat) : Prop where
  size : a'.size = a.size
  sector : a'.sector = a.sector + sectorsOf (bytes.length - pos)
  data : ∀ k < sectorsOf (bytes.length - pos), ∀ j : Fin 512,
    a'.disk (a.sector + k) j = bytes.getD (pos + 512 * k + j) 0
  frame : ∀ n, n < a.sector ∨ a'.sector ≤ n → a'.disk n = a.disk n

lemma sectorsOf_zero : sectorsOf 0 = 0 := rfl

lemma sectorsOf_pos {n : Nat} (h : 0 < n) : sectorsOf n = 1 + sectorsOf (n - 512) := by
  unfold sectorsOf
  omega

lemma copyLoop_succ (fuel : Nat) (a : Archive) (buffer : Nat → UInt8)
    (h : Reads t src bytes pos) (hlt : pos < bytes.length) (hfit : a.sector < a.size) :
    ∃ buffer' t' block, Reads t' src bytes (pos + min (bytes.length - pos) 512) ∧
      (∀ j : Fin 512, block j = bytes.getD (pos + j) 0) ∧ buffer' 512 = buffer 512 ∧
      copyLoop src (fuel + 1) a t buffer (bytes.length - pos : Nat) = copyLoop src fuel
          (Archive.advance { a with disk := update a.disk a.sector block }) t' buffer'
          (bytes.length - (pos + min (bytes.length - pos) 512) : Nat) := by
  obtain ⟨chunk, hchunk⟩ : ∃ chunk, chunk = min (bytes.length - pos) 512 := ⟨_, rfl⟩
  obtain ⟨buffer', t', hread, hreads, hbytes, hframe⟩ :=
    h.fileRead (n := chunk) (by omega) buffer
  refine ⟨clearFrom buffer' chunk, t', blockAt (clearFrom buffer' chunk) 0, hchunk ▸ hreads,
    fun j => ?_, ?_, ?_⟩
  · unfold blockAt clearFrom
    rw [zero_add]
    split_ifs with hj
    · rw [getD_eq_getElem?_getD, getElem?_eq_none (by omega)]
      rfl
    · exact hbytes j.val (by omega)
  · unfold clearFrom
    rw [if_neg (by omega)]
    exact hframe 512 (by omega)
  · have hsize : (0 : Int) < (bytes.length - pos : Nat) := by omega
    have hmin : (if ((bytes.length - pos : Nat) : Int) > 512 then 512
        else ((bytes.length - pos : Nat) : Int)) = (chunk : Int) := by
      split_ifs <;> omega
    have hrest : ((bytes.length - pos : Nat) : Int) - chunk =
        (bytes.length - (pos + min (bytes.length - pos) 512) : Nat) := by omega
    rw [copyLoop, if_pos hsize]
    dsimp only
    rw [hmin, if_neg (not_le.mpr hfit), hread]
    dsimp only
    rw [if_neg (not_not.mpr rfl), Int.toNat_natCast, Archive.write_eq hfit, hrest]

lemma Copied.refl (hzero : bytes.length - pos = 0) (a : Archive) : Copied a a bytes pos where
  size := rfl
  sector := by rw [hzero, sectorsOf_zero, add_zero]
  data k hk := by
    rw [hzero] at hk
    cases hk
  frame _ _ := rfl

lemma Copied.cons {a' : Archive} {block : ByteBlock 512} (hlt : pos < bytes.length)
    (hblock : ∀ j : Fin 512, block j = bytes.getD (pos + j) 0)
    (h : Copied (Archive.advance { a with disk := update a.disk a.sector block }) a'
      bytes (pos + min (bytes.length - pos) 512)) : Copied a a' bytes pos := by
  have hsplit : sectorsOf (bytes.length - pos) =
      1 + sectorsOf (bytes.length - (pos + min (bytes.length - pos) 512)) := by
    have hrest : bytes.length - (pos + min (bytes.length - pos) 512) =
        bytes.length - pos - 512 := by omega
    rw [hrest]
    exact sectorsOf_pos (by omega)
  have hsector := h.sector
  dsimp only [Archive.advance] at hsector
  refine ⟨h.size, by omega, fun k hk j => ?_, fun n hn => ?_⟩
  · cases k with
    | zero =>
      rw [h.frame (a.sector + 0) (.inl (lt_succ_self _))]
      simpa [Archive.advance] using hblock j
    | succ k =>
      have hk' : k < sectorsOf (bytes.length - (pos + min (bytes.length - pos) 512)) := by
        omega
      have hfull : min (bytes.length - pos) 512 = 512 := by
        unfold sectorsOf at hk'
        omega
      have hdata := h.data k hk' j
      dsimp only [Archive.advance] at hdata
      rw [show a.sector + (k + 1) = a.sector + 1 + k by omega, hdata, hfull]
      congr 1
      omega
  · have hne : n ≠ a.sector := by omega
    rw [h.frame n (by dsimp only [Archive.advance]; omega)]
    exact update_of_ne hne _ _

lemma copyLoop_spec {fuel : Nat} (buffer : Nat → UInt8) (h : Reads t src bytes pos)
    (hfuel : bytes.length - pos ≤ fuel)
    (hfit : a.sector + sectorsOf (bytes.length - pos) ≤ a.size) :
    ∃ a' t' buffer', copyLoop src fuel a t buffer (bytes.length - pos : Nat) =
        some (a', t', buffer') ∧ Copied a a' bytes pos ∧ buffer' 512 = buffer 512 := by
  induction fuel generalizing pos a t buffer with
  | zero => exact ⟨a, t, buffer, rfl, .refl (le_zero.mp hfuel) a, rfl⟩
  | succ fuel ih =>
    by_cases hzero : bytes.length - pos = 0
    · have hloop : copyLoop src (fuel + 1) a t buffer (bytes.length - pos : Nat) =
          some (a, t, buffer) := by
        rw [copyLoop, if_neg (by omega)]
      exact ⟨a, t, buffer, hloop, .refl hzero a, rfl⟩
    · have hlt : pos < bytes.length := by omega
      have hsplit := sectorsOf_pos (pos_of_ne_zero hzero)
      obtain ⟨buffer', t', block, hreads, hblock, hbyte, hloop⟩ :=
        copyLoop_succ fuel a buffer h hlt (by omega)
      have hrest : bytes.length - (pos + min (bytes.length - pos) 512) =
          bytes.length - pos - 512 := by omega
      have hfit' : a.sector + 1 +
          sectorsOf (bytes.length - (pos + min (bytes.length - pos) 512)) ≤ a.size := by
        rw [hrest]
        omega
      obtain ⟨a', t'', buffer'', hrun, hcopied, hbyte'⟩ := ih
        (a := Archive.advance { a with disk := update a.disk a.sector block })
        buffer' hreads (by omega) hfit'
      exact ⟨a', t'', buffer'', hloop.trans hrun, .cons hlt hblock hcopied, hbyte'.trans hbyte⟩

/-- What a call leaves on the device. The last byte of the marker is the byte of memory
that follows the buffer. -/
structure Appended (a a' : Archive) (m : Member) (stray : UInt8) : Prop where
  size : a'.size = a.size
  sector : a'.sector = a.sector + 1 + sectorsOf m.bytes.length
  header : ustarParseHeader (a'.disk a.sector) =
    some (.ok ⟨some m.name, .regular, m.bytes.length⟩)
  data : ∀ k < sectorsOf m.bytes.length, ∀ j : Fin 512,
    a'.disk (a.sector + 1 + k) j = m.bytes.getD (512 * k + j) 0
  marker : ∀ j : Fin 512, a'.disk a'.sector j = if j.val = 511 then stray else 0
  frame : ∀ n, n < a.sector ∨ a'.sector < n → a'.disk n = a.disk n

lemma AppendCall.Ready.header (h : c.Ready) :
    ∃ hd, ustarMakeHeader c.fileName .regular (c.files.fileLength c.src) = some (some hd) ∧
      ustarParseHeader hd = some (.ok ⟨some c.member.name, .regular, c.member.bytes.length⟩) := by
  obtain ⟨ι, files, i, hv, hi⟩ := h.volume
  obtain ⟨q, hq, -, hclean, -⟩ := stripAntisocialPrefixes_spec h.terminated
  have hname : c.member.name = cstr q := by
    simp [AppendCall.member, hq]
  have hlength : c.files.fileLength c.src = inodeLength (files i) := congrArg inodeLength hi
  have hnonneg := (hv.laid i).nonneg
  have hmax : inodeLength (files i) ≤ 8459264 := (hv.laid i).le_max
  have hbytes : c.member.bytes.length = (inodeLength (files i)).toNat := by
    rw [AppendCall.member, content_length, hi]
  have hshort : (cstr q).length ≤ 99 := hname ▸ h.short
  refine ⟨fullHeader q .regular (c.files.fileLength c.src), ?_, ?_⟩
  · rw [ustarMakeHeader_eq hq, if_neg (not_lt.mpr hshort)]
  · rw [hlength, hname, hbytes]
    exact ustarParseHeader_fullHeader hclean hshort (by decide) hnonneg (by omega)

lemma Archive.write_again (h : a.sector < a.size) (b b' : ByteBlock 512) :
    Archive.write { a with disk := update a.disk a.sector b } b' =
      some { a with disk := update a.disk a.sector b' } := by
  rw [write, if_pos h]
  simp

lemma fsutilAppend_spec (h : c.Ready)
    (hfit : a.sector + 1 + sectorsOf c.member.bytes.length < a.size) :
    ∃ a' t, fsutilAppend a c = some (a', t) ∧ Appended a a' c.member (c.memory 512) := by
  obtain ⟨hd, hmake, hparse⟩ := h.header
  obtain ⟨ι, files, i, hv, hi⟩ := h.volume
  have hnonneg := (hv.laid i).nonneg
  have hlength : c.files.fileLength c.src = (c.member.bytes.length : Nat) := by
    have hlen : c.files.fileLength c.src = inodeLength (files i) := congrArg inodeLength hi
    rw [AppendCall.member, content_length, hi, hlen]
    omega
  obtain ⟨buffer, hbuffer⟩ :
      ∃ buffer : Nat → UInt8, buffer = fun k => if hk : k < 512 then hd ⟨k, hk⟩ else c.memory k :=
    ⟨_, rfl⟩
  have hblock : blockAt buffer 0 = hd := by
    funext j
    simp [hbuffer, blockAt]
  have hfit' : a.sector + 1 + sectorsOf (c.member.bytes.length - 0) ≤ a.size := by
    rw [Nat.sub_zero]
    omega
  obtain ⟨a', t, buffer', hrun, hcopied, hbyte⟩ :=
    copyLoop_spec (a := Archive.advance { a with disk := update a.disk a.sector hd })
      buffer h.reads (le_refl _) hfit'
  rw [Nat.sub_zero] at hrun
  have hsector := hcopied.sector
  have hsize := hcopied.size
  dsimp only [Archive.advance] at hsector hsize
  rw [Nat.sub_zero] at hsector
  have hlast : a'.sector < a'.size := by omega
  refine ⟨{ a' with disk := update a'.disk a'.sector (blockAt (clearFrom buffer' 0) 1) },
    t.fileClose c.src, ?_, ?_⟩
  · unfold fsutilAppend
    rw [if_pos h.memory]
    dsimp only
    rw [hmake]
    dsimp only
    rw [← hbuffer, hblock, Archive.write_eq (by omega), hlength, Int.toNat_natCast]
    dsimp only
    rw [hrun]
    dsimp only
    rw [Archive.write_eq hlast]
    dsimp only
    rw [Archive.write_again hlast]
  · refine ⟨hsize, hsector, ?_, fun k hk j => ?_, fun j => ?_, fun n hn => ?_⟩
    · dsimp only
      rw [update_of_ne (by omega), hcopied.frame a.sector (.inl (lt_succ_self _))]
      simpa [Archive.advance] using hparse
    · have hdata := hcopied.data k (by rwa [Nat.sub_zero]) j
      dsimp only [Archive.advance] at hdata ⊢
      rw [update_of_ne (by omega), hdata, zero_add]
    · dsimp only
      rw [update_self]
      unfold blockAt clearFrom
      by_cases hj : j.val = 511
      · rw [if_pos hj, hj, if_neg (by omega)]
        rw [show 1 + 511 = 512 from rfl, hbyte, hbuffer]
        simp
      · rw [if_neg hj, if_pos (by omega)]
    · dsimp only at hn ⊢
      have hout := hcopied.frame n (by dsimp only [Archive.advance]; omega)
      rw [update_of_ne (by omega), hout]
      exact update_of_ne (by omega) _ _

lemma appendAll_spec {cs : List AppendCall} (hready : ∀ c ∈ cs, c.Ready)
    (hfit : a.sector + archiveSectors cs < a.size) :
    ∃ a', appendAll a cs = some a' ∧ a'.sector = a.sector + archiveSectors cs ∧
      ArchiveAt a'.disk a.sector (cs.map AppendCall.member) a'.sector ∧
      (∀ n, n < a.sector ∨ a'.sector < n → a'.disk n = a.disk n) ∧
      ∀ hne : cs ≠ [], ∀ j : Fin 512, a'.disk a'.sector j =
        if j.val = 511 then (cs.getLast hne).memory 512 else 0 := by
  induction cs generalizing a with
  | nil => exact ⟨a, rfl, rfl, rfl, fun _ _ => rfl, fun h => absurd rfl h⟩
  | cons c cs ih =>
    have hcons : archiveSectors (c :: cs) =
        1 + sectorsOf c.member.bytes.length + archiveSectors cs := by
      simp [archiveSectors]
    obtain ⟨a₁, t, hcall, happ⟩ := fsutilAppend_spec (hready c mem_cons_self) (a := a) (by omega)
    have hsector₁ := happ.sector
    have hsize₁ := happ.size
    obtain ⟨a', hrun, hsector, harchive, hframe, hmarker⟩ := ih (a := a₁)
      (fun d hd => hready d (mem_cons_of_mem c hd)) (by omega)
    refine ⟨a', ?_, by omega, ⟨?_, fun k hk j => ?_, ?_⟩, fun n hn => ?_, fun hne j => ?_⟩
    · rwa [appendAll, hcall]
    · rw [hframe a.sector (.inl (by omega))]
      exact happ.header
    · rw [hframe (a.sector + 1 + k) (.inl (by omega))]
      exact happ.data k hk j
    · rwa [← hsector₁]
    · rw [hframe n (by omega)]
      exact happ.frame n (by omega)
    · by_cases hnil : cs = []
      · subst hnil
        cases hrun
        exact happ.marker j
      · rw [hmarker hnil j, getLast_cons hnil]

/-- After calls that fit the device holds the files. The marker is in order exactly when the byte
behind the last buffer is zero and the marker's second sector was zero before. -/
theorem appendAll_archive {a : Archive} (hstart : a.sector = 0) {cs : List AppendCall}
    (hne : cs ≠ []) (hready : ∀ c ∈ cs, c.Ready) (hfit : archiveSectors cs + 2 ≤ a.size) :
    ∃ a', appendAll a cs = some a' ∧
      ArchiveAt a'.disk 0 (cs.map AppendCall.member) a'.sector ∧
      (EndMarker a' ↔ (cs.getLast hne).memory 512 = 0 ∧
        ∀ j : Fin 512, a.disk (a'.sector + 1) j = 0) := by
  obtain ⟨a', hrun, -, harchive, hframe, hmarker⟩ := appendAll_spec hready (a := a) (by omega)
  rw [hstart] at harchive
  have hnext : a'.disk (a'.sector + 1) = a.disk (a'.sector + 1) :=
    hframe _ (.inr (lt_succ_self _))
  refine ⟨a', hrun, harchive, ?_⟩
  unfold EndMarker
  rw [hnext]
  constructor
  · intro h
    refine ⟨?_, fun j => (h j).2⟩
    have hlast := (h 511).1
    rw [hmarker hne] at hlast
    exact hlast
  · rintro ⟨hstray, hzero⟩ j
    refine ⟨?_, hzero j⟩
    rw [hmarker hne, hstray]
    exact ite_self 0

/-- The small file as `a`, copied with zeros in memory. -/
def smallAppend : AppendCall where
  files := ⟨smallFile.2, fun _ => smallFile.1, fun _ => ⟨⟨0⟩, 0, false⟩⟩
  fileName := [97, 0]
  src := ⟨0⟩
  memory := fun _ => 0

lemma smallAppend_ready : smallAppend.Ready where
  volume := ⟨Option Empty, _, none, smallFile_volume, rfl⟩
  memory := by decide +kernel
  start := rfl
  terminated := by decide
  short := by decide

lemma smallAppend_sectors : archiveSectors [smallAppend] = 3 := by
  have hlen : smallAppend.member.bytes.length = 600 := by
    have hlength : inodeLength smallAppend.inode = 600 := by decide +kernel
    rw [AppendCall.member, content_length, hlength]
    rfl
  simp [archiveSectors, hlen, sectorsOf]

def blankArchive : Archive := ⟨64, fun _ _ => 0, 0⟩

theorem appendAll_archive_smallAppend :
    ∃ a', appendAll blankArchive [smallAppend] = some a' ∧
      ArchiveAt a'.disk 0 [smallAppend.member] a'.sector ∧ EndMarker a' := by
  obtain ⟨a', hrun, harchive, hmarker⟩ := appendAll_archive (a := blankArchive) rfl
    (cons_ne_nil smallAppend []) (by
      intro c hc
      rw [mem_singleton.mp hc]
      exact smallAppend_ready)
    (by rw [smallAppend_sectors]; decide)
  exact ⟨a', hrun, harchive, hmarker.mpr ⟨rfl, fun _ => rfl⟩⟩

/-- On a device full of ones the second sector of the marker is not written. -/
theorem fsutilAppend_leaves_stale_sector :
    ∃ a' t, fsutilAppend ⟨64, fun _ _ => 255, 0⟩ smallAppend = some (a', t) ∧
      a'.sector = 3 ∧ (∀ j, a'.disk 4 j = 255) ∧ ¬ EndMarker a' := by
  have hsectors := smallAppend_sectors
  simp only [archiveSectors, map_cons, map_nil, sum_cons, sum_nil] at hsectors
  obtain ⟨a', t, hcall, happ⟩ := fsutilAppend_spec (a := ⟨64, fun _ _ => 255, 0⟩)
    smallAppend_ready (by dsimp only; omega)
  have hsector : a'.sector = 3 := by
    rw [happ.sector]
    dsimp only
    omega
  have hstale : ∀ j, a'.disk 4 j = 255 := by
    intro j
    rw [happ.frame 4 (.inr (by omega))]
  refine ⟨a', t, hcall, hsector, hstale, fun h => ?_⟩
  have hzero := (h 0).2
  rw [hsector, hstale] at hzero
  exact absurd hzero (by decide)

end Pintos.Filesys
