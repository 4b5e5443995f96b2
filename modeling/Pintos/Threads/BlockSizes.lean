import Pintos.Lib.MemoryBlocks
import Pintos.Threads.HeapRuns
import Pintos.Threads.Palloc

/-!
# The sizes of blocks, for requests up to the end of the address space

`malloc` and `calloc` on top of the page allocator. Sizes are 32-bit numbers and their sums
and products wrap around; what comes out is compared with the size that was asked for.
-/

namespace Pintos.Threads

open Foundation Lib List

namespace Heap

/-- The pages that `malloc` asks for; none if it does not ask. -/
def pagesAsked (h : Heap) (size : Nat) : Nat :=
  if size = 0 then 0
  else
    match findDesc size with
    | none => pageCnt size
    | some d => if h.freeList d = [] then 1 else 0

/-- `malloc` with the pages of `palloc_get_multiple`. -/
def mallocFrom (h : Heap) (s : Palloc) (size : Nat) : Option Nat × Heap × Palloc :=
  let (result, s) := s.pallocGetMultiple 0 (h.pagesAsked size)
  let page :=
    match result with
    | .pages addr => some (addr / pgSize)
    | _ => none
  let (block, h) := h.malloc size page
  (block, h, s)

/-- `calloc`, with memory for `memset`; `none` is the `ASSERT` there. -/
def calloc (h : Heap) (s : Palloc) (mem : Bytes) (a b : Nat) :
    Option (Option Nat × Heap × Palloc × Bytes) :=
  let size := a * b % 4294967296
  if size < a ∨ size < b then some (none, h, s, mem)
  else
    match h.mallocFrom s size with
    | (none, h, s) => some (none, h, s, mem)
    | (some p, h, s) => (memset mem p 0 size).map fun r => (some p, h, s, r.1)

variable {size b d : Nat} {s : Palloc} {h' : Heap}

lemma pageCnt_exact (h : size + 4107 < 4294967296) : pageCnt size = (size + 12 + 4095) / 4096 := by
  unfold pageCnt headerSize pgSize
  omega

/-- The sum of size and header fits, but not what is added to round it up. -/
lemma pageCnt_zero (h : 4294967296 ≤ size + 4107) (hle : size ≤ 4294967284) : pageCnt size = 0 := by
  unfold pageCnt headerSize pgSize
  omega

lemma pageCnt_one (h : 4294967284 < size) (hsize : size < 4294967296) : pageCnt size = 1 := by
  unfold pageCnt headerSize pgSize
  omega

lemma pageCnt_le (size : Nat) : pageCnt size ≤ 1048575 := by
  unfold pageCnt pgSize
  omega

/-- The blocks on a free list are in arenas of its descriptor. -/
def FreeOk (h : Heap) : Prop := ∀ d, ∀ b ∈ h.freeList d, (h.arena (b / pgSize)).desc = some d

variable {h : Heap}

lemma ensure_view (h : Heap) (c : Prop) [Decidable c] :
    (h.ensure c).arena = h.arena ∧ (h.ensure c).freeList = h.freeList := by
  unfold ensure
  split
  · exact ⟨rfl, rfl⟩
  · exact ⟨rfl, rfl⟩

lemma blockSize_of_desc (hd : (h.arena (b / pgSize)).desc = some d) :
    (h.blockSize b).1 = blockSizeOf d := by
  unfold blockSize blockToArena
  dsimp only
  rw [(ensure_view _ _).1, hd]

lemma takeBlock_size {l : List Nat} (hl : h.freeList d = b :: l)
    (hd : (h.arena (b / pgSize)).desc = some d) (size : Nat) :
    (h.takeBlock d size).1 = some b ∧
      ((h.takeBlock d size).2.blockSize b).1 = blockSizeOf d := by
  unfold takeBlock
  rw [hl]
  refine ⟨rfl, blockSize_of_desc ?_⟩
  dsimp only [blockToArena]
  rwa [setFreeCnt_desc, (ensure_view _ _).1]

lemma foldl_pushBlock_view {p : Nat} (hdesc : (h.arena p).desc = some d) (n : Nat) :
    ((range n).foldl (pushBlock p d) h).arena = h.arena ∧
      ((range n).foldl (pushBlock p d) h).freeList d =
        h.freeList d ++ (range n).map (blockAt p d) := by
  induction n with
  | zero => exact ⟨rfl, (append_nil _).symm⟩
  | succ n ih =>
    obtain ⟨harena, hlist⟩ := ih
    rw [range_succ, foldl_append, foldl_cons, foldl_nil, map_append, ← append_assoc, ← hlist]
    generalize (range n).foldl (pushBlock p d) h = h' at harena
    unfold pushBlock arenaToBlock
    rw [harena, hdesc]
    dsimp only
    rw [setFreeList_freeList, (ensure_view _ _).2]
    exact ⟨(ensure_view _ _).1.trans harena, rfl⟩

lemma newArena_size (hd : d < 7) (hempty : h.freeList d = []) (p size : Nat) :
    ((h.newArena d p).takeBlock d size).1 = some (blockAt p d 0) ∧
      (((h.newArena d p).takeBlock d size).2.blockSize (blockAt p d 0)).1 = blockSizeOf d := by
  have hspec := desc_spec d hd
  have hself := addPages_arena_self h p 1 (newHeader d)
  obtain ⟨harena, hlist⟩ := foldl_pushBlock_view (congrArg Arena.desc hself) (blocksPerArena d)
  have hold : (h.addPages p 1 (newHeader d)).freeList d = [] := hempty
  obtain ⟨n, hn⟩ : ∃ n, blocksPerArena d = n + 1 := ⟨blocksPerArena d - 1, by omega⟩
  have hfirst : (h.newArena d p).freeList d =
      blockAt p d 0 :: ((range n).map Nat.succ).map (blockAt p d) := by
    refine hlist.trans ?_
    rw [hold, nil_append, hn, range_succ_eq_map]
    rfl
  refine takeBlock_size hfirst ?_ size
  rw [blockAt_div hd (by omega)]
  exact congrArg Arena.desc ((congrFun harena p).trans hself)

lemma mallocBig_size (h : Heap) (size p : Nat) :
    (h.mallocBig size p).1 = some (4096 * p + 12) ∧
      ((h.mallocBig size p).2.blockSize (4096 * p + 12)).1 = 4096 * pageCnt size - 12 := by
  have hdiv : (4096 * p + 12) / pgSize = p := by
    unfold pgSize
    omega
  have hofs : (4096 * p + 12) % pgSize = 12 := by
    unfold pgSize
    omega
  have hself : (h.mallocBig size p).2.arena p = ⟨arenaMagic, none, pageCnt size⟩ :=
    Function.update_self _ _ _
  refine ⟨rfl, ?_⟩
  unfold blockSize blockToArena
  dsimp only
  rw [(ensure_view _ _).1, hdiv, hself]
  dsimp only
  rw [hofs]
  rfl

/-! ## What is returned -/

lemma pallocGetMultiple_lt {flags cnt addr : Nat}
    (hpages : (s.pallocGetMultiple flags cnt).1 = .pages addr) : addr < 4294967296 := by
  have hfailed : (if flags &&& palAssert != 0 then GetResult.panic else .null) ≠ .pages addr := by
    split
    · nofun
    · nofun
  unfold Palloc.pallocGetMultiple at hpages
  split at hpages
  next => cases hpages
  next =>
    dsimp only at hpages
    split at hpages
    next => exact absurd hpages hfailed
    next pageIdx _ _ =>
      split at hpages
      next => exact absurd hpages hfailed
      next =>
        cases hpages
        exact Nat.mod_lt _ (by decide)

/-- `malloc` returns a null pointer, a block of a descriptor, or pages of its own. -/
inductive Returns (h : Heap) (s : Palloc) (size : Nat) : Option Nat → Heap → Prop
  | null (h' : Heap) (hbig : findDesc size = none →
      ∀ addr, (s.pallocGetMultiple 0 (pageCnt size)).1 ≠ .pages addr) : Returns h s size none h'
  | small {h' : Heap} {b d : Nat} (hd : findDesc size = some d)
      (hb : (∃ d, b ∈ h.freeList d) ∨ ∃ p < 1048576, b = 4096 * p + 12)
      (hsize : (h'.blockSize b).1 = blockSizeOf d) : Returns h s size (some b) h'
  | big {h' : Heap} {addr : Nat} (hd : findDesc size = none)
      (hpages : (s.pallocGetMultiple 0 (pageCnt size)).1 = .pages addr)
      (hsize : (h'.blockSize (4096 * (addr / 4096) + 12)).1 = 4096 * pageCnt size - 12) :
      Returns h s size (some (4096 * (addr / 4096) + 12)) h'

lemma mallocFrom_big (hsize : size ≠ 0) (hd : findDesc size = none) (s : Palloc) :
    Returns h s size (h.mallocFrom s size).1 (h.mallocFrom s size).2.1 := by
  have hasked : h.pagesAsked size = pageCnt size := by
    rw [pagesAsked, if_neg hsize, hd]
  unfold mallocFrom
  rw [hasked]
  generalize hget : s.pallocGetMultiple 0 (pageCnt size) = got
  rcases got with ⟨result, s'⟩
  have hresult : (s.pallocGetMultiple 0 (pageCnt size)).1 = result := by rw [hget]
  dsimp only [malloc]
  rw [if_neg hsize, hd]
  cases result with
  | pages addr => exact .big hd hresult (mallocBig_size h size (addr / pgSize)).2
  | null =>
    refine .null _ fun _ addr => ?_
    rw [hresult]
    nofun
  | panic =>
    refine .null _ fun _ addr => ?_
    rw [hresult]
    nofun

lemma mallocFrom_newArena (hsize : size ≠ 0) (hd : findDesc size = some d)
    (hlist : h.freeList d = []) (s : Palloc) :
    Returns h s size (h.mallocFrom s size).1 (h.mallocFrom s size).2.1 := by
  obtain ⟨hlt, -⟩ := findDesc_some hd
  have hnull : Returns h s size none h := .null h (by rw [hd]; nofun)
  unfold mallocFrom
  generalize hget : s.pallocGetMultiple 0 (h.pagesAsked size) = got
  rcases got with ⟨result, s'⟩
  dsimp only [malloc]
  rw [if_neg hsize, hd]
  dsimp only
  rw [if_pos hlist]
  cases result with
  | pages addr =>
    obtain ⟨hblock, hroom⟩ := newArena_size hlt hlist (addr / pgSize) size
    have hlt' : addr < 4294967296 := pallocGetMultiple_lt (congrArg Prod.fst hget)
    have haddr : blockAt (addr / pgSize) d 0 = 4096 * (addr / 4096) + 12 := by
      rw [blockAt, Nat.zero_mul]
      rfl
    dsimp only
    rw [hblock]
    exact .small hd (.inr ⟨addr / 4096, by omega, haddr⟩) hroom
  | null => exact hnull
  | panic => exact hnull

lemma mallocFrom_freeBlock {l : List Nat} (hfree : h.FreeOk) (hsize : size ≠ 0)
    (hd : findDesc size = some d) (hlist : h.freeList d = b :: l) (s : Palloc) :
    Returns h s size (h.mallocFrom s size).1 (h.mallocFrom s size).2.1 := by
  have hne : ¬ h.freeList d = [] := by
    rw [hlist]
    nofun
  have hmem : b ∈ h.freeList d := by
    rw [hlist]
    exact mem_cons_self
  obtain ⟨hblock, hroom⟩ := takeBlock_size hlist (hfree d b hmem) size
  unfold mallocFrom
  generalize s.pallocGetMultiple 0 (h.pagesAsked size) = got
  rcases got with ⟨result, s'⟩
  dsimp only [malloc]
  rw [if_neg hsize, hd]
  dsimp only
  rw [if_neg hne, hblock]
  exact .small hd (.inl ⟨d, hmem⟩) hroom

lemma mallocFrom_returns (hfree : h.FreeOk) (s : Palloc) (size : Nat) :
    Returns h s size (h.mallocFrom s size).1 (h.mallocFrom s size).2.1 := by
  have hzero : findDesc 0 = some 0 := rfl
  by_cases hsize : size = 0
  · subst hsize
    exact .null _ (by rw [hzero]; nofun)
  cases hd : findDesc size with
  | none => exact mallocFrom_big hsize hd s
  | some d =>
    cases hlist : h.freeList d with
    | nil => exact mallocFrom_newArena hsize hd hlist s
    | cons b l => exact mallocFrom_freeBlock hfree hsize hd hlist s

lemma blockSizeOf_le : ∀ d < 7, blockSizeOf d ≤ 1024 := by
  decide

lemma findDesc_none (hsize : 1024 < size) : findDesc size = none := by
  cases hd : findDesc size with
  | none => rfl
  | some d =>
    obtain ⟨hlt, hle⟩ := findDesc_some hd
    have hsmall := blockSizeOf_le d hlt
    omega

/-- A block is large enough if the sum of size and header is right. -/
lemma Returns.enough (hreturns : Returns h s size (some b) h') (hle : size ≤ 4294967284) :
    size ≤ (h'.blockSize b).1 := by
  cases hreturns with
  | small hd hb hroom =>
    rw [hroom]
    exact (findDesc_some hd).2
  | big hd hpages hroom =>
    have hfits : size + 4107 < 4294967296 := by
      by_contra hround
      rw [pageCnt_zero (Nat.not_lt.mp hround) hle] at hpages
      cases hpages
    rw [hroom, pageCnt_exact hfits]
    omega

lemma Returns.size_le (hreturns : Returns h s size (some b) h') :
    (h'.blockSize b).1 ≤ 4294963188 := by
  cases hreturns with
  | small hd hb hroom =>
    have hsmall := blockSizeOf_le _ (findDesc_some hd).1
    omega
  | big hd hpages hroom =>
    have hcnt := pageCnt_le size
    omega

lemma Returns.ptr (hptr : ∀ d, ∀ p ∈ h.freeList d, 0 < p ∧ p < 4294967296)
    (hreturns : Returns h s size (some b) h') : 0 < b ∧ b < 4294967296 := by
  cases hreturns with
  | small hd hb hroom =>
    rcases hb with ⟨d, hmem⟩ | ⟨p, hp, rfl⟩
    · exact hptr d b hmem
    · omega
  | big hd hpages hroom =>
    have hlt := pallocGetMultiple_lt hpages
    omega

/-- A block has its size unless size and header overflow 32 bits and a page is found for the rest.
The page count is exact unless rounding up overflows. -/
theorem malloc_enough_iff {h : Heap} (hfree : h.FreeOk) (s : Palloc) {size : Nat}
    (hsize : size < 4294967296) :
    ((∀ b, (h.mallocFrom s size).1 = some b → size ≤ ((h.mallocFrom s size).2.1.blockSize b).1) ↔
        size ≤ 4294967284 ∨ ∀ addr, (s.pallocGetMultiple 0 1).1 ≠ .pages addr) ∧
      ((size + 12 + 4095) / 4096 ≤ pageCnt size ↔ size + 4107 < 4294967296) := by
  constructor
  · have hreturns := mallocFrom_returns hfree s size
    generalize h.mallocFrom s size = out at hreturns ⊢
    rcases out with ⟨r, h', s'⟩
    dsimp only at hreturns ⊢
    by_cases hle : size ≤ 4294967284
    · refine iff_of_true ?_ (.inl hle)
      rintro b rfl
      exact hreturns.enough hle
    · have hone := pageCnt_one (Nat.not_le.mp hle) hsize
      have hnone : findDesc size = none := findDesc_none (by omega)
      rw [or_iff_right hle]
      cases hreturns with
      | null _ hbig =>
        rw [hone] at hbig
        exact iff_of_true nofun (hbig hnone)
      | small hd hb hroom =>
        rw [hnone] at hd
        cases hd
      | @big _ addr hd hpages hroom =>
        rw [hone] at hpages hroom
        refine iff_of_false (fun hall => ?_) fun hno => hno addr hpages
        have hblock := hall _ rfl
        omega
  · by_cases hfits : size + 4107 < 4294967296
    · exact iff_of_true (Nat.le_of_eq (pageCnt_exact hfits).symm) hfits
    · refine iff_of_false ?_ hfits
      by_cases hle : size ≤ 4294967284
      · rw [pageCnt_zero (Nat.not_lt.mp hfits) hle]
        omega
      · rw [pageCnt_one (Nat.not_le.mp hle) hsize]
        omega

/-- The page allocator of a machine with 2 MB. -/
theorem malloc_enough_iff_page :
    ∃ s, pallocInit (initRamPages 2048) 64 (fun _ _ => 0#32) = some s ∧
      ∀ b, (emptyHeap.mallocFrom s 5000).1 = some b →
        5000 ≤ ((emptyHeap.mallocFrom s 5000).2.1.blockSize b).1 := by
  have hinit : (pallocInit (initRamPages 2048) 64 (fun _ _ => 0#32)).isSome = true := by
    decide +kernel
  obtain ⟨s, hs⟩ := Option.isSome_iff_exists.mp hinit
  exact ⟨s, hs, (malloc_enough_iff (h := emptyHeap) nofun s (by decide)).1.mpr (.inl (by decide))⟩

/-- A request for all of the address space is answered with one page. -/
theorem malloc_undersized :
    (pallocInit (initRamPages 2048) 64 (fun _ _ => 0#32)).map (fun s =>
        let r := emptyHeap.mallocFrom s 4294967295
        (r.1, r.1.map fun b => (r.2.1.blockSize b).1)) =
      some (some 0xc010100c, some 4084) := by
  decide +kernel

end Heap

end Pintos.Threads
