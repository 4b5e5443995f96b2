import Pintos.Foundation.Transition
import Mathlib.Data.List.Basic

/-!
# The block allocator (threads/malloc.c)

Blocks of up to 1 kB come from arenas, pages cut into equal blocks that a descriptor
keeps on its free list; larger ones are runs of pages. Both start with a header. The
page allocator is left open: a call that needs pages is given the number of the first
one, or none.
-/

namespace Pintos.Threads

open Foundation

def pgSize : Nat := 4096

def headerSize : Nat := 12

def arenaMagic : Nat := 0x9a548eed

/-- `struct desc`, without its list and its lock. -/
structure Desc where
  blockSize : Nat
  blocksPerArena : Nat
  deriving DecidableEq

structure Arena where
  magic : Nat
  desc : Option Nat
  freeCnt : Nat

/-- The loop of `malloc_init`, with the number of descriptors that fit in `descs`. -/
def mallocInitLoop : Nat → Nat → List Desc
  | 0, _ => []
  | left + 1, blockSize =>
      if blockSize < pgSize / 2 then
        ⟨blockSize, (pgSize - headerSize) / blockSize⟩ :: mallocInitLoop left (blockSize * 2)
      else []

def descs : List Desc := mallocInitLoop 10 16

def blockSizeOf (d : Nat) : Nat := (descs.getD d ⟨0, 0⟩).blockSize

def blocksPerArena (d : Nat) : Nat := (descs.getD d ⟨0, 0⟩).blocksPerArena

/-- The headers of pages and the free lists of the descriptors. `owned` are the runs of pages handed
out, `live` the blocks with the sizes asked for. -/
structure Heap where
  arena : Nat → Arena
  freeList : Nat → List Nat
  owned : List (Nat × Nat)
  live : List (Nat × Nat)
  panicked : Bool

namespace Heap

def ensure (h : Heap) (c : Prop) [Decidable c] : Heap :=
  if c then h else { h with panicked := true }

def setArena (h : Heap) (p : Nat) (a : Arena) : Heap :=
  { h with arena := Function.update h.arena p a }

def setFreeCnt (h : Heap) (p n : Nat) : Heap := h.setArena p { h.arena p with freeCnt := n }

def setFreeList (h : Heap) (d : Nat) (l : List Nat) : Heap :=
  { h with freeList := Function.update h.freeList d l }

def blockAt (p d idx : Nat) : Nat := pgSize * p + headerSize + idx * blockSizeOf d

/-- What `block_to_arena` asserts of a block and the header of its page. -/
def InArena (a : Arena) (b : Nat) : Prop :=
  b / pgSize ≠ 0 ∧ a.magic = arenaMagic ∧
    (∀ d ∈ a.desc, (4294967284 + b % pgSize) % 4294967296 % blockSizeOf d = 0) ∧
    (a.desc = none → b % pgSize = headerSize)

instance (a : Arena) (b : Nat) : Decidable (InArena a b) :=
  inferInstanceAs (Decidable (_ ∧ _ ∧ _ ∧ _))

def blockToArena (h : Heap) (b : Nat) : Nat × Heap :=
  (b / pgSize, h.ensure (InArena (h.arena (b / pgSize)) b))

/-- An arena without a descriptor is a null dereference here. -/
def arenaToBlock (h : Heap) (p idx : Nat) : Nat × Heap :=
  match (h.arena p).desc with
  | none => (0, { h with panicked := true })
  | some d =>
      (blockAt p d idx,
        h.ensure (p ≠ 0 ∧ (h.arena p).magic = arenaMagic ∧ idx < blocksPerArena d))

/-- An iteration of the loop that puts the blocks of a new arena on the free list. -/
def pushBlock (p d : Nat) (h : Heap) (i : Nat) : Heap :=
  let (b, h) := h.arenaToBlock p i
  h.setFreeList d (h.freeList d ++ [b])

def newArena (h : Heap) (d p : Nat) : Heap :=
  let h := { h with owned := (p, 1) :: h.owned }
  let h := h.setArena p ⟨arenaMagic, some d, blocksPerArena d⟩
  (List.range (blocksPerArena d)).foldl (pushBlock p d) h

/-- The end of `malloc`: takes the first block of the free list. -/
def takeBlock (h : Heap) (d size : Nat) : Option Nat × Heap :=
  match h.freeList d with
  | [] => (none, { h with panicked := true })
  | b :: l =>
      let h := h.setFreeList d l
      let (p, h) := h.blockToArena b
      let h := h.setFreeCnt p ((4294967295 + (h.arena p).freeCnt) % 4294967296)
      (some b, { h with live := (b, size) :: h.live })

/-- The smallest descriptor whose blocks have the size. -/
def findDesc (size : Nat) : Option Nat := descs.findIdx? fun d => size ≤ d.blockSize

/-- `DIV_ROUND_UP (size + sizeof *a, PGSIZE)` in `size_t`. -/
def pageCnt (size : Nat) : Nat :=
  ((headerSize + size) % 4294967296 + (pgSize - 1)) % 4294967296 / pgSize

def mallocBig (h : Heap) (size p : Nat) : Option Nat × Heap :=
  let h := { h with owned := (p, pageCnt size) :: h.owned }
  let h := h.setArena p ⟨arenaMagic, none, pageCnt size⟩
  (some (pgSize * p + headerSize),
    { h with live := (pgSize * p + headerSize, size) :: h.live })

/-- `page` is what the page allocator returns if it is asked. -/
def malloc (h : Heap) (size : Nat) (page : Option Nat) : Option Nat × Heap :=
  if size = 0 then (none, h)
  else
    match findDesc size with
    | none =>
        match page with
        | none => (none, h)
        | some p => h.mallocBig size p
    | some d =>
        if h.freeList d = [] then
          match page with
          | none => (none, h)
          | some p => (h.newArena d p).takeBlock d size
        else h.takeBlock d size

def blockSize (h : Heap) (block : Nat) : Nat × Heap :=
  let (p, h) := h.blockToArena block
  match (h.arena p).desc with
  | some d => (blockSizeOf d, h)
  | none => (pgSize * (h.arena p).freeCnt - block % pgSize, h)

/-- Takes a block of an arena off the free list; `list_remove` asserts that it is on a list. -/
def removeBlock (p d : Nat) (h : Heap) (i : Nat) : Heap :=
  let (b, h) := h.arenaToBlock p i
  let h := h.ensure (b ∈ h.freeList d)
  h.setFreeList d ((h.freeList d).erase b)

def pallocFree (h : Heap) (p cnt : Nat) : Heap :=
  { h with owned := h.owned.filter (· ≠ (p, cnt)) }

def freeBlock (h : Heap) (b p d : Nat) : Heap :=
  let h := h.setFreeList d (b :: h.freeList d)
  let freeCnt := ((h.arena p).freeCnt + 1) % 4294967296
  let h := h.setFreeCnt p freeCnt
  if blocksPerArena d ≤ freeCnt then
    let h := h.ensure (freeCnt = blocksPerArena d)
    ((List.range (blocksPerArena d)).foldl (removeBlock p d) h).pallocFree p 1
  else h

def free (h : Heap) (block : Option Nat) : Heap :=
  match block with
  | none => h
  | some b =>
      let (p, h) := h.blockToArena b
      let h := { h with live := h.live.filter (·.1 ≠ b) }
      match (h.arena p).desc with
      | some d => h.freeBlock b p d
      | none => h.pallocFree p (h.arena p).freeCnt

/-- The bytes that `realloc` copies are not modelled, only how many. -/
def realloc (h : Heap) (oldBlock : Option Nat) (newSize : Nat) (page : Option Nat) :
    Option Nat × Nat × Heap :=
  if newSize = 0 then (none, 0, h.free oldBlock)
  else
    match oldBlock, h.malloc newSize page with
    | some old, (some new, h) =>
        let (oldSize, h) := h.blockSize old
        (some new, if newSize < oldSize then newSize else oldSize, h.free (some old))
    | _, (new, h) => (new, 0, h)

inductive Op
  | malloc (size : Nat) (page : Option Nat)
  | realloc (oldBlock : Option Nat) (newSize : Nat) (page : Option Nat)
  | free (block : Option Nat)

/-- Pages that a call for `size` bytes asks the page allocator for. -/
def pagesFor (size : Nat) : Nat :=
  match findDesc size with
  | none => pageCnt size
  | some _ => 1

/-- The page allocator returns pages that it has not handed out, and never page 0. -/
def Fresh (h : Heap) (p cnt : Nat) : Prop :=
  p ≠ 0 ∧ ∀ g ∈ h.owned, p + cnt ≤ g.1 ∨ g.1 + g.2 ≤ p

instance (h : Heap) (p cnt : Nat) : Decidable (h.Fresh p cnt) :=
  inferInstanceAs (Decidable (_ ∧ _))

/-- A null pointer, or a block that has been handed out and not freed. -/
def IsLive (h : Heap) (block : Option Nat) : Prop := ∀ b ∈ block, b ∈ h.live.map Prod.fst

instance (h : Heap) (block : Option Nat) : Decidable (h.IsLive block) :=
  inferInstanceAs (Decidable (∀ b ∈ block, _))

def Op.Allowed (h : Heap) : Op → Prop
  | .malloc size page => size < 2147483648 ∧ ∀ p ∈ page, h.Fresh p (pagesFor size)
  | .realloc old size page =>
      size < 2147483648 ∧ h.IsLive old ∧ ∀ p ∈ page, h.Fresh p (pagesFor size)
  | .free block => h.IsLive block

instance (h : Heap) : ∀ op : Op, Decidable (op.Allowed h)
  | .malloc _ _ => inferInstanceAs (Decidable (_ ∧ _))
  | .realloc _ _ _ => inferInstanceAs (Decidable (_ ∧ _ ∧ _))
  | .free block => inferInstanceAs (Decidable (h.IsLive block))

def call (h : Heap) : Op → Heap
  | .malloc size page => (h.malloc size page).2
  | .realloc old size page => (h.realloc old size page).2.2
  | .free block => h.free block

/-- After `malloc_init`: no pages and no blocks. -/
structure Start (h : Heap) : Prop where
  freeList : ∀ d, h.freeList d = []
  owned : h.owned = []
  live : h.live = []
  panicked : h.panicked = false

def machine : Machine Heap Op where
  start := Start
  step h op := if op.Allowed h then some (h.call op) else none

end Heap

end Pintos.Threads
