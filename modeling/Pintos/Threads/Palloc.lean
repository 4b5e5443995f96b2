import Pintos.Foundation.Transition
import Pintos.Lib.Bitmap

/-!
# The page allocator (threads/palloc.c)

Two pools of pages, each with a bitmap of the pages in use that lies in the first pages of
the memory it is given. Addresses are 32-bit kernel virtual addresses. The groups that have
been handed out and not been freed are kept beside the pools.
-/

namespace Pintos.Threads

open Foundation Lib

/-- A `struct pool`: the bitmap and its address, and the address of the first page. -/
structure Pool where
  usedMap : Bitmap
  mapAddr : Nat
  base : Nat

structure PageGroup where
  user : Bool
  pages : Nat
  cnt : Nat
  deriving DecidableEq

/-- `panicked` is a failed `ASSERT` or `NOT_REACHED`. -/
structure Palloc where
  kernel : Pool
  user : Pool
  live : List PageGroup
  panicked : Bool

/-- `init_ram_pages` as start.S computes it from the memory size in kB: at most 64 MB are
used. -/
def initRamPages (kb : Nat) : Nat := (if kb ≤ 0x10000 then kb else 0x10000) / 4

/-- `ptov`; `none` is its `ASSERT`. -/
def ptov (paddr : Nat) : Option Nat :=
  if paddr < 0xc0000000 then some ((0xc0000000 + paddr) % 4294967296) else none

def pgNo (va : Nat) : Nat := va / 4096

/-- `init_pool`; `none` is its `PANIC`, and `bits` what the memory at `base` holds. -/
def initPool (bits : Nat → BitVec 32) (base pageCnt : Nat) : Option Pool :=
  let bmPages := (bitmapBufSize pageCnt + 4096 - 1) / 4096
  if bmPages > pageCnt then none
  else
    (bitmapCreateInBuf (pageCnt - bmPages) (bmPages * 4096) bits).map fun map =>
      ⟨map, base, (base + bmPages * 4096) % 4294967296⟩

/-- The difference of two pointers is a signed 32-bit number. -/
def ptrDiff (a b : Nat) : Int := ((a : Int) - b).bmod 4294967296

def pallocInit (ramPages userPageLimit : Nat) (bits : Bool → Nat → BitVec 32) :
    Option Palloc :=
  (ptov (1024 * 1024)).bind fun freeStart =>
    (ptov (ramPages * 4096 % 4294967296)).bind fun freeEnd =>
      let freePages := ((ptrDiff freeEnd freeStart).tdiv 4096 % 4294967296).toNat
      let userPages := if freePages / 2 > userPageLimit then userPageLimit else freePages / 2
      let kernelPages := freePages - userPages
      (initPool (bits false) freeStart kernelPages).bind fun kernel =>
        (initPool (bits true) ((freeStart + kernelPages * 4096) % 4294967296) userPages).map
          fun user => ⟨kernel, user, [], false⟩

def pageFromPool (p : Pool) (page : Nat) : Bool :=
  decide (pgNo p.base ≤ pgNo page) && decide (pgNo page < pgNo p.base + p.usedMap.bitCnt)

def palAssert : Nat := 1

def palUser : Nat := 4

def fromUser (flags : Nat) : Bool := flags &&& palUser != 0

/-- What `palloc_get_multiple` comes to. -/
inductive GetResult
  | pages (addr : Nat)
  | null
  | panic
  deriving DecidableEq

namespace Palloc

def ensure (s : Palloc) (c : Prop) [Decidable c] : Palloc :=
  if c then s else { s with panicked := true }

def pool (s : Palloc) : Bool → Pool
  | false => s.kernel
  | true => s.user

def setMap (s : Palloc) (user : Bool) (map : Bitmap) : Palloc :=
  match user with
  | false => { s with kernel := { s.kernel with usedMap := map } }
  | true => { s with user := { s.user with usedMap := map } }

def pageAt (p : Pool) (pageIdx : Nat) : Nat := (p.base + 4096 * pageIdx) % 4294967296

def pallocGetMultiple (s : Palloc) (flags pageCnt : Nat) : GetResult × Palloc :=
  if pageCnt = 0 then (.null, s)
  else
    let user := fromUser flags
    let failed := if flags &&& palAssert != 0 then GetResult.panic else .null
    match bitmapScanAndFlip (s.pool user).usedMap 0 pageCnt false with
    | (none, map) => (failed, s.setMap user map)
    | (some pageIdx, map) =>
        let pages := pageAt (s.pool user) pageIdx
        if pages = 0 then (failed, s.setMap user map)
        else (.pages pages, { s.setMap user map with live := ⟨user, pages, pageCnt⟩ :: s.live })

def release (s : Palloc) (user : Bool) (pages pageCnt : Nat) : Palloc :=
  let pageIdx := pgNo pages - pgNo (s.pool user).base
  let map := (s.pool user).usedMap
  let s := s.ensure (pageIdx + pageCnt ≤ map.bitCnt ∧ bitmapAll map pageIdx pageCnt = true)
  s.setMap user (bitmapSetMultiple map pageIdx pageCnt false)

def pallocFreeMultiple (s : Palloc) (pages pageCnt : Nat) : Palloc :=
  let s := s.ensure (pages % 4096 = 0)
  if pages = 0 ∨ pageCnt = 0 then s
  else if pageFromPool s.kernel pages then s.release false pages pageCnt
  else if pageFromPool s.user pages then s.release true pages pageCnt
  else { s with panicked := true }

inductive Call
  | get (flags pageCnt : Nat)
  | free (g : PageGroup)

/-- A call; `PANIC` has no successor, and only live groups are freed. -/
def call (s : Palloc) : Call → Option Palloc
  | .get flags pageCnt =>
      match s.pallocGetMultiple flags pageCnt with
      | (.panic, _) => none
      | (_, s) => some s
  | .free g =>
      if g ∈ s.live then
        some { s.pallocFreeMultiple g.pages g.cnt with live := s.live.erase g }
      else none

def machine (kb userPageLimit : Nat) : Machine Palloc Call where
  start s := ∃ bits, pallocInit (initRamPages kb) userPageLimit bits = some s
  step := call

end Palloc

end Pintos.Threads
