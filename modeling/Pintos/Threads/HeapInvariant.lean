import Pintos.Threads.Malloc
import Mathlib.Data.Finset.Card

/-!
# The heap invariant

Three views of the free space agree: the free lists, the counters in the arena headers
and the blocks that are handed out. Here is the invariant that says so, and that taking a
block and giving it back keep it.
-/

namespace Pintos.Threads

open Foundation Function List

lemma desc_spec : ∀ d < 7, 0 < blockSizeOf d ∧ 12 + blocksPerArena d * blockSizeOf d ≤ 4096 ∧
    2 ≤ blocksPerArena d ∧ blocksPerArena d ≤ 255 := by
  decide

namespace Heap

variable {size d i p b : Nat} {h h' : Heap}

lemma findDesc_some (h : findDesc size = some d) : d < 7 ∧ size ≤ blockSizeOf d := by
  rcases findIdx?_eq_some_iff_getElem.mp h with ⟨hd, hsize, -⟩
  refine ⟨hd, ?_⟩
  rw [blockSizeOf, getD_eq_getElem?_getD, getElem?_eq_getElem hd]
  simpa using hsize

lemma idx_bound (hi : i < blocksPerArena d) :
    i * blockSizeOf d + blockSizeOf d ≤ blocksPerArena d * blockSizeOf d := by
  rw [← Nat.succ_mul]
  exact Nat.mul_le_mul_right _ hi

lemma blockAt_bounds (hd : d < 7) (hi : i < blocksPerArena d) (p : Nat) :
    4096 * p + 12 ≤ blockAt p d i ∧ blockAt p d i + blockSizeOf d ≤ 4096 * p + 4096 := by
  have hspec := desc_spec d hd
  have hbound := idx_bound hi
  unfold blockAt pgSize headerSize
  omega

lemma blockAt_div (hd : d < 7) (hi : i < blocksPerArena d) (p : Nat) :
    blockAt p d i / pgSize = p := by
  have hbounds := blockAt_bounds hd hi p
  have hspec := desc_spec d hd
  unfold pgSize
  omega

lemma blockAt_inj {j : Nat} (hd : d < 7) (h : blockAt p d i = blockAt p d j) : i = j := by
  have hspec := desc_spec d hd
  have hmul : i * blockSizeOf d = j * blockSizeOf d := by
    unfold blockAt at h
    omega
  exact Nat.eq_of_mul_eq_mul_right hspec.1 hmul

lemma inArena_blockAt {a : Arena} (hd : d < 7) (hi : i < blocksPerArena d) (hp : p ≠ 0)
    (hmagic : a.magic = arenaMagic) (hdesc : a.desc = some d) : InArena a (blockAt p d i) := by
  have hdiv := blockAt_div hd hi p
  refine ⟨by rw [hdiv]; exact hp, hmagic, fun d' hd' => ?_, fun h => by rw [hdesc] at h; cases h⟩
  rw [hdesc] at hd'
  cases hd'
  have hbounds := blockAt_bounds hd hi p
  have hspec := desc_spec d hd
  have hofs : blockAt p d i % pgSize = 12 + i * blockSizeOf d := by
    unfold blockAt pgSize headerSize at hbounds ⊢
    omega
  have hsub : (4294967284 + blockAt p d i % pgSize) % 4294967296 = i * blockSizeOf d := by
    have hidx := idx_bound hi
    rw [hofs]
    omega
  rw [hsub]
  exact Nat.mul_mod_left i (blockSizeOf d)

def addrs (h : Heap) : List Nat := h.live.map Prod.fst

/-- `p` is an arena of descriptor `d`. -/
def Holds (h : Heap) (d p : Nat) : Prop := (p, 1) ∈ h.owned ∧ (h.arena p).desc = some d

/-- The blocks of an arena that are not handed out. -/
def freeIdx (h : Heap) (d p : Nat) : Finset Nat :=
  (Finset.range (blocksPerArena d)).filter fun i => blockAt p d i ∉ h.addrs

lemma mem_freeIdx : i ∈ h.freeIdx d p ↔ i < blocksPerArena d ∧ blockAt p d i ∉ h.addrs := by
  rw [freeIdx, Finset.mem_filter, Finset.mem_range]

/-- A block of the size asked for, in an arena or by itself on its pages. -/
def Placed (h : Heap) (b size : Nat) : Prop :=
  ∃ g ∈ h.owned,
    (∃ d i, (h.arena g.1).desc = some d ∧ i < blocksPerArena d ∧ b = blockAt g.1 d i ∧
      size ≤ blockSizeOf d) ∨
    ((h.arena g.1).desc = none ∧ b = 4096 * g.1 + 12 ∧ 12 + size ≤ 4096 * g.2)

structure Header (a : Arena) (cnt : Nat) : Prop where
  magic : a.magic = arenaMagic
  kind : (∃ d, a.desc = some d ∧ d < 7 ∧ cnt = 1) ∨ (a.desc = none ∧ a.freeCnt = cnt)

/-- The runs of pages are disjoint and have their headers. -/
structure PagesOk (h : Heap) : Prop where
  pos : ∀ g ∈ h.owned, g.1 ≠ 0 ∧ 0 < g.2
  apart : ∀ g ∈ h.owned, ∀ g' ∈ h.owned, g ≠ g' → g.1 + g.2 ≤ g'.1 ∨ g'.1 + g'.2 ≤ g.1
  header : ∀ g ∈ h.owned, Header (h.arena g.1) g.2

/-- The invariant but for arenas that are wholly free, which exist inside a call. -/
structure Ok (h : Heap) : Prop extends PagesOk h where
  nodup : ∀ d, (h.freeList d).Nodup
  onList : ∀ d b, b ∈ h.freeList d ↔
    ∃ p i, h.Holds d p ∧ i < blocksPerArena d ∧ b = blockAt p d i ∧ b ∉ h.addrs
  cnt : ∀ d p, h.Holds d p → (h.arena p).freeCnt = (h.freeIdx d p).card
  liveNodup : h.addrs.Nodup
  placed : ∀ x ∈ h.live, h.Placed x.1 x.2
  intact : h.panicked = false

/-- No arena but perhaps `p` is wholly free. -/
def InUseBut (h : Heap) (p : Option Nat) : Prop :=
  ∀ d q, h.Holds d q → some q ≠ p → (h.arena q).freeCnt < blocksPerArena d

variable {h : Heap}

lemma PagesOk.page_inj (ok : PagesOk h) {g g' : Nat × Nat} (hg : g ∈ h.owned) (hg' : g' ∈ h.owned)
    (hp : g.1 = g'.1) : g = g' := by
  by_contra hne
  have hpos := ok.pos g hg
  have hpos' := ok.pos g' hg'
  have hapart := ok.apart g hg g' hg' hne
  omega

lemma PagesOk.desc_lt (ok : PagesOk h) (hp : h.Holds d p) : d < 7 := by
  rcases (ok.header _ hp.1).kind with ⟨d', hd', hlt, -⟩ | ⟨hnone, -⟩
  · rw [hp.2] at hd'
    cases hd'
    exact hlt
  · simp [hp.2] at hnone

lemma PagesOk.blockAt_unique (ok : PagesOk h) {d' p' i' : Nat} (hp : h.Holds d p)
    (hp' : h.Holds d' p') (hi : i < blocksPerArena d) (hi' : i' < blocksPerArena d')
    (heq : blockAt p d i = blockAt p' d' i') : p = p' ∧ d = d' ∧ i = i' := by
  have hdiv := blockAt_div (ok.desc_lt hp) hi p
  rw [heq, blockAt_div (ok.desc_lt hp') hi' p'] at hdiv
  subst hdiv
  have hd := hp.2
  rw [hp'.2] at hd
  cases hd
  exact ⟨rfl, rfl, blockAt_inj (ok.desc_lt hp) heq⟩

/-! ## A block is taken -/

lemma ensure_of {c : Prop} [Decidable c] (hc : c) : h.ensure c = h := if_pos hc

lemma blockToArena_of (hdiv : b / pgSize = p) (hin : InArena (h.arena p) b) :
    h.blockToArena b = (p, h) := by
  unfold blockToArena
  rw [hdiv, ensure_of hin]

lemma PagesOk.inArena (ok : PagesOk h) (hp : h.Holds d p) (hi : i < blocksPerArena d) :
    InArena (h.arena p) (blockAt p d i) :=
  inArena_blockAt (ok.desc_lt hp) hi (ok.pos _ hp.1).1 (ok.header _ hp.1).magic hp.2

lemma Placed.congr (hb : h.Placed b size) (howned : h'.owned = h.owned)
    (hdesc : ∀ q, (h'.arena q).desc = (h.arena q).desc) : h'.Placed b size := by
  unfold Placed at hb ⊢
  simpa only [howned, hdesc] using hb

/-- Taking block `i` or giving it back concerns the block, its list and its arena's counter. -/
lemma Ok.move (ok : Ok h) (hp : h.Holds d p) (hi : i < blocksPerArena d)
    (howned : h'.owned = h.owned) (hmagic : ∀ q, (h'.arena q).magic = (h.arena q).magic)
    (hdesc : ∀ q, (h'.arena q).desc = (h.arena q).desc)
    (hcnt : ∀ q, q ≠ p → (h'.arena q).freeCnt = (h.arena q).freeCnt)
    (hother : ∀ d', d' ≠ d → h'.freeList d' = h.freeList d')
    (haddrs : ∀ b, b ≠ blockAt p d i → (b ∈ h'.addrs ↔ b ∈ h.addrs))
    (hon : ∀ b, b ≠ blockAt p d i → (b ∈ h'.freeList d ↔ b ∈ h.freeList d))
    (hself : blockAt p d i ∈ h'.freeList d ↔ blockAt p d i ∉ h'.addrs)
    (hnodup : (h'.freeList d).Nodup) (hfree : (h'.arena p).freeCnt = (h'.freeIdx d p).card)
    (hlive : h'.addrs.Nodup) (hplaced : ∀ x ∈ h'.live, h.Placed x.1 x.2)
    (hintact : h'.panicked = false) : Ok h' := by
  have hholds : ∀ d p, h'.Holds d p ↔ h.Holds d p := by
    intro d p
    rw [Holds, Holds, howned, hdesc]
  have hheader : ∀ g ∈ h.owned, Header (h'.arena g.1) g.2 := by
    intro g hg
    have hold := ok.header g hg
    refine ⟨by rw [hmagic]; exact hold.magic, ?_⟩
    rw [hdesc]
    by_cases hgp : g.1 = p
    · refine Or.inl ⟨d, hgp ▸ hp.2, ok.desc_lt hp, ?_⟩
      rw [ok.page_inj hg hp.1 hgp]
    · rw [hcnt g.1 hgp]
      exact hold.kind
  have hpages : PagesOk h' := by
    constructor <;> rw [howned]
    · exact ok.pos
    · exact ok.apart
    · exact hheader
  refine ⟨hpages, ?_, ?_, ?_, hlive, fun x hx => (hplaced x hx).congr howned hdesc, hintact⟩
  · intro d'
    by_cases hd : d' = d
    · rwa [hd]
    · rw [hother d' hd]
      exact ok.nodup d'
  · intro d' b
    by_cases hb : b = blockAt p d i
    · by_cases hd : d' = d
      · rw [hd, hb, hself]
        constructor
        · intro hfree
          exact ⟨p, i, (hholds d p).mpr hp, hi, rfl, hfree⟩
        · rintro ⟨_, _, _, _, _, hfree⟩
          exact hfree
      · rw [hother d' hd, ok.onList]
        refine iff_of_false ?_ ?_
        · rintro ⟨q, j, hq, hj, heq, -⟩
          exact hd (ok.blockAt_unique hp hq hi hj (hb ▸ heq)).2.1.symm
        · rintro ⟨q, j, hq, hj, heq, -⟩
          exact hd (ok.blockAt_unique hp ((hholds d' q).mp hq) hi hj (hb ▸ heq)).2.1.symm
    · have hlist : b ∈ h'.freeList d' ↔ b ∈ h.freeList d' := by
        by_cases hd : d' = d
        · rw [hd]
          exact hon b hb
        · rw [hother d' hd]
      rw [hlist, ok.onList]
      simp only [hholds, haddrs b hb]
  · intro d' q hq
    rw [hholds] at hq
    by_cases hqp : q = p
    · subst hqp
      have hd : d' = d := Option.some.inj (hq.2.symm.trans hp.2)
      rwa [hd]
    · rw [hcnt q hqp, ok.cnt d' q hq]
      congr 1
      apply Finset.filter_congr
      intro j hj
      have hne : blockAt q d' j ≠ blockAt p d i := by
        intro heq
        exact hqp (ok.blockAt_unique hq hp (Finset.mem_range.mp hj) hi heq).1
      rw [haddrs _ hne]

lemma setFreeCnt_magic (h : Heap) (p n q : Nat) :
    ((h.setFreeCnt p n).arena q).magic = (h.arena q).magic := by
  unfold setFreeCnt setArena
  by_cases hq : q = p <;> simp [hq]

lemma setFreeCnt_desc (h : Heap) (p n q : Nat) :
    ((h.setFreeCnt p n).arena q).desc = (h.arena q).desc := by
  unfold setFreeCnt setArena
  by_cases hq : q = p <;> simp [hq]

lemma setFreeCnt_freeCnt (h : Heap) (p n : Nat) : ((h.setFreeCnt p n).arena p).freeCnt = n := by
  simp [setFreeCnt, setArena]

lemma setFreeCnt_of_ne (h : Heap) {q : Nat} (n : Nat) (hq : q ≠ p) :
    (h.setFreeCnt p n).arena q = h.arena q :=
  update_of_ne hq _ _

lemma freeIdx_card_le (h : Heap) (d p : Nat) : (h.freeIdx d p).card ≤ blocksPerArena d := by
  calc (h.freeIdx d p).card ≤ (Finset.range (blocksPerArena d)).card := Finset.card_filter_le _ _
    _ = blocksPerArena d := Finset.card_range _

/-- Block `i` of the arena `p` has been taken from the list of `d`. -/
structure Taken (h h' : Heap) (d size p i : Nat) : Prop where
  holds : h.Holds d p
  lt : i < blocksPerArena d
  mem : blockAt p d i ∈ h.freeList d
  ok : Ok h'
  owned : h'.owned = h.owned
  desc : ∀ q, (h'.arena q).desc = (h.arena q).desc
  live : h'.live = (blockAt p d i, size) :: h.live

lemma Ok.takeBlock (ok : Ok h) (hne : h.freeList d ≠ []) (hsize : size ≤ blockSizeOf d) :
    ∃ p i, (h.takeBlock d size).1 = some (blockAt p d i) ∧
      Taken h (h.takeBlock d size).2 d size p i := by
  cases hl : h.freeList d with
  | nil => exact absurd hl hne
  | cons b l =>
    have hb : b ∈ h.freeList d := by
      rw [hl]
      exact mem_cons_self
    rcases (ok.onList d b).mp hb with ⟨p, i, hp, hi, rfl, hfree⟩
    have hd := ok.desc_lt hp
    have hnodup := ok.nodup d
    rw [hl, nodup_cons] at hnodup
    have hout : h.takeBlock d size = (some (blockAt p d i),
        { (h.setFreeList d l).setFreeCnt p
            ((4294967295 + (h.arena p).freeCnt) % 4294967296) with
          live := (blockAt p d i, size) :: h.live }) := by
      have harena : (h.setFreeList d l).blockToArena (blockAt p d i) = (p, h.setFreeList d l) :=
        blockToArena_of (blockAt_div hd hi p) (ok.inArena hp hi)
      unfold Heap.takeBlock
      rw [hl]
      dsimp only
      rw [harena]
      rfl
    have hidx : i ∈ h.freeIdx d p := mem_freeIdx.mpr ⟨hi, hfree⟩
    have hcard := Finset.card_erase_add_one hidx
    have hle := freeIdx_card_le h d p
    have hbound := (desc_spec d hd).2.2.2
    have hcnt := ok.cnt d p hp
    refine ⟨p, i, by rw [hout], hp, hi, hb, ?_, by rw [hout]; rfl, ?_, by rw [hout]⟩
    · rw [hout]
      refine ok.move hp hi rfl (setFreeCnt_magic _ p _) (setFreeCnt_desc _ p _) ?_ ?_ ?_ ?_ ?_
        ?_ ?_ ?_ ?_ ok.intact
      · intro q hq
        exact congrArg Arena.freeCnt (setFreeCnt_of_ne _ _ hq)
      · intro d' hd'
        exact update_of_ne hd' _ _
      · intro b hb
        simp [addrs, hb]
      · intro b hb
        simp [setFreeCnt, setArena, setFreeList, hl, hb]
      · simp [setFreeCnt, setArena, setFreeList, addrs, hnodup.1]
      · simpa [setFreeCnt, setArena, setFreeList] using hnodup.2
      · have herase : Heap.freeIdx { (h.setFreeList d l).setFreeCnt p
              ((4294967295 + (h.arena p).freeCnt) % 4294967296) with
            live := (blockAt p d i, size) :: h.live } d p = (h.freeIdx d p).erase i := by
          ext j
          rw [Finset.mem_erase, mem_freeIdx, mem_freeIdx, addrs, map_cons, mem_cons, not_or]
          constructor
          · rintro ⟨hj, hne', hfree'⟩
            exact ⟨fun hji => hne' (by rw [hji]), hj, hfree'⟩
          · rintro ⟨hji, hj, hfree'⟩
            exact ⟨hj, fun heq => hji (blockAt_inj hd heq), hfree'⟩
        rw [herase]
        refine (setFreeCnt_freeCnt _ _ _).trans ?_
        omega
      · exact nodup_cons.mpr ⟨hfree, ok.liveNodup⟩
      · intro x hx
        rcases mem_cons.mp hx with rfl | hx
        · exact ⟨(p, 1), hp.1, Or.inl ⟨d, i, hp.2, hi, rfl, hsize⟩⟩
        · exact ok.placed x hx
    · rw [hout]
      exact setFreeCnt_desc _ p _

lemma Taken.inUse (ht : Taken h h' d size p i) (ok : Ok h) (hu : h.InUseBut (some p)) :
    h'.InUseBut none := by
  have haddrs : h'.addrs = blockAt p d i :: h.addrs := by rw [addrs, ht.live]; rfl
  intro d' q hq _
  have hold : h.Holds d' q := by
    rwa [Holds, ht.owned, ht.desc] at hq
  rw [ht.ok.cnt d' q hq]
  have hsub : h'.freeIdx d' q ⊆ h.freeIdx d' q := by
    intro j hj
    rw [mem_freeIdx, haddrs] at hj
    exact mem_freeIdx.mpr ⟨hj.1, fun hmem => hj.2 (mem_cons_of_mem _ hmem)⟩
  by_cases hqp : q = p
  · subst hqp
    have hd : d' = d := Option.some.inj (hold.2.symm.trans ht.holds.2)
    subst hd
    have hlt : (h'.freeIdx d' q).card < (Finset.range (blocksPerArena d')).card := by
      apply Finset.card_lt_card
      refine Finset.ssubset_iff_subset_ne.mpr ⟨Finset.filter_subset _ _, fun heq => ?_⟩
      have hmem : i ∈ h'.freeIdx d' q := heq ▸ Finset.mem_range.mpr ht.lt
      rw [mem_freeIdx, haddrs] at hmem
      exact hmem.2 mem_cons_self
    rwa [Finset.card_range] at hlt
  · have hlt := hu d' q hold (fun heq => hqp (Option.some.inj heq))
    rw [ok.cnt d' q hold] at hlt
    exact Nat.lt_of_le_of_lt (Finset.card_le_card hsub) hlt

def dropLive (h : Heap) (b : Nat) : Heap := { h with live := h.live.filter (·.1 ≠ b) }

lemma mem_addrs_dropLive {c : Nat} : c ∈ (h.dropLive b).addrs ↔ c ∈ h.addrs ∧ c ≠ b := by
  simp only [addrs, dropLive, mem_map, mem_filter, decide_eq_true_eq]
  constructor
  · rintro ⟨x, ⟨hx, hne⟩, rfl⟩
    exact ⟨⟨x, hx, rfl⟩, hne⟩
  · rintro ⟨⟨x, hx, rfl⟩, hne⟩
    exact ⟨x, ⟨hx, hne⟩, rfl⟩

lemma Ok.nodup_dropLive (ok : Ok h) (b : Nat) : (h.dropLive b).addrs.Nodup :=
  ok.liveNodup.sublist (filter_sublist.map _)

/-- The block on its list, and its arena's counter one up. -/
def giveBlock (h : Heap) (p d i : Nat) : Heap :=
  ((h.dropLive (blockAt p d i)).setFreeList d (blockAt p d i :: h.freeList d)).setFreeCnt p
    (((h.arena p).freeCnt + 1) % 4294967296)

lemma Ok.giveBlock (ok : Ok h) (hp : h.Holds d p) (hi : i < blocksPerArena d)
    (hlive : blockAt p d i ∈ h.addrs) :
    Ok (h.giveBlock p d i) ∧ ((h.giveBlock p d i).arena p).freeCnt = (h.arena p).freeCnt + 1 := by
  have hd := ok.desc_lt hp
  have hoff : blockAt p d i ∉ h.freeList d := by
    intro hmem
    rcases (ok.onList d _).mp hmem with ⟨_, _, _, _, _, hfree⟩
    exact hfree hlive
  have hlist : (h.giveBlock p d i).freeList d = blockAt p d i :: h.freeList d :=
    update_self _ _ _
  have hidx : i ∉ h.freeIdx d p := fun hmem => (mem_freeIdx.mp hmem).2 hlive
  have hinsert : (h.giveBlock p d i).freeIdx d p = insert i (h.freeIdx d p) := by
    ext j
    have haddr : blockAt p d j ∈ (h.giveBlock p d i).addrs ↔
        blockAt p d j ∈ h.addrs ∧ blockAt p d j ≠ blockAt p d i := mem_addrs_dropLive
    rw [Finset.mem_insert, mem_freeIdx, mem_freeIdx, haddr]
    by_cases hji : j = i
    · simp [hji, hi]
    · have hne : blockAt p d j ≠ blockAt p d i := fun heq => hji (blockAt_inj hd heq)
      simp [hji, hne]
  have hcard := Finset.card_insert_of_notMem hidx
  have hle := freeIdx_card_le (h.giveBlock p d i) d p
  have hbound := (desc_spec d hd).2.2.2
  have hcnt := ok.cnt d p hp
  have hnew : ((h.giveBlock p d i).arena p).freeCnt = (h.arena p).freeCnt + 1 := by
    refine (setFreeCnt_freeCnt _ _ _).trans ?_
    rw [hinsert] at hle
    omega
  refine ⟨?_, hnew⟩
  refine ok.move hp hi rfl (setFreeCnt_magic _ p _) (setFreeCnt_desc _ p _) ?_ ?_ ?_ ?_ ?_ ?_ ?_
    (ok.nodup_dropLive _) ?_ ok.intact
  · intro q hq
    exact congrArg Arena.freeCnt (setFreeCnt_of_ne _ _ hq)
  · intro d' hd'
    exact update_of_ne hd' _ _
  · intro b hb
    exact mem_addrs_dropLive.trans (and_iff_left hb)
  · intro b hb
    rw [hlist, mem_cons]
    exact or_iff_right hb
  · rw [hlist]
    refine iff_of_true mem_cons_self fun hmem => ?_
    exact (mem_addrs_dropLive.mp hmem).2 rfl
  · rw [hlist]
    exact nodup_cons.mpr ⟨hoff, ok.nodup d⟩
  · rw [hnew, hinsert]
    omega
  · intro x hx
    exact ok.placed x (mem_of_mem_filter hx)

end Heap

end Pintos.Threads
