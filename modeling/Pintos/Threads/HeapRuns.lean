import Pintos.Threads.HeapPages

/-!
# The heap over every history

Each call of `malloc`, `realloc` and `free` is put together from the moves of the two
modules before. At its end every arena has a block in use again, which is what lets `free`
find the release of an arena by its counter alone.
-/

namespace Pintos.Threads

open Foundation List

namespace Heap

variable {h : Heap}

structure Sound (h : Heap) : Prop extends Ok h where
  inUse : h.InUseBut none

variable {d p i size : Nat} {g : Nat × Nat}

lemma blockToArena_blockAt (ok : PagesOk h) (hp : h.Holds d p) (hi : i < blocksPerArena d) :
    h.blockToArena (blockAt p d i) = (p, h) :=
  blockToArena_of (blockAt_div (ok.desc_lt hp) hi p) (ok.inArena hp hi)

lemma blockToArena_big (ok : PagesOk h) (hg : g ∈ h.owned) (hnone : (h.arena g.1).desc = none) :
    h.blockToArena (4096 * g.1 + 12) = (g.1, h) := by
  have hpos := ok.pos g hg
  have hdiv : (4096 * g.1 + 12) / pgSize = g.1 := by
    unfold pgSize
    omega
  refine blockToArena_of hdiv ⟨by rw [hdiv]; exact hpos.1, (ok.header g hg).magic, ?_, fun _ => ?_⟩
  · intro d hd
    simp [hnone] at hd
  · unfold pgSize headerSize
    omega

lemma blockSize_blockAt (ok : PagesOk h) (hp : h.Holds d p) (hi : i < blocksPerArena d) :
    h.blockSize (blockAt p d i) = (blockSizeOf d, h) := by
  unfold blockSize
  rw [blockToArena_blockAt ok hp hi]
  dsimp only
  rw [hp.2]

lemma blockSize_big (ok : PagesOk h) (hg : g ∈ h.owned) (hnone : (h.arena g.1).desc = none)
    (hcnt : (h.arena g.1).freeCnt = g.2) :
    h.blockSize (4096 * g.1 + 12) = (4096 * g.2 - 12, h) := by
  have hofs : (4096 * g.1 + 12) % pgSize = 12 := by
    unfold pgSize
    omega
  unfold blockSize
  rw [blockToArena_big ok hg hnone]
  dsimp only
  rw [hnone]
  dsimp only
  rw [hcnt, hofs]
  rfl

lemma Ok.blockSize_snd (ok : Ok h) {b : Nat} (hb : b ∈ h.addrs) : (h.blockSize b).2 = h := by
  rcases mem_map.mp hb with ⟨x, hx, rfl⟩
  rcases (ok.placed x hx).arena_or_big ok.toPagesOk with
    ⟨d, p, i, hp, hi, hxb, -⟩ | ⟨g, hg, hnone, hcnt, hxb, -⟩
  · rw [hxb, blockSize_blockAt ok.toPagesOk hp hi]
  · rw [hxb, blockSize_big ok.toPagesOk hg hnone hcnt]

/-! ## Calls -/

lemma Ok.all_free (ok : Ok h) (hp : h.Holds d p) (hcnt : blocksPerArena d ≤ (h.arena p).freeCnt) :
    ∀ i < blocksPerArena d, blockAt p d i ∉ h.addrs := by
  intro i hi
  rw [ok.cnt d p hp] at hcnt
  have hall : h.freeIdx d p = Finset.range (blocksPerArena d) := by
    apply Finset.eq_of_subset_of_card_le (Finset.filter_subset _ _)
    rwa [Finset.card_range]
  have hmem : i ∈ h.freeIdx d p := hall ▸ Finset.mem_range.mpr hi
  exact (mem_freeIdx.mp hmem).2

/-- `free` gives a block back, and with it the arena if this was its last one in use. -/
lemma Sound.freeBlock (hs : Sound h) (hp : h.Holds d p) (hi : i < blocksPerArena d)
    (hlive : blockAt p d i ∈ h.addrs) :
    Sound ((h.dropLive (blockAt p d i)).freeBlock (blockAt p d i) p d) := by
  rcases hs.toOk.giveBlock hp hi hlive with ⟨ok, -⟩
  have hholds : ∀ d' q, (h.giveBlock p d i).Holds d' q ↔ h.Holds d' q := by
    intro d' q
    rw [Holds, Holds, Heap.giveBlock, setFreeCnt_desc]
    rfl
  have hother : ∀ q, q ≠ p → (h.giveBlock p d i).arena q = h.arena q := by
    intro q hq
    exact setFreeCnt_of_ne _ _ hq
  have hcnt : (((h.arena p).freeCnt + 1) % 4294967296) =
      ((h.giveBlock p d i).arena p).freeCnt := (setFreeCnt_freeCnt _ _ _).symm
  have hout : (h.dropLive (blockAt p d i)).freeBlock (blockAt p d i) p d =
      if blocksPerArena d ≤ ((h.giveBlock p d i).arena p).freeCnt then
        ((range (blocksPerArena d)).foldl (removeBlock p d) ((h.giveBlock p d i).ensure
            (((h.giveBlock p d i).arena p).freeCnt = blocksPerArena d))).pallocFree p 1
      else h.giveBlock p d i := by
    rw [← hcnt]
    rfl
  have hp' := (hholds d p).mpr hp
  rw [hout]
  by_cases hfull : blocksPerArena d ≤ ((h.giveBlock p d i).arena p).freeCnt
  · have hle := freeIdx_card_le (h.giveBlock p d i) d p
    rw [← ok.cnt d p hp'] at hle
    have hall := ok.all_free hp' hfull
    have hloop := foldl_removeBlock hp'.2 (ok.pos _ hp'.1).1 (ok.header _ hp'.1).magic
      (ok.desc_lt hp') (Nat.le_refl _) (ok.nodup d)
      (fun j hj => (ok.onList d _).mpr ⟨p, j, hp', hj, rfl, hall j hj⟩)
    rw [if_pos hfull, ensure_of (Nat.le_antisymm hle hfull), hloop]
    have hrelease := ok.release hp' hall rfl
    refine ⟨hrelease.1, fun d' q hq _ => ?_⟩
    rcases (hrelease.2 d' q).mp hq with ⟨hq, hqp⟩
    have hsame : ((h.giveBlock p d i).arena q).freeCnt < blocksPerArena d' := by
      rw [hother q hqp]
      exact hs.inUse d' q ((hholds d' q).mp hq) (by simp)
    exact hsame
  · rw [if_neg hfull]
    refine ⟨ok, fun d' q hq _ => ?_⟩
    by_cases hqp : q = p
    · subst hqp
      have hd : d' = d := Option.some.inj (hq.2.symm.trans hp'.2)
      rw [hd]
      omega
    · rw [hother q hqp]
      exact hs.inUse d' q ((hholds d' q).mp hq) (by simp)

lemma Sound.free (hs : Sound h) {block : Option Nat} (hlive : h.IsLive block) :
    Sound (h.free block) := by
  cases block with
  | none => exact hs
  | some b =>
    have hb : b ∈ h.addrs := hlive b rfl
    rcases mem_map.mp hb with ⟨x, hx, rfl⟩
    unfold Heap.free
    rcases (hs.placed x hx).arena_or_big hs.toPagesOk with
      ⟨d, p, i, hp, hi, hxb, -⟩ | ⟨g, hg, hnone, hcnt, hxb, -⟩
    · have hstep := hs.freeBlock hp hi (hxb ▸ hb)
      rw [hxb]
      dsimp only
      rw [blockToArena_blockAt hs.toPagesOk hp hi]
      dsimp only
      rwa [hp.2]
    · have hstep := hs.toOk.freeBig hnone
      rw [hxb]
      dsimp only
      rw [blockToArena_big hs.toPagesOk hg hnone]
      dsimp only
      rw [hnone]
      dsimp only
      rw [hcnt]
      refine ⟨hstep.1, fun d q hq _ => ?_⟩
      exact hs.inUse d q ((hstep.2 d q).mp hq) nofun

lemma Sound.takeNew (hs : Sound h) (hd : d < 7) (hf : h.Fresh p 1) (hempty : h.freeList d = [])
    (hsize : size ≤ blockSizeOf d) :
    Sound ((h.newArena d p).takeBlock d size).2 ∧
      ∀ x ∈ h.live, x ∈ ((h.newArena d p).takeBlock d size).2.live := by
  rcases hs.toOk.newArena hd hf hempty with ⟨ok, hlist, hlive, hholds, hother⟩
  have hne : (h.newArena d p).freeList d ≠ [] := by
    rw [hlist]
    intro hnil
    have hlen := congrArg length hnil
    have hspec := desc_spec d hd
    simp only [blocks, length_map, length_range, length_nil] at hlen
    omega
  rcases ok.takeBlock hne hsize with ⟨q, i, -, ht⟩
  -- the block taken is one of the new arena
  have hqp : q = p := by
    have hmem := ht.mem
    rw [hlist, mem_blocks] at hmem
    rcases hmem with ⟨j, hj, heq⟩
    exact (ok.blockAt_unique ht.holds ((hholds d p).mpr (Or.inl ⟨rfl, rfl⟩)) ht.lt hj heq).1
  subst hqp
  refine ⟨⟨ht.ok, ht.inUse ok fun d' q' hq' hne' => ?_⟩, fun x hx => ?_⟩
  · have hq'q : q' ≠ q := fun heq => hne' (congrArg some heq)
    rcases (hholds d' q').mp hq' with ⟨heq, -⟩ | hold
    · exact absurd heq hq'q
    · rw [hother q' hq'q]
      exact hs.inUse d' q' hold (by simp)
  · rw [ht.live, hlive]
    exact mem_cons_of_mem _ hx

lemma Sound.malloc (hs : Sound h) {page : Option Nat} (hsize : size < 2147483648)
    (hf : ∀ p ∈ page, h.Fresh p (pagesFor size)) :
    Sound (h.malloc size page).2 ∧ ∀ x ∈ h.live, x ∈ (h.malloc size page).2.live := by
  have hsame : Sound h ∧ ∀ x ∈ h.live, x ∈ h.live := ⟨hs, fun _ hx => hx⟩
  unfold Heap.malloc
  by_cases hzero : size = 0
  · rwa [if_pos hzero]
  · rw [if_neg hzero]
    cases hd : findDesc size with
    | none =>
      have hpages : pagesFor size = pageCnt size := by
        unfold pagesFor
        rw [hd]
      cases page with
      | none => exact hsame
      | some p =>
        have hfp := hf p rfl
        rw [hpages] at hfp
        have hbig := hs.toOk.mallocBig hsize hfp
        refine ⟨⟨hbig.1, fun d q hq _ => ?_⟩, fun x hx => mem_cons_of_mem _ hx⟩
        have hold := (hbig.2 d q).mp hq
        have harena : (h.mallocBig size p).2.arena q = h.arena q :=
          addPages_arena (hfp.ne (pageCnt_spec hsize).1 hs.toPagesOk hold.1)
        dsimp only
        rw [harena]
        exact hs.inUse d q hold nofun
    | some d =>
      have hpages : pagesFor size = 1 := by
        unfold pagesFor
        rw [hd]
      rcases findDesc_some hd with ⟨hlt, hle⟩
      dsimp only
      by_cases hempty : h.freeList d = []
      · rw [if_pos hempty]
        cases page with
        | none => exact hsame
        | some p =>
          have hfp := hf p rfl
          rw [hpages] at hfp
          exact hs.takeNew hlt hfp hempty hle
      · rw [if_neg hempty]
        rcases hs.toOk.takeBlock hempty hle with ⟨p, i, -, ht⟩
        refine ⟨⟨ht.ok, ht.inUse hs.toOk fun d' q hq _ => hs.inUse d' q hq nofun⟩, ?_⟩
        intro x hx
        rw [ht.live]
        exact mem_cons_of_mem _ hx

lemma Sound.realloc (hs : Sound h) {old : Option Nat} {page : Option Nat}
    (hsize : size < 2147483648) (hold : h.IsLive old) (hf : ∀ p ∈ page, h.Fresh p (pagesFor size)) :
    Sound (h.realloc old size page).2.2 := by
  unfold Heap.realloc
  by_cases hzero : size = 0
  · rw [if_pos hzero]
    exact hs.free hold
  · rw [if_neg hzero]
    rcases hs.malloc hsize hf with ⟨hnew, hkeep⟩
    generalize h.malloc size page = out at hnew hkeep
    rcases out with ⟨new, h'⟩
    cases old with
    | none => exact hnew
    | some b =>
      cases new with
      | none => exact hnew
      | some c =>
        have hb : b ∈ h'.addrs := by
          rcases mem_map.mp (hold b rfl) with ⟨x, hx, rfl⟩
          exact mem_map_of_mem (hkeep x hx)
        dsimp only
        rw [hnew.toOk.blockSize_snd hb]
        refine hnew.free fun b' hb' => ?_
        cases hb'
        exact hb

/-! ## Runs -/

lemma Start.sound (hs : Start h) : Sound h := by
  have haddrs : h.addrs = [] := by rw [addrs, hs.live]; rfl
  have hnone : ∀ d p, ¬ h.Holds d p := by
    rintro d p ⟨hmem, -⟩
    simp [hs.owned] at hmem
  have hpages : PagesOk h := by
    constructor <;> simp [hs.owned]
  refine ⟨⟨hpages, fun d => ?_, fun d b => ?_, fun d p hp => absurd hp (hnone d p), ?_, ?_,
    hs.panicked⟩, fun d p hp => absurd hp (hnone d p)⟩
  · rw [hs.freeList]
    exact nodup_nil
  · rw [hs.freeList]
    refine iff_of_false not_mem_nil ?_
    rintro ⟨p, i, hp, -⟩
    exact hnone d p hp
  · rw [haddrs]
    exact nodup_nil
  · simp [hs.live]

lemma Sound.step {h' : Heap} {op : Op} (hs : Sound h) (hstep : machine.step h op = some h') :
    Sound h' := by
  have hstep : (if op.Allowed h then some (h.call op) else none) = some h' := hstep
  by_cases hop : op.Allowed h
  · rw [if_pos hop] at hstep
    cases hstep
    cases op with
    | malloc size page => exact (hs.malloc hop.1 hop.2).1
    | realloc old size page => exact hs.realloc hop.1 hop.2.1 hop.2.2
    | free block => exact hs.free hop
  · simp [if_neg hop] at hstep

lemma sound_of_reachable (hr : machine.Reachable h) : Sound h :=
  Machine.Reachable.invariant (m := machine) (fun _ hs => Start.sound hs)
    (fun _ _ _ hs hstep => hs.step hstep) hr

lemma Ok.freeCnt_eq_countP (ok : Ok h) (hp : h.Holds d p) :
    (h.arena p).freeCnt = (h.freeList d).countP (· ∈ blocks p d) := by
  have hd := ok.desc_lt hp
  have himage : ((h.freeList d).filter (· ∈ blocks p d)).toFinset =
      (h.freeIdx d p).image (blockAt p d) := by
    ext b
    rw [mem_toFinset, mem_filter, decide_eq_true_eq, Finset.mem_image, mem_blocks]
    constructor
    · rintro ⟨hb, i, hi, rfl⟩
      rcases (ok.onList d _).mp hb with ⟨_, _, _, _, _, hfree⟩
      exact ⟨i, mem_freeIdx.mpr ⟨hi, hfree⟩, rfl⟩
    · rintro ⟨i, hi, rfl⟩
      have hi := mem_freeIdx.mp hi
      exact ⟨(ok.onList d _).mpr ⟨p, i, hp, hi.1, rfl, hi.2⟩, i, hi.1, rfl⟩
  have hcard : ((h.freeIdx d p).image (blockAt p d)).card = (h.freeIdx d p).card :=
    Finset.card_image_of_injective _ fun _ _ heq => blockAt_inj hd heq
  rw [ok.cnt d p hp, ← hcard, ← himage, toFinset_card_of_nodup ((ok.nodup d).filter _),
    countP_eq_length_filter]

/-- The block at `b`, with the space that it has, is on the run `g` after the header. -/
def Within (h : Heap) (g : Nat × Nat) (b : Nat) : Prop :=
  4096 * g.1 + 12 ≤ b ∧ b + (h.blockSize b).1 ≤ 4096 * (g.1 + g.2)

lemma PagesOk.within_arena (ok : PagesOk h) (hp : h.Holds d p) (hi : i < blocksPerArena d) :
    h.Within (p, 1) (blockAt p d i) := by
  have hbounds := blockAt_bounds (ok.desc_lt hp) hi p
  rw [Within, blockSize_blockAt ok hp hi]
  dsimp only
  omega

lemma PagesOk.within_big (ok : PagesOk h) (hg : g ∈ h.owned) (hnone : (h.arena g.1).desc = none)
    (hcnt : (h.arena g.1).freeCnt = g.2) : h.Within g (4096 * g.1 + 12) := by
  have hpos := ok.pos g hg
  rw [Within, blockSize_big ok hg hnone hcnt]
  dsimp only
  omega

lemma Ok.within (ok : Ok h) {x : Nat × Nat} (hx : x ∈ h.live) :
    (∃ g ∈ h.owned, h.Within g x.1) ∧ x.2 ≤ (h.blockSize x.1).1 := by
  rcases (ok.placed x hx).arena_or_big ok.toPagesOk with
    ⟨d, p, i, hp, hi, hxb, hsize⟩ | ⟨g, hg, hnone, hcnt, hxb, hsize⟩
  · rw [hxb]
    refine ⟨⟨(p, 1), hp.1, ok.within_arena hp hi⟩, ?_⟩
    rwa [blockSize_blockAt ok.toPagesOk hp hi]
  · rw [hxb]
    refine ⟨⟨g, hg, ok.within_big hg hnone hcnt⟩, ?_⟩
    rw [blockSize_big ok.toPagesOk hg hnone hcnt]
    dsimp only
    omega

def Apart (h : Heap) (b c : Nat) : Prop :=
  b + (h.blockSize b).1 ≤ c ∨ c + (h.blockSize c).1 ≤ b

lemma PagesOk.apart_of_runs (ok : PagesOk h) {g' : Nat × Nat} (hg : g ∈ h.owned)
    (hg' : g' ∈ h.owned) (hne : g ≠ g') {b c : Nat} (hb : h.Within g b) (hc : h.Within g' c) :
    h.Apart b c := by
  have hapart := ok.apart g hg g' hg' hne
  unfold Within at hb hc
  unfold Apart
  omega

lemma PagesOk.apart_of_arena (ok : PagesOk h) {j : Nat} (hp : h.Holds d p)
    (hi : i < blocksPerArena d) (hj : j < blocksPerArena d) (hne : i ≠ j) :
    h.Apart (blockAt p d i) (blockAt p d j) := by
  rw [Apart, blockSize_blockAt ok hp hi, blockSize_blockAt ok hp hj]
  rcases Nat.lt_or_gt_of_ne hne with hlt | hgt
  · have hmul := Nat.mul_le_mul_right (blockSizeOf d) (Nat.succ_le_of_lt hlt)
    rw [Nat.succ_mul] at hmul
    unfold blockAt
    dsimp only
    omega
  · have hmul := Nat.mul_le_mul_right (blockSizeOf d) (Nat.succ_le_of_lt hgt)
    rw [Nat.succ_mul] at hmul
    unfold blockAt
    dsimp only
    omega

lemma Ok.live_apart (ok : Ok h) {x y : Nat × Nat} (hx : x ∈ h.live) (hy : y ∈ h.live)
    (hne : x.1 ≠ y.1) : h.Apart x.1 y.1 := by
  -- an arena is not the run of a big block
  have hkinds : ∀ {d p : Nat} {g : Nat × Nat}, h.Holds d p → (h.arena g.1).desc = none →
      (p, 1) ≠ g := by
    rintro d p g hp hnone rfl
    simp [hp.2] at hnone
  rcases (ok.placed x hx).arena_or_big ok.toPagesOk with
    ⟨d, p, i, hp, hi, hxb, -⟩ | ⟨g, hg, hnone, hcnt, hxb, -⟩
  · rcases (ok.placed y hy).arena_or_big ok.toPagesOk with
      ⟨d', q, j, hq, hj, hyb, -⟩ | ⟨g', hg', hnone', hcnt', hyb, -⟩
    · by_cases hpq : p = q
      · subst hpq
        have hd : d' = d := Option.some.inj (hq.2.symm.trans hp.2)
        subst hd
        rw [hxb, hyb]
        refine ok.apart_of_arena hp hi hj fun hij => hne ?_
        rw [hxb, hyb, hij]
      · rw [hxb, hyb]
        exact ok.apart_of_runs hp.1 hq.1 (fun heq => hpq (congrArg Prod.fst heq))
          (ok.within_arena hp hi) (ok.within_arena hq hj)
    · rw [hxb, hyb]
      exact ok.apart_of_runs hp.1 hg' (hkinds hp hnone') (ok.within_arena hp hi)
        (ok.within_big hg' hnone' hcnt')
  · rcases (ok.placed y hy).arena_or_big ok.toPagesOk with
      ⟨d', q, j, hq, hj, hyb, -⟩ | ⟨g', hg', hnone', hcnt', hyb, -⟩
    · rw [hxb, hyb]
      exact ok.apart_of_runs hg hq.1 (hkinds hq hnone).symm (ok.within_big hg hnone hcnt)
        (ok.within_arena hq hj)
    · have hrun : g ≠ g' := by
        rintro rfl
        exact hne (hxb.trans hyb.symm)
      rw [hxb, hyb]
      exact ok.apart_of_runs hg hg' hrun (ok.within_big hg hnone hcnt)
        (ok.within_big hg' hnone' hcnt')

/-- In every state a free list has the free blocks of its arenas, each once; counters are right;
live blocks are apart and of the size asked for; and no assertion has failed. -/
theorem reachable_heap (hr : machine.Reachable h) :
    (∀ d, (h.freeList d).Nodup ∧ ∀ b, b ∈ h.freeList d ↔
      ∃ p i, h.Holds d p ∧ i < blocksPerArena d ∧ b = blockAt p d i ∧ b ∉ h.addrs) ∧
    (∀ d p, h.Holds d p →
      (h.arena p).freeCnt = (h.freeList d).countP (· ∈ blocks p d) ∧
      ∃ i < blocksPerArena d, blockAt p d i ∈ h.addrs) ∧
    h.live.Pairwise (fun x y => h.Apart x.1 y.1) ∧
    (∀ x ∈ h.live, (∃ g ∈ h.owned, h.Within g x.1) ∧ x.2 ≤ (h.blockSize x.1).1) ∧
    h.panicked = false := by
  have hs := sound_of_reachable hr
  refine ⟨fun d => ⟨hs.nodup d, hs.onList d⟩, fun d p hp => ⟨hs.freeCnt_eq_countP hp, ?_⟩, ?_,
    fun x hx => hs.within hx, hs.intact⟩
  · by_contra hnone
    have hfull : blocksPerArena d ≤ (h.freeIdx d p).card := by
      have hall : h.freeIdx d p = Finset.range (blocksPerArena d) :=
        Finset.filter_true_of_mem fun i hi hmem => hnone ⟨i, Finset.mem_range.mp hi, hmem⟩
      rw [hall, Finset.card_range]
    have hlt := hs.inUse d p hp nofun
    rw [hs.cnt d p hp] at hlt
    omega
  · have hnodup := hs.liveNodup
    rw [addrs, Nodup, pairwise_map] at hnodup
    exact hnodup.imp_of_mem fun hx hy hne => hs.live_apart hx hy hne

/-- Two small blocks and a big one; the first moves to another arena and the second is freed. -/
def mixedCalls : List Op :=
  [.malloc 600 (some 10), .malloc 700 (some 11), .malloc 5000 (some 20),
    .realloc (some 40972) 100 (some 12), .free (some 41996)]

def emptyHeap : Heap := ⟨fun _ => ⟨0, none, 0⟩, fun _ => [], [], [], false⟩

theorem reachable_heap_mixedCalls :
    ∃ h, machine.run emptyHeap mixedCalls = some h ∧
      h.live = [(49164, 100), (81932, 5000)] ∧ h.owned = [(12, 1), (20, 2)] ∧
      h.live.Pairwise (fun x y => h.Apart x.1 y.1) := by
  have hrun : (machine.run emptyHeap mixedCalls).map (fun h => (h.live, h.owned)) =
      some ([(49164, 100), (81932, 5000)], [(12, 1), (20, 2)]) := by decide +kernel
  rcases Option.map_eq_some_iff.mp hrun with ⟨h, hh, heq⟩
  have hstart : machine.Reachable emptyHeap := .start ⟨fun _ => rfl, rfl, rfl, rfl⟩
  exact ⟨h, hh, congrArg Prod.fst heq, congrArg Prod.snd heq,
    (reachable_heap (Machine.reachable_run hstart hh)).2.2.1⟩

end Heap

end Pintos.Threads
