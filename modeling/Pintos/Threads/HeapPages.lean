import Pintos.Threads.HeapInvariant

/-!
# Pages of the heap

Arenas and big blocks come from the page allocator and go back to it. Each of the four
moves keeps the invariant and says which arenas there are afterwards.
-/

namespace Pintos.Threads

open Function List

namespace Heap

variable {h : Heap}

/-! ## New pages -/

def blocks (p d : Nat) : List Nat := (List.range (blocksPerArena d)).map (blockAt p d)

variable {p d b cnt q size : Nat} {g : Nat × Nat} {a : Arena}

lemma mem_blocks : b ∈ blocks p d ↔ ∃ i < blocksPerArena d, b = blockAt p d i := by
  simp only [blocks, mem_map, mem_range]
  constructor
  · rintro ⟨i, hi, rfl⟩
    exact ⟨i, hi, rfl⟩
  · rintro ⟨i, hi, rfl⟩
    exact ⟨i, hi, rfl⟩

lemma nodup_blocks (hd : d < 7) : (blocks p d).Nodup :=
  nodup_range.map fun _ _ heq => blockAt_inj hd heq

lemma Fresh.ne (hf : h.Fresh p cnt) (hcnt : 0 < cnt) (ok : PagesOk h) (hg : g ∈ h.owned) :
    g.1 ≠ p := by
  have hpos := ok.pos g hg
  have hapart := hf.2 g hg
  omega

def addPages (h : Heap) (p cnt : Nat) (a : Arena) : Heap :=
  { h with owned := (p, cnt) :: h.owned }.setArena p a

lemma addPages_arena (hq : q ≠ p) : (h.addPages p cnt a).arena q = h.arena q :=
  update_of_ne hq _ _

lemma addPages_arena_self (h : Heap) (p cnt : Nat) (a : Arena) : (h.addPages p cnt a).arena p = a :=
  update_self _ _ _

lemma PagesOk.addPages (ok : PagesOk h) (hf : h.Fresh p cnt) (hcnt : 0 < cnt)
    (ha : Header a cnt) : PagesOk (h.addPages p cnt a) := by
  constructor
  · intro g hg
    rcases mem_cons.mp hg with rfl | hg
    · exact ⟨hf.1, hcnt⟩
    · exact ok.pos g hg
  · intro g hg g' hg' hne
    rcases mem_cons.mp hg with rfl | hg
    · rcases mem_cons.mp hg' with rfl | hg'
      · exact absurd rfl hne
      · exact hf.2 g' hg'
    · rcases mem_cons.mp hg' with rfl | hg'
      · exact (hf.2 g hg).symm
      · exact ok.apart g hg g' hg' hne
  · intro g hg
    rcases mem_cons.mp hg with rfl | hg
    · rwa [addPages_arena_self]
    · rw [addPages_arena (hf.ne hcnt ok hg)]
      exact ok.header g hg

lemma holds_addPages (ok : PagesOk h) (hf : h.Fresh p cnt) (hcnt : 0 < cnt) :
    (h.addPages p cnt a).Holds d q ↔ (q = p ∧ cnt = 1 ∧ a.desc = some d) ∨ h.Holds d q := by
  constructor
  · rintro ⟨hmem, hdesc⟩
    rcases mem_cons.mp hmem with heq | hmem
    · cases heq
      rw [addPages_arena_self] at hdesc
      exact Or.inl ⟨rfl, rfl, hdesc⟩
    · rw [addPages_arena (hf.ne hcnt ok hmem)] at hdesc
      exact Or.inr ⟨hmem, hdesc⟩
  · rintro (⟨rfl, rfl, hdesc⟩ | hq)
    · exact ⟨mem_cons_self, by rw [addPages_arena_self]; exact hdesc⟩
    · exact ⟨mem_cons_of_mem _ hq.1, by rw [addPages_arena (hf.ne hcnt ok hq.1)]; exact hq.2⟩

lemma Placed.addPages (ok : PagesOk h) (hf : h.Fresh p cnt) (hcnt : 0 < cnt)
    (hb : h.Placed b size) : (h.addPages p cnt a).Placed b size := by
  rcases hb with ⟨g, hg, hb⟩
  refine ⟨g, mem_cons_of_mem _ hg, ?_⟩
  rwa [addPages_arena (hf.ne hcnt ok hg)]

lemma Placed.arena_or_big (ok : PagesOk h) (hb : h.Placed b size) :
    (∃ d p i, h.Holds d p ∧ i < blocksPerArena d ∧ b = blockAt p d i ∧ size ≤ blockSizeOf d) ∨
    ∃ g ∈ h.owned, (h.arena g.1).desc = none ∧ (h.arena g.1).freeCnt = g.2 ∧
      b = 4096 * g.1 + 12 ∧ 12 + size ≤ 4096 * g.2 := by
  rcases hb with ⟨⟨p, cnt⟩, hg, ⟨d, i, hd, hi, hb, hsize⟩ | ⟨hnone, hb, hsize⟩⟩
  · rcases (ok.header _ hg).kind with ⟨_, _, _, hcnt⟩ | ⟨hnone, -⟩
    · dsimp only at hcnt
      subst hcnt
      exact Or.inl ⟨d, p, i, ⟨hg, hd⟩, hi, hb, hsize⟩
    · simp [hd] at hnone
  · rcases (ok.header _ hg).kind with ⟨d, hd, _⟩ | ⟨_, hcnt⟩
    · simp [hd] at hnone
    · exact Or.inr ⟨_, hg, hnone, hcnt, hb, hsize⟩

lemma Placed.mem_run (ok : PagesOk h) (hb : h.Placed b size) :
    ∃ g ∈ h.owned, g.1 ≤ b / pgSize ∧ b / pgSize < g.1 + g.2 := by
  rcases hb.arena_or_big ok with ⟨d, p, i, hp, hi, rfl, -⟩ | ⟨g, hg, -, -, rfl, -⟩
  · refine ⟨(p, 1), hp.1, ?_⟩
    rw [blockAt_div (ok.desc_lt hp) hi]
    omega
  · have hpos := ok.pos g hg
    refine ⟨g, hg, ?_⟩
    unfold pgSize
    omega

lemma Ok.not_live_of_fresh (ok : Ok h) (hf : h.Fresh p cnt)
    (hb : p ≤ b / pgSize ∧ b / pgSize < p + cnt) : b ∉ h.addrs := by
  intro hmem
  rcases mem_map.mp hmem with ⟨x, hx, rfl⟩
  rcases (ok.placed x hx).mem_run ok.toPagesOk with ⟨g, hg, hrun⟩
  have := hf.2 g hg
  omega

lemma arenaToBlock_of {idx : Nat} (hdesc : (h.arena p).desc = some d) (hp : p ≠ 0)
    (hmagic : (h.arena p).magic = arenaMagic) (hidx : idx < blocksPerArena d) :
    h.arenaToBlock p idx = (blockAt p d idx, h) := by
  unfold arenaToBlock
  rw [hdesc]
  dsimp only
  rw [ensure_of ⟨hp, hmagic, hidx⟩]

lemma setFreeList_setFreeList (h : Heap) (d : Nat) (l l' : List Nat) :
    (h.setFreeList d l).setFreeList d l' = h.setFreeList d l' := by
  unfold setFreeList
  rw [update_idem]

lemma setFreeList_self (h : Heap) (d : Nat) : h.setFreeList d (h.freeList d) = h := by
  unfold setFreeList
  rw [update_eq_self]

lemma setFreeList_freeList (h : Heap) (d : Nat) (l : List Nat) :
    (h.setFreeList d l).freeList d = l :=
  update_self _ _ _

lemma foldl_pushBlock {n : Nat} (hdesc : (h.arena p).desc = some d) (hp : p ≠ 0)
    (hmagic : (h.arena p).magic = arenaMagic) (hn : n ≤ blocksPerArena d) :
    (range n).foldl (pushBlock p d) h =
      h.setFreeList d (h.freeList d ++ (range n).map (blockAt p d)) := by
  induction n with
  | zero =>
    rw [range_zero, map_nil, append_nil, setFreeList_self]
    rfl
  | succ n ih =>
    rw [range_succ, foldl_append, ih (by omega), foldl_cons, foldl_nil, map_append, ← append_assoc]
    generalize h.freeList d ++ (range n).map (blockAt p d) = l
    have hblock : (h.setFreeList d l).arenaToBlock p n = (blockAt p d n, h.setFreeList d l) :=
      arenaToBlock_of hdesc hp hmagic hn
    rw [pushBlock, hblock]
    dsimp only
    rw [setFreeList_freeList, setFreeList_setFreeList]
    rfl

def newHeader (d : Nat) : Arena := ⟨arenaMagic, some d, blocksPerArena d⟩

lemma newArena_eq (hf : h.Fresh p 1) (hempty : h.freeList d = []) :
    h.newArena d p = (h.addPages p 1 (newHeader d)).setFreeList d (blocks p d) := by
  have hself := addPages_arena_self h p 1 (newHeader d)
  have hfold := foldl_pushBlock (h := h.addPages p 1 (newHeader d))
    (by rw [hself]; rfl) hf.1 (by rw [hself]; rfl) (Nat.le_refl (blocksPerArena d))
  have hlist : (h.addPages p 1 (newHeader d)).freeList d = [] := hempty
  rwa [hlist, nil_append] at hfold

lemma Ok.newArena (ok : Ok h) (hd : d < 7) (hf : h.Fresh p 1) (hempty : h.freeList d = []) :
    Ok (h.newArena d p) ∧ (h.newArena d p).freeList d = blocks p d ∧
      (h.newArena d p).live = h.live ∧
      (∀ d' q, (h.newArena d p).Holds d' q ↔ (q = p ∧ d' = d) ∨ h.Holds d' q) ∧
      ∀ q, q ≠ p → (h.newArena d p).arena q = h.arena q := by
  have hout := newArena_eq hf hempty
  have hpages : PagesOk (h.addPages p 1 (newHeader d)) :=
    ok.toPagesOk.addPages hf Nat.one_pos ⟨rfl, Or.inl ⟨d, rfl, hd, rfl⟩⟩
  have hholds : ∀ d' q, (h.newArena d p).Holds d' q ↔ (q = p ∧ d' = d) ∨ h.Holds d' q := by
    intro d' q
    rw [hout]
    refine (holds_addPages ok.toPagesOk hf Nat.one_pos).trans ?_
    simp [newHeader, eq_comm]
  have hnotLive : ∀ i, i < blocksPerArena d → blockAt p d i ∉ h.addrs := by
    intro i hi
    refine ok.not_live_of_fresh hf ?_
    rw [blockAt_div hd hi p]
    omega
  have hlist : (h.newArena d p).freeList d = blocks p d := by
    rw [hout]
    exact setFreeList_freeList _ _ _
  have hother : ∀ d', d' ≠ d → (h.newArena d p).freeList d' = h.freeList d' := by
    intro d' hd'
    rw [hout]
    exact update_of_ne hd' _ _
  have hlive : (h.newArena d p).live = h.live := by rw [hout]; rfl
  have haddrs : (h.newArena d p).addrs = h.addrs := congrArg (map Prod.fst) hlive
  have harena : (h.newArena d p).arena = (h.addPages p 1 (newHeader d)).arena := by rw [hout]; rfl
  refine ⟨⟨?_, fun d' => ?_, fun d' b => ?_, fun d' q hq => ?_, ?_, fun x hx => ?_, ?_⟩, hlist,
    hlive, hholds, fun q hq => by rw [harena]; exact addPages_arena hq⟩
  · rw [hout]
    exact ⟨hpages.pos, hpages.apart, hpages.header⟩
  · by_cases hd' : d' = d
    · rw [hd', hlist]
      exact nodup_blocks hd
    · rw [hother d' hd']
      exact ok.nodup d'
  · simp only [hholds, haddrs]
    by_cases hd' : d' = d
    · subst hd'
      rw [hlist, mem_blocks]
      constructor
      · rintro ⟨i, hi, rfl⟩
        exact ⟨p, i, Or.inl ⟨rfl, rfl⟩, hi, rfl, hnotLive i hi⟩
      · rintro ⟨q, i, ⟨rfl, -⟩ | hq, hi, rfl, hfree⟩
        · exact ⟨i, hi, rfl⟩
        · have hmem := (ok.onList d' _).mpr ⟨q, i, hq, hi, rfl, hfree⟩
          simp [hempty] at hmem
    · rw [hother d' hd', ok.onList]
      simp [hd']
  · rw [hholds] at hq
    have hidx : (h.newArena d p).freeIdx d' q = h.freeIdx d' q := by
      unfold freeIdx
      rw [haddrs]
    rw [hidx, harena]
    rcases hq with ⟨rfl, rfl⟩ | hq
    · rw [addPages_arena_self]
      have hall : h.freeIdx d' q = Finset.range (blocksPerArena d') :=
        Finset.filter_true_of_mem fun i hi => hnotLive i (Finset.mem_range.mp hi)
      rw [hall, Finset.card_range]
      rfl
    · rw [addPages_arena (hf.ne Nat.one_pos ok.toPagesOk hq.1)]
      exact ok.cnt d' q hq
  · rw [haddrs]
    exact ok.liveNodup
  · rw [hlive] at hx
    have hold : (h.addPages p 1 (newHeader d)).Placed x.1 x.2 :=
      (ok.placed x hx).addPages ok.toPagesOk hf Nat.one_pos
    exact hold.congr (by rw [hout]; rfl) fun q => by rw [harena]
  · rw [hout]
    exact ok.intact

lemma pageCnt_spec (hsize : size < 2147483648) :
    0 < pageCnt size ∧ 12 + size ≤ 4096 * pageCnt size := by
  unfold pageCnt headerSize pgSize
  omega

lemma blockAt_ne_big {i : Nat} (hd : d < 7) (hi : i < blocksPerArena d) (hqp : q ≠ p) :
    blockAt q d i ≠ 4096 * p + 12 := by
  intro heq
  have hdiv := blockAt_div hd hi q
  rw [heq] at hdiv
  unfold pgSize at hdiv
  omega

lemma Ok.sameArenas (ok : Ok h) (h' : Heap) (hlist : h'.freeList = h.freeList)
    (hholds : ∀ d q, h'.Holds d q ↔ h.Holds d q)
    (hcnt : ∀ d q, h.Holds d q → (h'.arena q).freeCnt = (h.arena q).freeCnt)
    (haddrs : ∀ d q i, h.Holds d q → i < blocksPerArena d →
      (blockAt q d i ∈ h'.addrs ↔ blockAt q d i ∈ h.addrs)) :
    (∀ d b, b ∈ h'.freeList d ↔
      ∃ p i, h'.Holds d p ∧ i < blocksPerArena d ∧ b = blockAt p d i ∧ b ∉ h'.addrs) ∧
    ∀ d p, h'.Holds d p → (h'.arena p).freeCnt = (h'.freeIdx d p).card := by
  refine ⟨fun d b => ?_, fun d q hq => ?_⟩
  · rw [hlist, ok.onList d b]
    constructor
    · rintro ⟨q, i, hq, hi, rfl, hfree⟩
      exact ⟨q, i, (hholds d q).mpr hq, hi, rfl, mt (haddrs d q i hq hi).mp hfree⟩
    · rintro ⟨q, i, hq, hi, rfl, hfree⟩
      have hq := (hholds d q).mp hq
      exact ⟨q, i, hq, hi, rfl, mt (haddrs d q i hq hi).mpr hfree⟩
  · rw [hholds] at hq
    rw [hcnt d q hq, ok.cnt d q hq]
    congr 1
    apply Finset.filter_congr
    intro i hi
    rw [haddrs d q i hq (Finset.mem_range.mp hi)]

lemma Ok.mallocBig (ok : Ok h) (hsize : size < 2147483648) (hf : h.Fresh p (pageCnt size)) :
    Ok (h.mallocBig size p).2 ∧ ∀ d q, (h.mallocBig size p).2.Holds d q ↔ h.Holds d q := by
  have hcnt := pageCnt_spec hsize
  have hpages : PagesOk (h.addPages p (pageCnt size) ⟨arenaMagic, none, pageCnt size⟩) :=
    ok.toPagesOk.addPages hf hcnt.1 ⟨rfl, Or.inr ⟨rfl, rfl⟩⟩
  have hholds : ∀ d q, (h.mallocBig size p).2.Holds d q ↔ h.Holds d q := by
    intro d q
    refine (holds_addPages ok.toPagesOk hf hcnt.1).trans ?_
    simp
  have hself : pgSize * p + headerSize ∉ h.addrs := by
    refine ok.not_live_of_fresh hf ?_
    unfold pgSize headerSize
    omega
  have hsame := ok.sameArenas (h.mallocBig size p).2 rfl hholds
    (fun d q hq => congrArg Arena.freeCnt (addPages_arena (hf.ne hcnt.1 ok.toPagesOk hq.1)))
    (fun d q i hq hi => mem_cons.trans (or_iff_right
      (blockAt_ne_big (ok.desc_lt hq) hi (hf.ne hcnt.1 ok.toPagesOk hq.1))))
  refine ⟨⟨⟨hpages.pos, hpages.apart, hpages.header⟩, ok.nodup, hsame.1, hsame.2,
    nodup_cons.mpr ⟨hself, ok.liveNodup⟩, fun x hx => ?_, ok.intact⟩, hholds⟩
  rcases mem_cons.mp hx with rfl | hx
  · refine ⟨(p, pageCnt size), mem_cons_self, Or.inr ⟨?_, rfl, hcnt.2⟩⟩
    exact congrArg Arena.desc (addPages_arena_self h p _ _)
  · exact Placed.congr ((ok.placed x hx).addPages ok.toPagesOk hf hcnt.1) rfl fun _ => rfl

lemma foldl_removeBlock {n : Nat} (hdesc : (h.arena p).desc = some d) (hp : p ≠ 0)
    (hmagic : (h.arena p).magic = arenaMagic) (hd : d < 7) (hn : n ≤ blocksPerArena d)
    (hnodup : (h.freeList d).Nodup) (hmem : ∀ i < blocksPerArena d, blockAt p d i ∈ h.freeList d) :
    (range n).foldl (removeBlock p d) h =
      h.setFreeList d ((h.freeList d).diff ((range n).map (blockAt p d))) := by
  induction n with
  | zero =>
    rw [range_zero, map_nil, diff_nil, setFreeList_self]
    rfl
  | succ n ih =>
    have hleft : blockAt p d n ∈ (h.freeList d).diff ((range n).map (blockAt p d)) := by
      refine hnodup.mem_sdiff_iff.mpr ⟨hmem n (by omega), fun hbefore => ?_⟩
      rcases mem_map.mp hbefore with ⟨j, hj, heq⟩
      have := blockAt_inj hd heq
      exact absurd (mem_range.mp hj) (by omega)
    rw [range_succ, foldl_append, ih (by omega), foldl_cons, foldl_nil, map_append, diff_append]
    generalize (h.freeList d).diff ((range n).map (blockAt p d)) = l at hleft
    have hblock : (h.setFreeList d l).arenaToBlock p n = (blockAt p d n, h.setFreeList d l) :=
      arenaToBlock_of hdesc hp hmagic hn
    rw [removeBlock, hblock]
    dsimp only
    rw [setFreeList_freeList, ensure_of hleft, setFreeList_freeList, setFreeList_setFreeList,
      map_singleton, diff_cons, diff_nil]

lemma mem_pallocFree : g ∈ (h.pallocFree p cnt).owned ↔ g ∈ h.owned ∧ g ≠ (p, cnt) := by
  simp [pallocFree]

lemma PagesOk.pallocFree (ok : PagesOk h) (p cnt : Nat) : PagesOk (h.pallocFree p cnt) where
  pos g hg := ok.pos g (mem_pallocFree.mp hg).1
  apart g hg g' hg' := ok.apart g (mem_pallocFree.mp hg).1 g' (mem_pallocFree.mp hg').1
  header g hg := ok.header g (mem_pallocFree.mp hg).1

lemma Ok.release (ok : Ok h) (hp : h.Holds d p)
    (hall : ∀ i < blocksPerArena d, blockAt p d i ∉ h.addrs) {h' : Heap}
    (hout : h' = (h.setFreeList d ((h.freeList d).diff (blocks p d))).pallocFree p 1) :
    Ok h' ∧ ∀ d' q, h'.Holds d' q ↔ h.Holds d' q ∧ q ≠ p := by
  have hholds : ∀ d' q, h'.Holds d' q ↔ h.Holds d' q ∧ q ≠ p := by
    intro d' q
    rw [hout, Holds, mem_pallocFree]
    constructor
    · rintro ⟨⟨hmem, hne⟩, hdesc⟩
      exact ⟨⟨hmem, hdesc⟩, fun hqp => hne (by rw [hqp])⟩
    · rintro ⟨⟨hmem, hdesc⟩, hqp⟩
      exact ⟨⟨hmem, fun heq => hqp (congrArg Prod.fst heq)⟩, hdesc⟩
  have hlist : h'.freeList d = (h.freeList d).diff (blocks p d) := by
    rw [hout]
    exact setFreeList_freeList _ _ _
  have hother : ∀ d', d' ≠ d → h'.freeList d' = h.freeList d' := by
    intro d' hd'
    rw [hout]
    exact update_of_ne hd' _ _
  have harena : h'.arena = h.arena := by rw [hout]; rfl
  have hlive : h'.live = h.live := by rw [hout]; rfl
  have haddrs : h'.addrs = h.addrs := congrArg (map Prod.fst) hlive
  have hmem : ∀ g, g ∈ h'.owned ↔ g ∈ h.owned ∧ g ≠ (p, 1) := by
    intro g
    rw [hout]
    exact mem_pallocFree
  have hpages : PagesOk h' := by
    rw [hout]
    have hold := ok.toPagesOk.pallocFree p 1
    exact ⟨hold.pos, hold.apart, hold.header⟩
  refine ⟨⟨hpages, fun d' => ?_, fun d' b => ?_, fun d' q hq => ?_, ?_, fun x hx => ?_, ?_⟩, hholds⟩
  · by_cases hd' : d' = d
    · rw [hd', hlist]
      exact (ok.nodup d).diff
    · rw [hother d' hd']
      exact ok.nodup d'
  · simp only [hholds, haddrs]
    by_cases hd' : d' = d
    · subst hd'
      rw [hlist, (ok.nodup d').mem_sdiff_iff, ok.onList, mem_blocks]
      constructor
      · rintro ⟨⟨q, i, hq, hi, rfl, hfree⟩, hnot⟩
        refine ⟨q, i, ⟨hq, fun hqp => hnot ⟨i, hi, by rw [hqp]⟩⟩, hi, rfl, hfree⟩
      · rintro ⟨q, i, ⟨hq, hqp⟩, hi, rfl, hfree⟩
        refine ⟨⟨q, i, hq, hi, rfl, hfree⟩, ?_⟩
        rintro ⟨j, hj, heq⟩
        exact hqp (ok.blockAt_unique hq hp hi hj heq).1
    · rw [hother d' hd', ok.onList]
      constructor
      · rintro ⟨q, i, hq, hi, rfl, hfree⟩
        refine ⟨q, i, ⟨hq, fun hqp => hd' ?_⟩, hi, rfl, hfree⟩
        exact Option.some.inj (hq.2.symm.trans (hqp ▸ hp.2))
      · rintro ⟨q, i, ⟨hq, -⟩, hi, rfl, hfree⟩
        exact ⟨q, i, hq, hi, rfl, hfree⟩
  · have hidx : h'.freeIdx d' q = h.freeIdx d' q := by
      unfold freeIdx
      rw [haddrs]
    rw [hidx, harena]
    exact ok.cnt d' q ((hholds d' q).mp hq).1
  · rw [haddrs]
    exact ok.liveNodup
  · rw [hlive] at hx
    rcases ok.placed x hx with ⟨g, hg, hplaced⟩
    refine ⟨g, (hmem g).mpr ⟨hg, fun heq => ?_⟩, by rw [harena]; exact hplaced⟩
    subst heq
    rcases hplaced with ⟨d', i, hd', hi, hxi, -⟩ | ⟨hnone, -⟩
    · have hd : d' = d := Option.some.inj (hd'.symm.trans hp.2)
      subst hd
      exact hall i hi (hxi ▸ mem_map_of_mem hx)
    · simp [hp.2] at hnone
  · rw [hout]
    exact ok.intact

lemma Ok.freeBig (ok : Ok h) (hnone : (h.arena g.1).desc = none) :
    Ok ((h.dropLive (4096 * g.1 + 12)).pallocFree g.1 g.2) ∧
      ∀ d q, ((h.dropLive (4096 * g.1 + 12)).pallocFree g.1 g.2).Holds d q ↔ h.Holds d q := by
  have hholds : ∀ d q, ((h.dropLive (4096 * g.1 + 12)).pallocFree g.1 g.2).Holds d q ↔
      h.Holds d q := by
    intro d q
    constructor
    · intro hq
      exact ⟨(mem_pallocFree.mp hq.1).1, hq.2⟩
    · intro hq
      refine ⟨mem_pallocFree.mpr ⟨hq.1, fun heq => ?_⟩, hq.2⟩
      have hqg : q = g.1 := congrArg Prod.fst heq
      have hdesc := hq.2
      simp [hqg, hnone] at hdesc
  -- the run of a big block is not an arena
  have hrun : ∀ d q, h.Holds d q → q ≠ g.1 := by
    rintro d q hq rfl
    simp [hq.2] at hnone
  have hpages := ok.toPagesOk.pallocFree g.1 g.2
  have hsame := ok.sameArenas ((h.dropLive (4096 * g.1 + 12)).pallocFree g.1 g.2) rfl hholds
    (fun d q hq => rfl) (fun d q i hq hi => mem_addrs_dropLive.trans (and_iff_left
      (blockAt_ne_big (ok.desc_lt hq) hi (hrun d q hq))))
  refine ⟨⟨⟨hpages.pos, hpages.apart, hpages.header⟩, ok.nodup, hsame.1, hsame.2,
    ok.nodup_dropLive _, fun x hx => ?_, ok.intact⟩, hholds⟩
  have hx := mem_filter.mp hx
  rcases ok.placed x hx.1 with ⟨g', hg', hplaced⟩
  refine ⟨g', mem_pallocFree.mpr ⟨hg', fun heq => ?_⟩, hplaced⟩
  subst heq
  rcases hplaced with ⟨d', i, hd', -⟩ | ⟨-, hxb, -⟩
  · rw [hnone] at hd'
    cases hd'
  · simp [hxb] at hx

end Heap

end Pintos.Threads
