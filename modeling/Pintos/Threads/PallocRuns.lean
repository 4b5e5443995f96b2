import Pintos.Threads.Palloc
import Mathlib.Data.List.Pairwise

/-!
# Runs of the page allocator

The memory of the two pools and of their bitmaps does not overlap and lies between 1 MB and
the end of memory. The groups handed out and not freed are disjoint, each in the pool it
was asked from, and are exactly the pages marked in the bitmaps.
-/

namespace Pintos.Threads

open Foundation Lib List Option

namespace Palloc

/-- The pages of the bitmaps and of the pools, as ranges of addresses. -/
def regions (s : Palloc) : List (Nat × Nat) :=
  [(s.kernel.mapAddr, s.kernel.base),
    (s.kernel.base, s.kernel.base + 4096 * s.kernel.usedMap.bitCnt),
    (s.user.mapAddr, s.user.base),
    (s.user.base, s.user.base + 4096 * s.user.usedMap.bitCnt)]

/-- The pools lie one behind the other, each behind the pages of its bitmap. -/
structure Layout (ramPages : Nat) (s : Palloc) : Prop where
  ram : ramPages < 262144
  kernelMap : s.kernel.mapAddr = 0xc0100000
  userMap : s.user.mapAddr = s.kernel.base + 4096 * s.kernel.usedMap.bitCnt
  userEnd : s.user.base + 4096 * s.user.usedMap.bitCnt = 0xc0000000 + 4096 * ramPages
  buf : ∀ user, (s.pool user).mapAddr + bitmapBufSize (s.pool user).usedMap.bitCnt ≤
    (s.pool user).base
  aligned : ∀ user, (s.pool user).base % 4096 = 0

lemma initPool_spec {bits : Nat → BitVec 32} {base pageCnt : Nat} {p : Pool}
    (h : initPool bits base pageCnt = some p) (hbase : base % 4096 = 0)
    (hend : base + 4096 * pageCnt < 4294967296) :
    p.mapAddr = base ∧ p.base + 4096 * p.usedMap.bitCnt = base + 4096 * pageCnt ∧
      p.mapAddr + bitmapBufSize p.usedMap.bitCnt ≤ p.base ∧ p.base % 4096 = 0 ∧
      ∀ i < p.usedMap.bitCnt, bitmapTest p.usedMap i = false := by
  unfold initPool at h
  obtain ⟨bm, hbm⟩ : ∃ bm, bm = (bitmapBufSize pageCnt + 4096 - 1) / 4096 := ⟨_, rfl⟩
  simp only [← hbm] at h
  split at h
  case isTrue => cases h
  case isFalse hle =>
      have hwrap : (base + bm * 4096) % 4294967296 = base + bm * 4096 :=
        Nat.mod_eq_of_lt (by omega)
      rw [map_eq_some_iff] at h
      obtain ⟨map, hmap, rfl⟩ := h
      unfold bitmapCreateInBuf at hmap
      split at hmap
      case isFalse => cases hmap
      case isTrue hfit =>
          cases hmap
          have hcnt : (bitmapSetAll ⟨pageCnt - bm, bits⟩ false).bitCnt = pageCnt - bm := by
            simp [bitmapSetAll]
          simp only [hcnt, hwrap]
          refine ⟨trivial, by omega, by omega, by omega, fun i hi => ?_⟩
          rw [bitmapSetAll, bitmapTest_setMultiple, if_pos ⟨Nat.zero_le i, by simpa using hi⟩]

variable {ramPages : Nat} {s : Palloc} {user : Bool}

lemma freePages_eq (hlo : 256 ≤ ramPages) (hhi : ramPages < 262144) :
    ((ptrDiff (0xc0000000 + ramPages * 4096) 0xc0100000).tdiv 4096 % 4294967296).toNat =
      ramPages - 256 := by
  have hdiff : ((0xc0000000 + ramPages * 4096 : Nat) : Int) - (0xc0100000 : Nat) =
      ((ramPages - 256) * 4096 : Nat) := by omega
  have hbmod : ptrDiff (0xc0000000 + ramPages * 4096) 0xc0100000 =
      ((ramPages - 256) * 4096 : Nat) := by
    rw [ptrDiff, hdiff, Int.bmod_def]
    omega
  rw [hbmod, Int.tdiv_eq_ediv_of_nonneg (Int.natCast_nonneg _)]
  omega

lemma pallocInit_spec {limit : Nat} {bits : Bool → Nat → BitVec 32}
    (h : pallocInit ramPages limit bits = some s) (hlo : 256 ≤ ramPages) (hhi : ramPages < 262144) :
    Layout ramPages s ∧ s.live = [] ∧ s.panicked = false ∧
      ∀ user, ∀ i < (s.pool user).usedMap.bitCnt, bitmapTest (s.pool user).usedMap i = false := by
  have hstart : ptov (1024 * 1024) = some 0xc0100000 := by
    rw [ptov, if_pos (by omega)]
  have hend : ptov (ramPages * 4096 % 4294967296) = some (0xc0000000 + ramPages * 4096) := by
    have hwrap : ramPages * 4096 % 4294967296 = ramPages * 4096 := Nat.mod_eq_of_lt (by omega)
    rw [hwrap, ptov, if_pos (by omega), Nat.mod_eq_of_lt (by omega)]
  unfold pallocInit at h
  simp only [hstart, hend, bind_some, freePages_eq hlo hhi] at h
  obtain ⟨user, huser⟩ : ∃ user, user =
      if (ramPages - 256) / 2 > limit then limit else (ramPages - 256) / 2 := ⟨_, rfl⟩
  have hle : user ≤ ramPages - 256 := by
    rw [huser]
    split <;> omega
  rw [← huser] at h
  obtain ⟨kernel, hkernel, h⟩ := bind_eq_some_iff.mp h
  obtain ⟨userPool, huserPool, rfl⟩ := map_eq_some_iff.mp h
  have hbase : (0xc0100000 + (ramPages - 256 - user) * 4096) % 4294967296 =
      0xc0100000 + (ramPages - 256 - user) * 4096 := Nat.mod_eq_of_lt (by omega)
  rw [hbase] at huserPool
  obtain ⟨k1, k2, k3, k4, k5⟩ := initPool_spec hkernel (by decide) (by omega)
  obtain ⟨u1, u2, u3, u4, u5⟩ := initPool_spec huserPool (by omega) (by omega)
  refine ⟨⟨hhi, k1, ?_, ?_, ?_, ?_⟩, rfl, rfl, ?_⟩
  · simp only
    omega
  · simp only
    omega
  · rintro (_ | _)
    · exact k3
    · exact u3
  · rintro (_ | _)
    · exact k4
    · exact u4
  · rintro (_ | _)
    · exact k5
    · exact u5

namespace Layout

variable {ramPages : Nat} {s : Palloc}

lemma separate (hl : Layout ramPages s) :
    s.kernel.base + 4096 * s.kernel.usedMap.bitCnt ≤ s.user.base := by
  have huser : s.user.mapAddr + _ ≤ s.user.base := hl.buf true
  have hmap := hl.userMap
  omega

lemma bounds (hl : Layout ramPages s) (user : Bool) :
    0xc0100000 ≤ (s.pool user).base ∧
      (s.pool user).base + 4096 * (s.pool user).usedMap.bitCnt < 4294967296 := by
  have hkernel : s.kernel.mapAddr + _ ≤ s.kernel.base := hl.buf false
  have hmap := hl.kernelMap
  have hend := hl.userEnd
  have hsep := hl.separate
  have hram := hl.ram
  cases user with
  | false =>
    change 0xc0100000 ≤ s.kernel.base ∧ s.kernel.base + 4096 * s.kernel.usedMap.bitCnt < _
    omega
  | true =>
    change 0xc0100000 ≤ s.user.base ∧ s.user.base + 4096 * s.user.usedMap.bitCnt < _
    omega

end Layout

section

variable (s : Palloc)

lemma setMap_pool (user user' : Bool) (map : Bitmap) :
    (s.setMap user map).pool user' =
      if user' = user then { s.pool user with usedMap := map } else s.pool user' := by
  cases user <;> cases user' <;> rfl

@[simp] lemma setMap_base (user user' : Bool) (map : Bitmap) :
    ((s.setMap user map).pool user').base = (s.pool user').base := by
  cases user <;> cases user' <;> rfl

@[simp] lemma setMap_panicked (user : Bool) (map : Bitmap) :
    (s.setMap user map).panicked = s.panicked := by
  cases user <;> rfl

lemma setMap_self (user : Bool) : s.setMap user (s.pool user).usedMap = s := by
  cases user <;> rfl

lemma setMap_usedMap (user : Bool) (map : Bitmap) :
    ((s.setMap user map).pool user).usedMap = map := by
  cases user <;> rfl

lemma setMap_usedMap_of_ne {user' : Bool} (hne : user' ≠ user) (map : Bitmap) :
    ((s.setMap user map).pool user').usedMap = (s.pool user').usedMap := by
  rw [setMap_pool, if_neg hne]

lemma setMap_bitCnt {map : Bitmap}
    (hcnt : map.bitCnt = (s.pool user).usedMap.bitCnt) (user' : Bool) :
    ((s.setMap user map).pool user').usedMap.bitCnt = (s.pool user').usedMap.bitCnt := by
  by_cases hu : user' = user
  · rw [hu, setMap_usedMap, hcnt]
  · rw [setMap_usedMap_of_ne s hu]

end

lemma Layout.setMap (hl : Layout ramPages s) {map : Bitmap}
    (hcnt : map.bitCnt = (s.pool user).usedMap.bitCnt) : Layout ramPages (s.setMap user map) := by
  obtain ⟨hram, hk, hu, he, hbuf, hal⟩ := hl
  cases user with
  | false =>
    have hcnt' : map.bitCnt = s.kernel.usedMap.bitCnt := hcnt
    refine ⟨hram, hk, ?_, he, ?_, ?_⟩
    · change s.user.mapAddr = s.kernel.base + 4096 * map.bitCnt
      rw [hcnt', hu]
    · rintro (_ | _)
      · change s.kernel.mapAddr + bitmapBufSize map.bitCnt ≤ s.kernel.base
        rw [hcnt']
        exact hbuf false
      · exact hbuf true
    · rintro (_ | _)
      · exact hal false
      · exact hal true
  | true =>
    have hcnt' : map.bitCnt = s.user.usedMap.bitCnt := hcnt
    refine ⟨hram, hk, hu, ?_, ?_, ?_⟩
    · change s.user.base + 4096 * map.bitCnt = _
      rw [hcnt', he]
    · rintro (_ | _)
      · exact hbuf false
      · change s.user.mapAddr + bitmapBufSize map.bitCnt ≤ s.user.base
        rw [hcnt']
        exact hbuf true
    · rintro (_ | _)
      · exact hal false
      · exact hal true

lemma Layout.setLive (hl : Layout ramPages s) (live : List PageGroup) :
    Layout ramPages { s with live := live } := by
  refine ⟨hl.ram, hl.kernelMap, hl.userMap, hl.userEnd, ?_, ?_⟩
  · rintro (_ | _)
    · exact hl.buf false
    · exact hl.buf true
  · rintro (_ | _)
    · exact hl.aligned false
    · exact hl.aligned true

/-! ## The groups -/

end Palloc

def PageGroup.Has (g : PageGroup) (a : Nat) : Prop := g.pages ≤ a ∧ a < g.pages + 4096 * g.cnt

namespace Palloc

/-- The groups that are handed out are disjoint pages of their pools, and the marked ones. -/
structure Sound (ramPages : Nat) (s : Palloc) : Prop where
  layout : Layout ramPages s
  inside : ∀ g ∈ s.live, 0 < g.cnt ∧ ∃ i, g.pages = (s.pool g.user).base + 4096 * i ∧
    i + g.cnt ≤ (s.pool g.user).usedMap.bitCnt
  disjoint : s.live.Pairwise fun g g' => ∀ a, ¬ (g.Has a ∧ g'.Has a)
  bits : ∀ user, ∀ i < (s.pool user).usedMap.bitCnt,
    (bitmapTest (s.pool user).usedMap i = true ↔
      ∃ g ∈ s.live, g.user = user ∧ g.Has ((s.pool user).base + 4096 * i))
  ok : s.panicked = false

namespace Sound

variable {ramPages : Nat} {s : Palloc} {g : PageGroup}

lemma has_iff {base k i : Nat} (hg : g.pages = base + 4096 * k) :
    g.Has (base + 4096 * i) ↔ k ≤ i ∧ i < k + g.cnt := by
  unfold PageGroup.Has
  omega

section

variable (hs : Sound ramPages s)
include hs

lemma nodup : s.live.Nodup := by
  refine Pairwise.imp_of_mem ?_ hs.disjoint
  rintro g g' hg - hdisj rfl
  have hpos := (hs.inside g hg).1
  exact hdisj g.pages ⟨⟨Nat.le_refl _, by omega⟩, ⟨Nat.le_refl _, by omega⟩⟩

/-- A call for pages either takes the first run that is long enough, or there is none. -/
lemma get_cases (flags : Nat) {cnt : Nat} (hcnt : cnt ≠ 0) :
    (∃ idx, idx + cnt ≤ (s.pool (fromUser flags)).usedMap.bitCnt ∧
      (∀ j, idx ≤ j → j < idx + cnt → bitmapTest (s.pool (fromUser flags)).usedMap j = false) ∧
      s.pallocGetMultiple flags cnt = (.pages ((s.pool (fromUser flags)).base + 4096 * idx),
          { s.setMap (fromUser flags)
              (bitmapSetMultiple (s.pool (fromUser flags)).usedMap idx cnt true) with
            live := ⟨fromUser flags, (s.pool (fromUser flags)).base + 4096 * idx, cnt⟩ ::
              s.live })) ∨
    (∀ k, k + cnt ≤ (s.pool (fromUser flags)).usedMap.bitCnt → ∃ j, k ≤ j ∧ j < k + cnt ∧
        bitmapTest (s.pool (fromUser flags)).usedMap j = true) ∧
      s.pallocGetMultiple flags cnt = (if flags &&& palAssert != 0 then .panic else .null, s) := by
  generalize huser : fromUser flags = user
  unfold pallocGetMultiple
  rw [if_neg hcnt]
  simp only [huser]
  cases hscan : bitmapScan (s.pool user).usedMap 0 cnt false with
  | none =>
    refine .inr ⟨fun k => bitmapScan_none_run hscan k (Nat.zero_le k), ?_⟩
    simp only [bitmapScanAndFlip, hscan, setMap_self]
  | some idx =>
    obtain ⟨-, hend, hfree⟩ := bitmapScan_some hscan
    refine .inl ⟨idx, hend, hfree, ?_⟩
    obtain ⟨hlo, hhi⟩ := hs.layout.bounds user
    have hpage : pageAt (s.pool user) idx = (s.pool user).base + 4096 * idx :=
      Nat.mod_eq_of_lt (by omega)
    have hne : (s.pool user).base + 4096 * idx ≠ 0 := by omega
    simp only [bitmapScanAndFlip, hscan, hpage, if_neg hne, Bool.not_false]

lemma disjoint_of_ne {g' : PageGroup} {k k' : Nat}
    (hne : g.user ≠ g'.user) (hg : g.pages = (s.pool g.user).base + 4096 * k ∧
      k + g.cnt ≤ (s.pool g.user).usedMap.bitCnt)
    (hg' : g'.pages = (s.pool g'.user).base + 4096 * k' ∧
      k' + g'.cnt ≤ (s.pool g'.user).usedMap.bitCnt) : ∀ a, ¬ (g.Has a ∧ g'.Has a) := by
  have hsep := hs.layout.separate
  rintro a ⟨⟨h1, h2⟩, h3, h4⟩
  cases hu : g.user with
  | false =>
    have hu' : g'.user = true := by
      rw [hu] at hne
      exact (Bool.not_eq_false _).mp (Ne.symm hne)
    rw [hu] at hg
    rw [hu'] at hg'
    simp only [pool] at hg hg'
    omega
  | true =>
    have hu' : g'.user = false := by
      rw [hu] at hne
      exact (Bool.not_eq_true _).mp (Ne.symm hne)
    rw [hu] at hg
    rw [hu'] at hg'
    simp only [pool] at hg hg'
    omega

lemma take {user : Bool} {idx cnt : Nat} (hcnt : cnt ≠ 0)
    (hend : idx + cnt ≤ (s.pool user).usedMap.bitCnt)
    (hfree : ∀ j, idx ≤ j → j < idx + cnt → bitmapTest (s.pool user).usedMap j = false) :
    Sound ramPages
      { s.setMap user (bitmapSetMultiple (s.pool user).usedMap idx cnt true) with
        live := ⟨user, (s.pool user).base + 4096 * idx, cnt⟩ :: s.live } := by
  obtain ⟨map, hmap⟩ : ∃ map, map = bitmapSetMultiple (s.pool user).usedMap idx cnt true :=
    ⟨_, rfl⟩
  have hbits : map.bitCnt = (s.pool user).usedMap.bitCnt := by simp [hmap]
  have htest : ∀ i, bitmapTest map i =
      if idx ≤ i ∧ i < idx + cnt then true else bitmapTest (s.pool user).usedMap i := fun i => by
    rw [hmap, bitmapTest_setMultiple]
  rw [← hmap]
  obtain ⟨g, hg⟩ : ∃ g : PageGroup, g = ⟨user, (s.pool user).base + 4096 * idx, cnt⟩ := ⟨_, rfl⟩
  have hpages : g.pages = (s.pool user).base + 4096 * idx := by rw [hg]
  have hgcnt : g.cnt = cnt := by rw [hg]
  have hguser : g.user = user := by rw [hg]
  rw [← hg]
  have hbase := setMap_base s user
  have hcount := setMap_bitCnt s hbits
  refine ⟨(hs.layout.setMap hbits).setLive _, ?_, ?_, ?_, ?_⟩
  · intro g' hg'
    change _ ∧ ∃ i, g'.pages = ((s.setMap user map).pool g'.user).base + 4096 * i ∧
      i + g'.cnt ≤ ((s.setMap user map).pool g'.user).usedMap.bitCnt
    rw [hbase, hcount]
    rcases mem_cons.mp hg' with rfl | hg'
    · rw [hguser, hgcnt]
      exact ⟨Nat.pos_of_ne_zero hcnt, idx, hpages, hend⟩
    · exact hs.inside g' hg'
  · refine pairwise_cons.mpr ⟨fun g' hg' => ?_, hs.disjoint⟩
    obtain ⟨-, k, hk, hkend⟩ := hs.inside g' hg'
    by_cases hu : g'.user = user
    · rintro a ⟨⟨h1, h2⟩, h3, h4⟩
      -- the page of `a` would be both free and marked
      rw [hu] at hk hkend
      obtain ⟨i, hi⟩ : ∃ i, i = (a - (s.pool user).base) / 4096 := ⟨_, rfl⟩
      have hnew : idx ≤ i ∧ i < idx + cnt := by omega
      have hold : k ≤ i ∧ i < k + g'.cnt := by omega
      have hmarked := (hs.bits user i (by omega)).mpr ⟨g', hg', hu, (has_iff hk).mpr hold⟩
      simp [hfree i hnew.1 hnew.2] at hmarked
    · refine hs.disjoint_of_ne (k := idx) (fun heq => hu (heq ▸ hguser)) ?_ ⟨hk, hkend⟩
      rw [hguser, hgcnt]
      exact ⟨hpages, hend⟩
  · intro user' i hi
    change bitmapTest ((s.setMap user map).pool user').usedMap i = true ↔
      ∃ g' ∈ g :: s.live, g'.user = user' ∧
        g'.Has (((s.setMap user map).pool user').base + 4096 * i)
    replace hi : i < ((s.setMap user map).pool user').usedMap.bitCnt := hi
    rw [hcount] at hi
    simp only [hbase, mem_cons, or_and_right, exists_or, exists_eq_left]
    by_cases hu : user' = user
    · rw [hu] at hi ⊢
      rw [setMap_usedMap, htest, has_iff hpages, hgcnt, ← hs.bits user i hi]
      by_cases hin : idx ≤ i ∧ i < idx + cnt
      · simp [hin, hguser]
      · simp [hin]
    · rw [setMap_usedMap_of_ne s hu, hs.bits user' i hi]
      have hne : ¬ g.user = user' := fun heq => hu (heq ▸ hguser)
      simp [hne]
  · change (s.setMap user map).panicked = false
    rw [setMap_panicked, hs.ok]

/-- Freeing a live group passes all checks and clears the bits of the group, in the map of
the pool it came from. -/
lemma free_eq (hg : g ∈ s.live) :
    ∃ i, g.pages = (s.pool g.user).base + 4096 * i ∧
      i + g.cnt ≤ (s.pool g.user).usedMap.bitCnt ∧
      s.pallocFreeMultiple g.pages g.cnt =
        s.setMap g.user (bitmapSetMultiple (s.pool g.user).usedMap i g.cnt false) := by
  obtain ⟨hpos, i, hpages, hend⟩ := hs.inside g hg
  refine ⟨i, hpages, hend, ?_⟩
  obtain ⟨hlo, hhi⟩ := hs.layout.bounds g.user
  have hal := hs.layout.aligned g.user
  have hsep := hs.layout.separate
  have hensure : s.ensure (g.pages % 4096 = 0) = s := if_pos (by omega)
  have hidx : pgNo g.pages - pgNo (s.pool g.user).base = i := by
    unfold pgNo
    omega
  have hall : bitmapAll (s.pool g.user).usedMap i g.cnt = true := by
    unfold bitmapAll
    rw [Bool.not_eq_true', bitmapContains_eq_false]
    intro j h1 h2
    exact (hs.bits g.user j (by omega)).mpr ⟨g, hg, rfl, (has_iff hpages).mpr ⟨h1, h2⟩⟩
  have hrelease : s.release g.user g.pages g.cnt =
      s.setMap g.user (bitmapSetMultiple (s.pool g.user).usedMap i g.cnt false) := by
    unfold release
    simp [hidx, ensure, hall, hend]
  unfold pallocFreeMultiple
  rw [hensure, if_neg (by omega), ← hrelease]
  unfold pageFromPool pgNo
  cases hu : g.user with
  | false =>
    rw [hu] at hpages hend
    simp only [pool] at hpages hend
    have h1 : s.kernel.base / 4096 ≤ g.pages / 4096 := by omega
    have h2 : g.pages / 4096 < s.kernel.base / 4096 + s.kernel.usedMap.bitCnt := by omega
    simp [h1, h2]
  | true =>
    rw [hu] at hpages hend hal
    simp only [pool] at hpages hend hal
    have h1 : ¬ g.pages / 4096 < s.kernel.base / 4096 + s.kernel.usedMap.bitCnt := by omega
    have h2 : s.user.base / 4096 ≤ g.pages / 4096 := by omega
    have h3 : g.pages / 4096 < s.user.base / 4096 + s.user.usedMap.bitCnt := by omega
    simp [h1, h2, h3]

lemma give (hg : g ∈ s.live) :
    Sound ramPages { s.pallocFreeMultiple g.pages g.cnt with live := s.live.erase g } := by
  obtain ⟨k, hpages, hend, heq⟩ := hs.free_eq hg
  obtain ⟨map, hmap⟩ : ∃ map, map = bitmapSetMultiple (s.pool g.user).usedMap k g.cnt false :=
    ⟨_, rfl⟩
  have hbits : map.bitCnt = (s.pool g.user).usedMap.bitCnt := by simp [hmap]
  have htest : ∀ i, bitmapTest map i =
      if k ≤ i ∧ i < k + g.cnt then false else bitmapTest (s.pool g.user).usedMap i := fun i => by
    rw [hmap, bitmapTest_setMultiple]
  rw [heq, ← hmap]
  have hbase := setMap_base s g.user
  have hcount := setMap_bitCnt s hbits
  have hsub : ∀ g' ∈ s.live.erase g, g' ∈ s.live ∧ g' ≠ g := fun g' hg' =>
    ((Nodup.mem_erase_iff hs.nodup).mp hg').symm
  have hapart : ∀ g' ∈ s.live, g' ≠ g → ∀ a, ¬ (g'.Has a ∧ g.Has a) := by
    intro g' hg' hne
    have hsymm : Std.Symm fun x y : PageGroup => ∀ a, ¬ (x.Has a ∧ y.Has a) :=
      ⟨fun x y hxy a hyx => hxy a hyx.symm⟩
    exact hs.disjoint.forall hg' hg hne
  refine ⟨(hs.layout.setMap hbits).setLive _, ?_, ?_, ?_, ?_⟩
  · intro g' hg'
    change _ ∧ ∃ i, g'.pages = ((s.setMap g.user map).pool g'.user).base + 4096 * i ∧
      i + g'.cnt ≤ ((s.setMap g.user map).pool g'.user).usedMap.bitCnt
    rw [hbase, hcount]
    exact hs.inside g' (hsub g' hg').1
  · exact hs.disjoint.sublist erase_sublist
  · intro user i hi
    change bitmapTest ((s.setMap g.user map).pool user).usedMap i = true ↔
      ∃ g' ∈ s.live.erase g, g'.user = user ∧
        g'.Has (((s.setMap g.user map).pool user).base + 4096 * i)
    replace hi : i < ((s.setMap g.user map).pool user).usedMap.bitCnt := hi
    rw [hcount] at hi
    rw [hbase]
    have hold := hs.bits user i hi
    by_cases hu : user = g.user
    · rw [hu] at hi hold ⊢
      rw [setMap_usedMap, htest]
      have hhas := has_iff (i := i) hpages
      by_cases hin : k ≤ i ∧ i < k + g.cnt
      · simp only [hin, and_self, if_true, Bool.false_eq_true, false_iff, not_exists, not_and]
        rintro g' hg' - hcover
        exact hapart g' (hsub g' hg').1 (hsub g' hg').2 _ ⟨hcover, hhas.mpr hin⟩
      · rw [if_neg hin, hold]
        refine exists_congr fun g' => and_congr_left fun ⟨_, hcover⟩ => ?_
        rw [Nodup.mem_erase_iff hs.nodup]
        refine (and_iff_right ?_).symm
        rintro rfl
        exact hin (hhas.mp hcover)
    · rw [setMap_usedMap_of_ne s hu, hold]
      refine exists_congr fun g' => and_congr_left fun ⟨huser, _⟩ => ?_
      rw [Nodup.mem_erase_iff hs.nodup]
      refine (and_iff_right ?_).symm
      rintro rfl
      exact hu huser.symm
  · change (s.setMap g.user map).panicked = false
    rw [setMap_panicked, hs.ok]

lemma step {c : Call} {s' : Palloc} (h : s.call c = some s') : Sound ramPages s' := by
  cases c with
  | get flags cnt =>
    by_cases hcnt : cnt = 0
    · have hnull : s.pallocGetMultiple flags cnt = (.null, s) := if_pos hcnt
      simp only [call, hnull] at h
      cases h
      exact hs
    · rcases hs.get_cases flags hcnt with ⟨idx, hend, hfree, heq⟩ | ⟨-, heq⟩
      · simp only [call, heq] at h
        cases h
        exact hs.take hcnt hend hfree
      · simp only [call, heq] at h
        split at h
        next hp => cases h
        next hp =>
          cases h
          cases (Prod.ext_iff.mp hp).2
          exact hs
  | free g =>
    by_cases hg : g ∈ s.live
    · rw [call, if_pos hg] at h
      cases h
      exact hs.give hg
    · simp [call, if_neg hg] at h

end

end Sound

lemma initRamPages_bounds {kb : Nat} (hkb : 1024 < kb) :
    256 ≤ initRamPages kb ∧ initRamPages kb < 262144 ∧ 4096 * initRamPages kb ≤ 1024 * kb := by
  unfold initRamPages
  split <;> omega

lemma sound_of_reachable {kb limit : Nat} (hkb : 1024 < kb) {s : Palloc}
    (h : (machine kb limit).Reachable s) : Sound (initRamPages kb) s := by
  obtain ⟨hlo, hhi, -⟩ := initRamPages_bounds hkb
  refine h.invariant ?_ fun s c s' hs hstep => hs.step hstep
  rintro s ⟨bits, hinit⟩
  obtain ⟨hl, hlive, hok, hclear⟩ := pallocInit_spec hinit hlo hhi
  refine ⟨hl, ?_, ?_, ?_, hok⟩
  · simp [hlive]
  · simp [hlive]
  · intro user i hi
    simp [hclear user i hi, hlive]

/-- What holds of the allocator of a machine with `kb` kB of memory between calls. -/
structure Allocates (kb : Nat) (s : Palloc) : Prop where
  regions_disjoint : s.regions.Pairwise fun r r' =>
    ∀ a, ¬ ((r.1 ≤ a ∧ a < r.2) ∧ r'.1 ≤ a ∧ a < r'.2)
  regions_inside : ∀ r ∈ s.regions,
    0xc0000000 + 1024 * 1024 ≤ r.1 ∧ r.2 ≤ 0xc0000000 + 1024 * kb
  maps_fit : ∀ user, (s.pool user).mapAddr + bitmapBufSize (s.pool user).usedMap.bitCnt ≤
    (s.pool user).base
  groups_disjoint : s.live.Pairwise fun g g' => ∀ a, ¬ (g.Has a ∧ g'.Has a)
  groups_inside : ∀ g ∈ s.live, (s.pool g.user).base ≤ g.pages ∧
    g.pages + 4096 * g.cnt ≤ (s.pool g.user).base + 4096 * (s.pool g.user).usedMap.bitCnt
  marked : ∀ user, ∀ i < (s.pool user).usedMap.bitCnt,
    (bitmapTest (s.pool user).usedMap i = true ↔
      ∃ g ∈ s.live, g.user = user ∧ g.Has ((s.pool user).base + 4096 * i))
  gets_nothing : ∀ flags, s.pallocGetMultiple flags 0 = (.null, s)
  gets : ∀ flags cnt, cnt ≠ 0 →
    (∃ pages s', s.pallocGetMultiple flags cnt = (.pages pages, s') ∧
      s'.live = ⟨fromUser flags, pages, cnt⟩ :: s.live) ∨
    ∀ k, k + cnt ≤ (s.pool (fromUser flags)).usedMap.bitCnt →
      ∃ j, k ≤ j ∧ j < k + cnt ∧ bitmapTest (s.pool (fromUser flags)).usedMap j = true
  frees : ∀ g ∈ s.live, (s.pallocFreeMultiple g.pages g.cnt).panicked = false ∧
    (s.pallocFreeMultiple g.pages g.cnt).pool (!g.user) = s.pool (!g.user) ∧
    ∀ i < (s.pool g.user).usedMap.bitCnt,
      (bitmapTest ((s.pallocFreeMultiple g.pages g.cnt).pool g.user).usedMap i = true ↔
        bitmapTest (s.pool g.user).usedMap i = true ∧
          ¬ g.Has ((s.pool g.user).base + 4096 * i))
  ok : s.panicked = false

/-- The page allocator after `palloc_init` and any calls, for any memory and any limit of user pages
that the pools can be set up with. -/
theorem allocates_of_reachable {kb limit : Nat} (hkb : 1024 < kb) {s : Palloc}
    (h : (machine kb limit).Reachable s) : Allocates kb s := by
  have hs := sound_of_reachable hkb h
  obtain ⟨-, -, hram⟩ := initRamPages_bounds hkb
  have hl := hs.layout
  have hkernel : s.kernel.mapAddr + _ ≤ s.kernel.base := hl.buf false
  have huser : s.user.mapAddr + _ ≤ s.user.base := hl.buf true
  have hkmap := hl.kernelMap
  have humap := hl.userMap
  have hend := hl.userEnd
  refine ⟨?_, ?_, hl.buf, hs.disjoint, ?_, hs.bits, fun flags => rfl, ?_, ?_, hs.ok⟩
  · have horder : s.regions.Pairwise fun r r' => r.2 ≤ r'.1 := by
      simp only [regions, pairwise_cons, mem_cons, not_mem_nil, or_false,
        forall_eq_or_imp, forall_eq, false_imp_iff, implies_true, Pairwise.nil, and_true]
      omega
    exact horder.imp fun hle a => by omega
  · simp only [regions, mem_cons, not_mem_nil, or_false, forall_eq_or_imp, forall_eq]
    omega
  · intro g hg
    obtain ⟨-, i, hpages, hin⟩ := hs.inside g hg
    omega
  · intro flags cnt hcnt
    rcases hs.get_cases flags hcnt with ⟨idx, -, -, heq⟩ | ⟨hnone, -⟩
    · exact .inl ⟨_, _, heq, rfl⟩
    · exact .inr hnone
  · intro g hg
    obtain ⟨k, hpages, -, heq⟩ := hs.free_eq hg
    have hne : (!g.user) ≠ g.user := by cases g.user <;> decide
    rw [heq]
    refine ⟨by rw [setMap_panicked, hs.ok], by rw [setMap_pool, if_neg hne], fun i hi => ?_⟩
    rw [setMap_usedMap, bitmapTest_setMultiple, Sound.has_iff hpages]
    by_cases hin : k ≤ i ∧ i < k + g.cnt
    · simp [hin]
    · simp [hin]

/-- A machine with 2 MB: three kernel pages are taken, behind the page of the bitmap. -/
theorem allocates_of_reachable_get :
    ∃ s, (machine 2048 64).Reachable s ∧ s.live = [⟨false, 0xc0101000, 3⟩] ∧
      Allocates 2048 s := by
  have hlive : ((pallocInit (initRamPages 2048) 64 fun _ _ => 0#32).bind fun s =>
      s.call (.get 0 3)).map Palloc.live = some [⟨false, 0xc0101000, 3⟩] := by decide +kernel
  obtain ⟨s, hs, hlive⟩ := map_eq_some_iff.mp hlive
  obtain ⟨s₀, hinit, hcall⟩ := bind_eq_some_iff.mp hs
  have hstep : (machine 2048 64).step s₀ (.get 0 3) = some s := hcall
  have hreach : (machine 2048 64).Reachable s := .step (.start ⟨_, hinit⟩) hstep
  exact ⟨s, hreach, hlive, allocates_of_reachable (by decide) hreach⟩

end Palloc

end Pintos.Threads
