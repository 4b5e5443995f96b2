import Pintos.Lib.BitmapRefinement
import Pintos.Filesys.FileGrowth

/-!
# `free_map_allocate`, for any number of sectors

The bits are flipped before the map is saved, and flipped back when saving fails. Whatever
the map, the number of sectors and the outcome of the save, the call takes the first run of
free sectors that is long enough, or it changes nothing in the map.
-/

namespace Pintos.Filesys

open Foundation Lib

/-- `free_map_allocate (cnt, &sectorp)`, with `*sectorp` in and out. -/
def freeMapAllocateTo (fs : FileSys) (cnt : Nat) (sectorp : BlockSector) :
    Bool × BlockSector × FileSys :=
  match freeMapAllocate fs cnt with
  | (some sector, fs) => (true, sector, fs)
  | (none, fs) => (false, sectorp, fs)

def saveFails (fs : FileSys) (cnt : Nat) : Bool :=
  match bitmapScanAndFlip fs.freeMap.map 0 cnt false, fs.freeMap.file with
  | (some _, map), some inode => !(bitmapWrite (fs.setMap map) inode).1
  | _, _ => false

lemma setMap_map {fs : FileSys} {map : Bitmap} (h : map.bitCnt = fs.freeMap.map.bitCnt) :
    (fs.setMap map).freeMap.map = map := by
  cases map with
  | mk cnt bits =>
    dsimp only at h
    subst h
    rfl

lemma bitmapSetMultiple_undo {b : Bitmap} {idx cnt : Nat}
    (h : ∀ j, idx ≤ j → j < idx + cnt → bitmapTest b j = false) :
    bitmapSetMultiple (bitmapSetMultiple b idx cnt true) idx cnt false = b := by
  apply bitmap_ext
  · rw [bitmapSetMultiple_bitCnt, bitmapSetMultiple_bitCnt]
  · intro i
    rw [bitmapTest_setMultiple, bitmapTest_setMultiple]
    by_cases hi : idx ≤ i ∧ i < idx + cnt
    · rw [if_pos hi, h i hi.1 hi.2]
    · rw [if_neg hi, if_neg hi]

lemma freeMapAllocate_found {fs : FileSys} {cnt idx : Nat}
    (hscan : bitmapScan fs.freeMap.map 0 cnt false = some idx) :
    (saveFails fs cnt = false ∧ ∃ fs', freeMapAllocate fs cnt = (some (UInt32.ofNat idx), fs') ∧
        fs'.freeMap.map = bitmapSetMultiple fs.freeMap.map idx cnt true) ∨
      (saveFails fs cnt = true ∧ ∃ fs', freeMapAllocate fs cnt = (none, fs') ∧
        fs'.freeMap.map = fs.freeMap.map) := by
  have hmap : (fs.setMap (bitmapSetMultiple fs.freeMap.map idx cnt true)).freeMap.map =
      bitmapSetMultiple fs.freeMap.map idx cnt true := setMap_map (bitmapSetMultiple_bitCnt _ _ _ _)
  have hfile : (fs.setMap (bitmapSetMultiple fs.freeMap.map idx cnt true)).freeMap.file =
      fs.freeMap.file := rfl
  unfold saveFails freeMapAllocate bitmapScanAndFlip
  cases hf : fs.freeMap.file with
  | none =>
    simp only [hscan, Bool.not_false, hfile, hf]
    exact Or.inl ⟨trivial, _, rfl, hmap⟩
  | some inode =>
    simp only [hscan, Bool.not_false, hfile, hf]
    generalize fs.setMap (bitmapSetMultiple fs.freeMap.map idx cnt true) = fs₁ at hmap ⊢
    have hsaved : (bitmapWrite fs₁ inode).2.freeMap.map = fs₁.freeMap.map := by
      rw [bitmapWrite_rest]
    cases hb : (bitmapWrite fs₁ inode).1 with
    | true => exact Or.inl ⟨rfl, _, rfl, hsaved.trans hmap⟩
    | false =>
      refine Or.inr ⟨rfl, _, rfl, ?_⟩
      -- the roll-back
      have hback : bitmapSetMultiple (bitmapWrite fs₁ inode).2.freeMap.map idx cnt false =
          fs.freeMap.map := by
        rw [hsaved, hmap, bitmapSetMultiple_undo (bitmapScan_some hscan).2.2]
      have hcnt : fs.freeMap.map.bitCnt = (bitmapWrite fs₁ inode).2.freeMap.map.bitCnt := by
        rw [hsaved, hmap, bitmapSetMultiple_bitCnt]
      dsimp only
      rw [hback]
      exact setMap_map hcnt

/-- `free_map_allocate` is all or nothing. -/
theorem freeMapAllocateTo_all_or_nothing (fs : FileSys) (cnt : Nat) (sectorp : BlockSector)
    (hbits : fs.freeMap.map.bitCnt < 4294967296) :
    (∃ s fs', freeMapAllocateTo fs cnt sectorp = (true, s, fs') ∧
        IsLeast ((bitmapVector fs.freeMap.map).runs 0 cnt false) s.toNat ∧
        fs'.freeMap.map.bitCnt = fs.freeMap.map.bitCnt ∧
        ∀ i, bitmapTest fs'.freeMap.map i =
          if s.toNat ≤ i ∧ i < s.toNat + cnt then true else bitmapTest fs.freeMap.map i) ∨
      ∃ fs', freeMapAllocateTo fs cnt sectorp = (false, sectorp, fs') ∧
        fs'.freeMap.map = fs.freeMap.map ∧
        (saveFails fs cnt = false → ∀ i, i ∉ (bitmapVector fs.freeMap.map).runs 0 cnt false) := by
  have hfirst := (represents_self fs.freeMap.map).scan 0 cnt false
  cases hscan : bitmapScan fs.freeMap.map 0 cnt false with
  | none =>
    refine Or.inr ⟨{ fs with allocFailed := true }, ?_, rfl, fun _ => ?_⟩
    · simp only [freeMapAllocateTo, freeMapAllocate, bitmapScanAndFlip, hscan]
    · exact (BoolVec.firstRun_eq_none _).mp (hfirst ▸ hscan)
  | some idx =>
    have hend := (bitmapScan_some hscan).2.1
    have hnat : (UInt32.ofNat idx).toNat = idx := by
      rw [UInt32.toNat_ofNat']
      omega
    have hleast := (BoolVec.firstRun_eq_some _).mp (hfirst ▸ hscan)
    rcases freeMapAllocate_found hscan with ⟨-, fs', hcall, hmap⟩ | ⟨hfail, fs', hcall, hmap⟩
    · refine Or.inl ⟨UInt32.ofNat idx, fs', ?_, by rwa [hnat], ?_, fun i => ?_⟩
      · simp only [freeMapAllocateTo, hcall]
      · rw [hmap, bitmapSetMultiple_bitCnt]
      · rw [hmap, bitmapTest_setMultiple, hnat]
    · refine Or.inr ⟨fs', ?_, hmap, fun hok => ?_⟩
      · simp only [freeMapAllocateTo, hcall]
      · rw [hfail] at hok
        cases hok

theorem freeMapAllocateTo_smallVolume :
    ∃ s fs', freeMapAllocateTo smallVolume 3 0 = (true, s, fs') ∧
      IsLeast ((bitmapVector smallVolume.freeMap.map).runs 0 3 false) s.toNat := by
  have hcall : (freeMapAllocateTo smallVolume 3 0).1 = true := by decide
  rcases freeMapAllocateTo_all_or_nothing smallVolume 3 0 (by decide) with
    ⟨s, fs', hyes, hleast, -⟩ | ⟨fs', hno, -⟩
  · exact ⟨s, fs', hyes, hleast⟩
  · rw [hno] at hcall
    cases hcall

end Pintos.Filesys
