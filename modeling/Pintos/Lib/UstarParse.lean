import Pintos.Lib.Ustar
import Mathlib.Data.List.TakeWhile

/-!
# Parsing archive headers

The string functions read no further than the terminator, `strip_antisocial_prefixes`
leaves a name that starts with no dangerous prefix, and the octal fields cannot overflow.
So every sector can be parsed, and what is accepted is well formed.
-/

namespace Pintos.Lib

open Foundation List

variable {p s : List UInt8} {c : UInt8} {a : UInt8} {name : List UInt8} {fuel : Nat}
  {type : UstarType}

lemma cstr_cons (ha : a ≠ 0) : cstr (a :: p) = a :: cstr p := by
  simp [cstr, ha]

lemma cstr_zero (p : List UInt8) : cstr (0 :: p) = [] := by
  simp [cstr]

lemma cstr_append_zero (hname : 0 ∉ name) (p : List UInt8) : cstr (name ++ 0 :: p) = name := by
  induction name with
  | nil => exact cstr_zero p
  | cons a name ih =>
    have ha : a ≠ 0 := fun h => hname (h ▸ mem_cons_self)
    rw [cons_append, cstr_cons ha, ih fun h => hname (mem_cons_of_mem a h)]

lemma zero_not_mem_cstr (p : List UInt8) : 0 ∉ cstr p := by
  intro h
  simpa using mem_takeWhile_imp h

lemma cstr_length_lt (hp : 0 ∈ p) : (cstr p).length < p.length := by
  induction p with
  | nil => cases hp
  | cons a p ih =>
    by_cases ha : a = 0
    · rw [ha, cstr_zero]
      exact Nat.succ_pos _
    · rw [cstr_cons ha]
      exact Nat.succ_lt_succ (ih ((mem_cons.mp hp).resolve_left (Ne.symm ha)))

lemma mem_tail_of_ne (hp : 0 ∈ a :: p) (ha : a ≠ 0) : 0 ∈ p :=
  (mem_cons.mp hp).resolve_left (Ne.symm ha)

lemma memcmpEq_eq (hp : 0 ∈ p) (hs : 0 ∉ s) : memcmpEq p s = some (decide (s <+: cstr p)) := by
  induction s generalizing p with
  | nil => simp [memcmpEq]
  | cons b s ih =>
    have hb : b ≠ 0 := fun h => hs (h ▸ mem_cons_self)
    cases p with
    | nil => cases hp
    | cons a p =>
      unfold memcmpEq
      by_cases ha : a = 0
      · subst ha
        simp [cstr_zero, hb.symm]
      · simp only [cstr_cons ha, cons_prefix_cons]
        by_cases hab : a = b
        · rw [if_pos hab, ih (mem_tail_of_ne hp ha) fun h => hs (mem_cons_of_mem b h)]
          simp [hab]
        · rw [if_neg hab]
          simp [Ne.symm hab]

lemma strcmpEq_eq (hp : 0 ∈ p) (hs : 0 ∉ s) :
    strcmpEq p (s ++ [0]) = some (decide (cstr p = s)) := by
  induction s generalizing p with
  | nil =>
    cases p with
    | nil => cases hp
    | cons a p =>
      by_cases ha : a = 0
      · simp [strcmpEq, ha, cstr_zero]
      · simp [strcmpEq, ha, cstr_cons]
  | cons b s ih =>
    have hb : b ≠ 0 := fun h => hs (h ▸ mem_cons_self)
    cases p with
    | nil => cases hp
    | cons a p =>
      rw [cons_append, strcmpEq]
      by_cases ha : a = 0
      · subst ha
        simp [cstr_zero, hb.symm]
      · rw [cstr_cons ha]
        by_cases hab : a = b
        · rw [if_pos ⟨ha, hab⟩, ih (mem_tail_of_ne hp ha) fun h => hs (mem_cons_of_mem b h)]
          simp [hab]
        · rw [if_neg fun h => hab h.2]
          simp [hab]

lemma strchr_of_mem (hp : 0 ∈ p) (hc : c ∈ cstr p) :
    ∃ q, strchr c p = some (some (c :: q)) ∧ c :: q <:+ p ∧ 0 ∈ q := by
  induction p with
  | nil => cases hp
  | cons a p ih =>
    by_cases ha : a = 0
    · simp [ha, cstr_zero] at hc
    · unfold strchr
      have htail := mem_tail_of_ne hp ha
      by_cases hac : a = c
      · rw [if_pos hac, hac]
        exact ⟨p, rfl, suffix_rfl, htail⟩
      · rw [cstr_cons ha] at hc
        obtain ⟨q, hq, hsuffix, hzero⟩ :=
          ih htail ((mem_cons.mp hc).resolve_left (Ne.symm hac))
        rw [if_neg hac, if_neg ha]
        exact ⟨q, hq, hsuffix.trans (suffix_cons a p), hzero⟩

def Antisocial (name : List UInt8) : Prop :=
  [47] <+: name ∨ [46, 47] <+: name ∨ [46, 46, 47] <+: name

instance (name : List UInt8) : Decidable (Antisocial name) := inferInstanceAs (Decidable (_ ∨ _))

/-- A name that an extractor can use. -/
structure Clean (name : List UInt8) : Prop where
  nonempty : name ≠ []
  notParent : name ≠ [46, 46]
  social : ¬ Antisocial name

lemma clean_dot : Clean (cstr dotName) :=
  ⟨by decide, by decide, by decide⟩

lemma antisocial_eq (hp : 0 ∈ p) : antisocial p = some (decide (Antisocial (cstr p))) := by
  unfold antisocial Antisocial
  rw [memcmpEq_eq hp (by decide), memcmpEq_eq hp (by decide)]
  cases p with
  | nil => cases hp
  | cons a p =>
    by_cases ha : a = 47
    · subst ha
      simp [cstr_cons]
    · have hhead : ¬ [47] <+: cstr (a :: p) := by
        by_cases hzero : a = 0
        · simp [hzero, cstr_zero]
        · rw [cstr_cons hzero, cons_prefix_cons]
          exact fun h => ha h.1.symm
      by_cases hdot : [46, 47] <+: cstr (a :: p)
      · simp [hdot]
      · simp [ha, hdot, hhead]

lemma slash_mem_of_antisocial (h : Antisocial name) : 47 ∈ name := by
  rcases h with h | h | h <;> exact h.subset (by decide)

lemma head_eq_zero_iff (hp : 0 ∈ p) : p.head? = some 0 ↔ cstr p = [] := by
  cases p with
  | nil => cases hp
  | cons a p =>
    by_cases ha : a = 0
    · simp [ha, cstr_zero]
    · simp [ha, cstr_cons]

lemma stripLoop_succ (hp : 0 ∈ p) (fuel : Nat) :
    stripLoop (fuel + 1) p =
      if Antisocial (cstr p) then
        (strchr 47 p).bind fun r => r.elim none fun q => stripLoop fuel q.tail
      else if cstr p = [] ∨ cstr p = [46, 46] then some dotName
      else some p := by
  have hcmp : strcmpEq p [46, 46, 0] = some (decide (cstr p = [46, 46])) :=
    strcmpEq_eq (s := [46, 46]) hp (by decide)
  rw [stripLoop, antisocial_eq hp, hcmp]
  simp only [Option.bind_eq_bind, Option.bind_some, decide_eq_true_eq, head_eq_zero_iff hp]
  split_ifs with ha hnil hor hparent
  · congr 1
    funext r
    cases r <;> rfl
  all_goals first | rfl | simp_all

lemma stripLoop_of_clean (hp : 0 ∈ p) (h : Clean (cstr p)) (hfuel : 0 < fuel) :
    stripLoop fuel p = some p := by
  obtain ⟨fuel, rfl⟩ := Nat.exists_eq_succ_of_ne_zero (Nat.ne_of_gt hfuel)
  rw [stripLoop_succ hp, if_neg h.social, if_neg]
  exact not_or.mpr ⟨h.nonempty, h.notParent⟩

lemma stripLoop_spec (hp : 0 ∈ p) (hfuel : p.length ≤ fuel) :
    ∃ q, stripLoop fuel p = some q ∧ 0 ∈ q ∧ Clean (cstr q) ∧ (q = dotName ∨ q <:+ p) := by
  induction fuel generalizing p with
  | zero =>
    simp [length_eq_zero_iff.mp (Nat.le_zero.mp hfuel)] at hp
  | succ fuel ih =>
    rw [stripLoop_succ hp]
    by_cases ha : Antisocial (cstr p)
    · obtain ⟨q, hq, hsuffix, hzero⟩ := strchr_of_mem hp (slash_mem_of_antisocial ha)
      have hlen : q.length ≤ fuel := by
        have := hsuffix.length_le
        simp only [length_cons] at this
        omega
      obtain ⟨r, hr, hr0, hclean, hrest⟩ := ih hzero hlen
      rw [if_pos ha, hq]
      refine ⟨r, hr, hr0, hclean, hrest.imp_right fun h => ?_⟩
      exact (h.trans (suffix_cons 47 q)).trans hsuffix
    · rw [if_neg ha]
      by_cases hor : cstr p = [] ∨ cstr p = [46, 46]
      · rw [if_pos hor]
        exact ⟨dotName, rfl, by decide, clean_dot, .inl rfl⟩
      · rw [if_neg hor]
        have hor := not_or.mp hor
        exact ⟨p, rfl, hp, ⟨hor.1, hor.2, ha⟩, .inr suffix_rfl⟩

lemma stripAntisocialPrefixes_spec (hp : 0 ∈ p) :
    ∃ q, stripAntisocialPrefixes p = some q ∧ 0 ∈ q ∧ Clean (cstr q) ∧
      (q = dotName ∨ q <:+ p) :=
  stripLoop_spec hp (Nat.le_refl _)

lemma stripAntisocialPrefixes_of_clean (hp : 0 ∈ p) (h : Clean (cstr p)) :
    stripAntisocialPrefixes p = some p :=
  stripLoop_of_clean hp h (length_pos_of_mem hp)

/-- The number that the leading octal digits of a field stand for, behind `value`. -/
def octalFrom (value : Nat) (s : List UInt8) : Nat :=
  (s.takeWhile fun c => 48 ≤ c ∧ c ≤ 55).foldl (fun v c => c.toNat - 48 + v * 8) value

def octalValue (s : List UInt8) : Nat := octalFrom 0 s

lemma octalFrom_digit (hc : 48 ≤ c ∧ c ≤ 55) (value : Nat) (s : List UInt8) :
    octalFrom value (c :: s) = octalFrom (c.toNat - 48 + value * 8) s := by
  simp [octalFrom, hc]

lemma octalFrom_end (hc : ¬ (48 ≤ c ∧ c ≤ 55)) (value : Nat) (s : List UInt8) :
    octalFrom value (c :: s) = value := by
  unfold octalFrom
  rw [takeWhile_cons_of_neg (by simpa using hc)]
  rfl

lemma octalDigit_bounds (hc : 48 ≤ c ∧ c ≤ 55) : c.toNat - 48 ≤ 7 := by
  have := UInt8.le_iff_toNat_le.mp hc.2
  simp only [UInt8.toNat_ofNat] at this
  omega

lemma octal_step (hc : 48 ≤ c ∧ c ≤ 55) {value : Nat} (hv : ¬ value > 4294967295 / 8) :
    (c.toNat - 48 + value * 8) % 4294967296 = c.toNat - 48 + value * 8 := by
  have := octalDigit_bounds hc
  omega

/-- The loop reads inside the field, and a number it returns is that of the digits. -/
lemma parseOctalLoop_spec {left : Nat} (hs : left ≤ s.length) (ofs value : Nat) :
    ∃ r, parseOctalLoop left s ofs value = some r ∧ ∀ v, r = some v → v = octalFrom value s := by
  induction left generalizing s ofs value with
  | zero => exact ⟨none, rfl, nofun⟩
  | succ left ih =>
    cases s with
    | nil => cases hs
    | cons c s =>
      unfold parseOctalLoop
      split_ifs with hc hv hend hofs
      · exact ⟨none, rfl, nofun⟩
      · rw [octalFrom_digit hc, octal_step hc hv]
        exact ih (Nat.le_of_succ_le_succ hs) _ _
      · refine ⟨some value, rfl, fun v h => ?_⟩
        cases h
        exact (octalFrom_end hc value s).symm
      · exact ⟨none, rfl, nofun⟩
      · exact ⟨none, rfl, nofun⟩

lemma parseOctalField_spec (size : Nat) (hs : size ≤ s.length) :
    ∃ r, parseOctalField s size = some r ∧ ∀ v, r = some v → v = octalValue s :=
  parseOctalLoop_spec hs 0 0

@[simp] lemma field_length (h : Header) (ofs len : Nat) : (field h ofs len).length = len := by
  simp [field]

lemma isAllZeros_eq {block : List UInt8} {cnt : Nat} (h : cnt ≤ block.length) :
    isAllZeros block cnt = some (decide (∀ b ∈ block.take cnt, b = 0)) := by
  induction cnt generalizing block with
  | zero => simp [isAllZeros]
  | succ cnt ih =>
    cases block with
    | nil => cases h
    | cons b block =>
      unfold isAllZeros
      split_ifs with hb
      · simp [hb]
      · rw [ih (Nat.le_of_succ_le_succ h)]
        simp [not_not.mp hb]

lemma memcmpEq_isSome (h : s.length ≤ p.length) : ∃ r, memcmpEq p s = some r := by
  induction s generalizing p with
  | nil => exact ⟨true, by simp [memcmpEq]⟩
  | cons b s ih =>
    cases p with
    | nil => cases h
    | cons a p =>
      unfold memcmpEq
      split_ifs
      · exact ih (Nat.le_of_succ_le_succ h)
      · exact ⟨false, rfl⟩

/-- What an accepted header for a file says. -/
structure WellFormed (h : Header) (p : Parsed) : Prop where
  type : p.type = .regular ∧ p.size = octalValue (field h 124 12) ∨
    p.type = .directory ∧ p.size = 0
  size : p.size ≤ 2147483647
  chksum : octalValue (field h 148 8) = calculateChksum h
  name : ∃ name, p.fileName = some name ∧ Clean name ∧ name.length ≤ 99

lemma typeOf_eq (h : typeOf c = some type) : type = .regular ∨ type = .directory := by
  unfold typeOf at h
  split_ifs at h with hr hd
  · exact .inl (Option.some.inj h).symm
  · exact .inr (Option.some.inj h).symm

lemma parseSize_spec (h : Header) (htype : type = .regular ∨ type = .directory) :
    ∃ r, parseSize h type = some r ∧ ∀ size, r = .ok size → size ≤ 2147483647 ∧
      (type = .regular ∧ size = octalValue (field h 124 12) ∨ type = .directory ∧ size = 0) := by
  rcases htype with rfl | rfl
  · obtain ⟨r, hr, hv⟩ := parseOctalField_spec (s := field h 124 12) 12 (by simp)
    unfold parseSize
    rw [hr]
    cases r with
    | none => exact ⟨_, rfl, nofun⟩
    | some v =>
      refine ⟨_, rfl, fun size hsize => ?_⟩
      split_ifs at hsize with hbig
      cases hsize
      exact ⟨Nat.not_lt.mp hbig, .inl ⟨rfl, hv v rfl⟩⟩
  · refine ⟨_, rfl, fun size hsize => ?_⟩
    cases hsize
    exact ⟨by decide, .inr ⟨rfl, rfl⟩⟩

lemma zero_mem_name {h : Header} (hlast : h 99 = 0) : 0 ∈ field h 0 100 := by
  simp only [field, mem_map, mem_range]
  exact ⟨99, by decide, by simpa using hlast⟩

lemma parseFile_spec (h : Header) (hchksum : octalValue (field h 148 8) = calculateChksum h) :
    ∃ r, parseFile h = some r ∧ ∀ p, r = .ok p → WellFormed h p := by
  unfold parseFile
  split_ifs with hlong
  · exact ⟨_, rfl, nofun⟩
  · have hlast : h 99 = 0 := not_not.mp (not_or.mp hlong).1
    cases htype : typeOf (h 156) with
    | none => exact ⟨_, rfl, nofun⟩
    | some type =>
      obtain ⟨r, hr, hsize⟩ := parseSize_spec h (typeOf_eq htype)
      simp only [hr]
      cases r with
      | error e => exact ⟨_, rfl, nofun⟩
      | ok size =>
        obtain ⟨q, hq, hzero, hclean, hrest⟩ :=
          stripAntisocialPrefixes_spec (zero_mem_name hlast)
        simp only [hq]
        refine ⟨_, rfl, fun p hp => ?_⟩
        cases hp
        obtain ⟨hmax, hvalue⟩ := hsize size rfl
        refine ⟨hvalue, hmax, hchksum, cstr q, rfl, hclean, ?_⟩
        have hlen : q.length ≤ 100 := by
          rcases hrest with rfl | hsuffix
          · decide
          · simpa using hsuffix.length_le
        have := cstr_length_lt hzero
        omega

lemma parseBody_spec (h : Header) :
    ∃ r, parseBody h = some r ∧ ∀ p, r = .ok p → WellFormed h p := by
  unfold parseBody
  obtain ⟨magic, hmagic⟩ := memcmpEq_isSome (p := field h 257 6)
    (s := [117, 115, 116, 97, 114, 0]) (by simp)
  rw [hmagic]
  cases magic with
  | false => exact ⟨_, rfl, nofun⟩
  | true =>
    dsimp only
    split_ifs with hversion
    · exact ⟨_, rfl, nofun⟩
    · obtain ⟨r, hr, hv⟩ := parseOctalField_spec (s := field h 148 8) 8 (by simp)
      rw [hr]
      cases r with
      | none => exact ⟨_, rfl, nofun⟩
      | some chksum =>
        dsimp only
        split_ifs with hsum
        · exact ⟨_, rfl, nofun⟩
        · exact parseFile_spec h ((hv chksum rfl).symm.trans (not_not.mp hsum))

/-- Every sector is parsed without a read outside it, and one accepted is zero or well formed. -/
theorem ustarParseHeader_safe (h : Header) :
    ∃ r, ustarParseHeader h = some r ∧ ∀ p, r = .ok p →
      (∀ i, h i = 0) ∧ p = ⟨none, .eof, 0⟩ ∨ WellFormed h p := by
  unfold ustarParseHeader
  rw [isAllZeros_eq (by simp)]
  by_cases hzero : ∀ b ∈ (field h 0 512).take 512, b = 0
  · rw [decide_eq_true hzero]
    refine ⟨_, rfl, fun p hp => .inl ⟨fun i => ?_, (Except.ok.inj hp).symm⟩⟩
    refine hzero (h i) ?_
    rw [take_of_length_le (by simp)]
    simp only [field, mem_map, mem_range]
    exact ⟨i.val, i.isLt, by simp⟩
  · rw [decide_eq_false hzero]
    obtain ⟨r, hr, hp⟩ := parseBody_spec h
    exact ⟨r, hr, fun p h => .inr (hp p h)⟩

end Pintos.Lib
