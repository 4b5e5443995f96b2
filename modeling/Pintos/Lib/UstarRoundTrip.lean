import Pintos.Lib.UstarParse
import Mathlib.Algebra.Order.BigOperators.Group.List

/-!
# Archive headers are read back

`ustar_make_header` writes fields that do not overlap, and each is read back as it was
written: the name because stripping a stripped name changes nothing, the numbers because
`%o` and `parse_octal_field` are inverse, and the checksum because it does not depend on
its own field.
-/

namespace Pintos.Lib

open Foundation List Nat

variable {ofs ofs' len size value width : Nat} {bs : List UInt8}

lemma field_put_frame {cap : Nat} (hcap : bs.length ≤ cap)
    (h : ofs' + len ≤ ofs ∨ ofs + cap ≤ ofs') (hd : Header) :
    field (put ofs bs hd) ofs' len = field hd ofs' len := by
  unfold field
  refine map_congr_left fun k hk => ?_
  have hk := mem_range.mp hk
  split_ifs with hlt
  · unfold put
    rw [if_neg (by dsimp only; omega)]
  · rfl

lemma field_append (hd : Header) (ofs len len' : Nat) :
    field hd ofs (len + len') = field hd ofs len ++ field hd (ofs + len) len' := by
  simp only [field, range_add, map_append, map_map]
  congr 1
  refine map_congr_left fun k _ => ?_
  simp [add_assoc]

lemma field_put_self (ofs : Nat) (bs : List UInt8) (h : ofs + bs.length ≤ 512) (hd : Header) :
    field (put ofs bs hd) ofs bs.length = bs := by
  refine ext_getElem (by simp) fun k hk hk' => ?_
  have hlt : ofs + k < 512 := by omega
  simp only [field, getElem_map, getElem_range, dif_pos hlt, put]
  rw [if_pos (by omega)]
  simp [hk']

lemma byte_of_field {hd : Header} (h : field hd ofs len = bs) {k : Nat} (hk : k < len)
    (hlt : ofs + k < 512) : hd ⟨ofs + k, hlt⟩ = bs.getD k 0 := by
  simp [← h, field, hk, hlt]

lemma field_zero (ofs len : Nat) : field (fun _ => 0) ofs len = replicate len 0 := by
  simp [field, map_const']

lemma strlcpy_length_le (src : List UInt8) (h : 0 < size) : (strlcpy src size).length ≤ size := by
  simp only [strlcpy, length_append, length_take, length_singleton]
  omega

lemma snprintf_length_le (output : List UInt8) (size : Nat) :
    (snprintf size output).length ≤ size := by
  unfold snprintf
  split_ifs with h
  · simp
  · simp only [length_append, length_take, length_singleton]
    omega

lemma field_strlcpy_frame (src : List UInt8) (hsize : 0 < size)
    (h : ofs' + len ≤ ofs ∨ ofs + size ≤ ofs') (hd : Header) :
    field (put ofs (strlcpy src size) hd) ofs' len = field hd ofs' len :=
  field_put_frame (strlcpy_length_le src hsize) h hd

lemma field_snprintf_frame (output : List UInt8) (h : ofs' + len ≤ ofs ∨ ofs + size ≤ ofs')
    (hd : Header) : field (put ofs (snprintf size output) hd) ofs' len = field hd ofs' len :=
  field_put_frame (snprintf_length_le output size) h hd

lemma field_byte_frame (b : UInt8) (h : ofs' + len ≤ ofs ∨ ofs + 1 ≤ ofs') (hd : Header) :
    field (put ofs [b] hd) ofs' len = field hd ofs' len :=
  field_put_frame (le_refl 1) h hd

lemma field_bytes_frame (b c : UInt8) (h : ofs' + len ≤ ofs ∨ ofs + 2 ≤ ofs') (hd : Header) :
    field (put ofs [b, c] hd) ofs' len = field hd ofs' len :=
  field_put_frame (le_refl 2) h hd

lemma calculateChksum_put (h : bs.length ≤ 8) (hd : Header) :
    calculateChksum (put 148 bs hd) = calculateChksum hd := by
  unfold calculateChksum
  refine congrArg sum (map_congr_left fun i _ => ?_)
  split_ifs with hi
  · rfl
  · unfold put
    rw [if_neg (by omega)]

lemma calculateChksum_lt (hd : Header) : calculateChksum hd < 8 ^ 7 := by
  have hle : calculateChksum hd ≤ (finRange 512).length * 255 := by
    unfold calculateChksum
    rw [← length_map]
    refine sum_le_card_nsmul _ 255 fun x hx => ?_
    obtain ⟨i, -, rfl⟩ := mem_map.mp hx
    have := (hd i).toNat_lt
    split_ifs <;> omega
  rw [length_finRange] at hle
  omega

/-- The number that octal digits stand for, behind `value`. -/
def valueFrom (value : Nat) (ds : List Nat) : Nat := ds.foldl (fun v k => k + v * 8) value

lemma valueFrom_zero (ds : List Nat) : valueFrom 0 ds = ofDigits 8 ds.reverse := by
  rw [ofDigits_eq_foldr, foldr_reverse]
  simp only [valueFrom, mul_comm, cast_id]

lemma le_valueFrom (ds : List Nat) (value : Nat) : value ≤ valueFrom value ds := by
  induction ds generalizing value with
  | nil => exact le_refl value
  | cons k ds ih =>
    have := ih (k + value * 8)
    simp only [valueFrom, foldl_cons] at this ⊢
    omega

/-- Digits and a terminator are read as their number as long as it has 32 bits. -/
lemma parseOctalLoop_digits {ds : List Nat} (hds : ∀ k ∈ ds, k < 8)
    (hmax : valueFrom value ds < 4294967296) (hofs : 0 < ofs + ds.length) :
    parseOctalLoop (ds.length + 1) (ds.map octalDigit ++ [0]) ofs value =
      some (some (valueFrom value ds)) := by
  induction ds generalizing ofs value with
  | nil =>
    have hofs : 0 < ofs := hofs
    simp [parseOctalLoop, hofs, valueFrom]
  | cons k ds ih =>
    have hk := octalDigit_toNat (hds k mem_cons_self)
    have hlt := hds k mem_cons_self
    have hdigit : 48 ≤ octalDigit k ∧ octalDigit k ≤ 55 := by
      simp only [UInt8.le_iff_toNat_le, UInt8.toNat_ofNat, hk]
      omega
    have hle := le_valueFrom ds (k + value * 8)
    have hcons : valueFrom value (k :: ds) = valueFrom (k + value * 8) ds := rfl
    rw [hcons] at hmax ⊢
    have hguard : ¬ value > 4294967295 / 8 := by omega
    have hstep := octal_step hdigit hguard
    have hnum : (octalDigit k).toNat - 48 + value * 8 = k + value * 8 := by omega
    rw [length_cons, map_cons, cons_append, parseOctalLoop, if_pos hdigit,
      if_neg hguard, hstep, hnum]
    exact ih (fun j hj => hds j (mem_cons_of_mem k hj)) hmax (by omega)

lemma octal_length (hwidth : 0 < width) (h : value < 8 ^ width) (h64 : value < 2 ^ 64) :
    (octal width value).length = width := by
  obtain ⟨ds, hds, hlen, -, -⟩ := octal_eq hwidth h h64
  rw [hds, length_map, hlen]

lemma snprintf_octal (hwidth : 0 < width) (h : value < 8 ^ width) (h64 : value < 2 ^ 64) :
    snprintf (width + 1) (octal width value) = octal width value ++ [0] := by
  have hlen := octal_length hwidth h h64
  rw [snprintf, if_neg (Nat.succ_ne_zero width), Nat.add_sub_cancel,
    take_of_length_le (le_of_eq hlen)]

lemma parseOctalField_octal (hwidth : 0 < width) (h : value < 8 ^ width)
    (h32 : value < 4294967296) :
    parseOctalField (octal width value ++ [0]) (width + 1) = some (some value) := by
  obtain ⟨ds, hds, hlen, hlt, hvalue⟩ := octal_eq hwidth h (lt_trans h32 (by decide))
  have hsum : valueFrom 0 ds = value := (valueFrom_zero ds).trans hvalue
  rw [hds, ← hlen, parseOctalField, parseOctalLoop_digits hlt (by omega) (by omega), hsum]

/-! ## The header -/

def fullHeader (fileName : List UInt8) (type : UstarType) (size : Int) : Header :=
  put 148 (snprintf 8 (octal 7 (calculateChksum (fillHeader fileName type size))))
    (fillHeader fileName type size)

section FullHeader

variable {q : List UInt8} {type : UstarType} {size : Int}

lemma fullHeader_chksum :
    parseOctalField (field (fullHeader q type size) 148 8) 8 =
      some (some (calculateChksum (fullHeader q type size))) := by
  have hlt := calculateChksum_lt (fillHeader q type size)
  have hsum : calculateChksum (fullHeader q type size) = calculateChksum (fillHeader q type size) :=
    calculateChksum_put (snprintf_length_le _ 8) _
  have hbytes := snprintf_octal (by decide) hlt (lt_trans hlt (by decide))
  have hlen : (snprintf 8 (octal 7 (calculateChksum (fillHeader q type size)))).length = 8 := by
    rw [hbytes, length_append, octal_length (by decide) hlt (lt_trans hlt (by decide))]
    rfl
  have hfield := field_put_self 148
    (snprintf 8 (octal 7 (calculateChksum (fillHeader q type size))))
    (by rw [hlen]; decide) (fillHeader q type size)
  rw [hlen] at hfield
  rw [hsum, fullHeader, hfield, hbytes]
  exact parseOctalField_octal (by decide) hlt (lt_trans hlt (by decide))

lemma fullHeader_size (h0 : 0 ≤ size) (hmax : size ≤ 2147483647) :
    parseOctalField (field (fullHeader q type size) 124 12) 12 = some (some size.toNat) := by
  have hunsigned : unsignedOf size = size.toNat := by
    unfold unsignedOf
    omega
  have hlt : size.toNat < 8 ^ 11 := by
    have : (8 : Nat) ^ 11 = 8589934592 := by decide
    omega
  have hbytes := snprintf_octal (by decide) hlt (lt_trans hlt (by decide))
  have hlen : (snprintf 12 (octal 11 size.toNat)).length = 12 := by
    rw [hbytes, length_append, octal_length (by decide) hlt (lt_trans hlt (by decide))]
    rfl
  simp (disch := decide) only [fullHeader, fillHeader, hunsigned, field_strlcpy_frame,
    field_snprintf_frame, field_byte_frame, field_bytes_frame]
  have hfield := fun hd => field_put_self 124 (snprintf 12 (octal 11 size.toNat))
    (by rw [hlen]; decide) hd
  rw [hlen] at hfield
  rw [hfield, hbytes]
  exact parseOctalField_octal (by decide) hlt (by omega)

lemma fullHeader_magic : field (fullHeader q type size) 257 6 = [117, 115, 116, 97, 114, 0] := by
  simp (disch := decide) only [fullHeader, fillHeader, field_strlcpy_frame,
    field_snprintf_frame, field_bytes_frame]
  exact field_put_self 257 (strlcpy [117, 115, 116, 97, 114, 0] 6) (by decide) _

lemma fullHeader_version : fullHeader q type size 263 = 48 ∧ fullHeader q type size 264 = 48 := by
  have hfield : field (fullHeader q type size) 263 2 = [48, 48] := by
    simp (disch := decide) only [fullHeader, fillHeader, field_strlcpy_frame, field_snprintf_frame]
    exact field_put_self 263 [48, 48] (by decide) _
  have h0 := byte_of_field (k := 0) hfield (by decide) (by decide)
  have h1 := byte_of_field (k := 1) hfield (by decide) (by decide)
  exact ⟨h0, h1⟩

lemma fullHeader_type : fullHeader q type size 156 = type.byte := by
  have hfield : field (fullHeader q type size) 156 1 = [type.byte] := by
    simp (disch := decide) only [fullHeader, fillHeader, field_strlcpy_frame,
      field_snprintf_frame, field_bytes_frame]
    exact field_put_self 156 [type.byte] (by simp) _
  have h0 := byte_of_field (k := 0) hfield (by decide) (by decide)
  exact h0

lemma fullHeader_prefix : fullHeader q type size 345 = 0 := by
  have hfield : field (fullHeader q type size) 345 1 = [0] := by
    simp (disch := decide) only [fullHeader, fillHeader, field_strlcpy_frame,
      field_snprintf_frame, field_byte_frame, field_bytes_frame, field_zero]
    rfl
  have h0 := byte_of_field (k := 0) hfield (by decide) (by decide)
  exact h0

lemma fullHeader_name (hlen : (cstr q).length ≤ 99) :
    field (fullHeader q type size) 0 100 =
      cstr q ++ 0 :: replicate (99 - (cstr q).length) 0 := by
  have hbytes : strlcpy q 100 = cstr q ++ [0] := by
    rw [strlcpy, take_of_length_le hlen]
  have hlen' : (cstr q ++ [0]).length = (cstr q).length + 1 := by simp
  simp (disch := decide) only [fullHeader, fillHeader, field_strlcpy_frame,
    field_snprintf_frame, field_byte_frame, field_bytes_frame]
  rw [hbytes]
  calc field (put 0 (cstr q ++ [0]) fun _ => 0) 0 100 = field (put 0 (cstr q ++ [0]) fun _ => 0) 0
          ((cstr q ++ [0]).length + (99 - (cstr q).length)) := by
        congr 1
        omega
    _ = cstr q ++ [0] ++ replicate (99 - (cstr q).length) 0 := by
        rw [field_append, field_put_self _ _ (by omega),
          field_put_frame (le_refl _) (.inr (le_refl _)), field_zero]
    _ = cstr q ++ 0 :: replicate (99 - (cstr q).length) 0 := by simp

lemma fullHeader_last (hlen : (cstr q).length ≤ 99) : fullHeader q type size 99 = 0 := by
  have hname : field (fullHeader q type size) 0 100 = _ := fullHeader_name hlen
  have hbyte := byte_of_field (k := 99) hname (by decide) (by decide)
  have hzeros : (0 : UInt8) :: replicate (99 - (cstr q).length) 0 =
      replicate (100 - (cstr q).length) 0 := by
    rw [← replicate_succ]
    congr 1
    omega
  rw [hzeros, getD_eq_getElem?_getD, getElem?_append_right hlen] at hbyte
  refine hbyte.trans ?_
  rw [getElem?_replicate]
  split_ifs <;> rfl

lemma fullHeader_not_zero : isAllZeros (field (fullHeader q type size) 0 512) 512 = some false := by
  rw [isAllZeros_eq (by simp), Option.some.injEq, decide_eq_false_iff_not]
  intro hzero
  have hmem : fullHeader q type size 263 ∈ (field (fullHeader q type size) 0 512).take 512 := by
    rw [take_of_length_le (by simp)]
    simp only [field, mem_map, mem_range]
    exact ⟨263, by decide, by simp⟩
  have h48 := fullHeader_version.1.symm.trans (hzero _ hmem)
  exact absurd h48 (by decide)

lemma fullHeader_parseSize (htype : type ≠ .eof) (h0 : 0 ≤ size) (hmax : size ≤ 2147483647) :
    parseSize (fullHeader q type size) type =
      some (.ok (if type = .regular then size.toNat else 0)) := by
  cases type with
  | regular =>
    have hbound : ¬ size.toNat > 2147483647 := by omega
    simp only [parseSize, fullHeader_size h0 hmax, if_neg hbound, if_true]
  | directory => rfl
  | eof => exact absurd rfl htype

lemma typeOf_byte (htype : type ≠ .eof) : typeOf type.byte = some type := by
  cases type with
  | regular => rfl
  | directory => rfl
  | eof => exact absurd rfl htype

lemma ustarParseHeader_fullHeader (hq : Clean (cstr q)) (hlen : (cstr q).length ≤ 99)
    (htype : type ≠ .eof) (h0 : 0 ≤ size) (hmax : size ≤ 2147483647) :
    ustarParseHeader (fullHeader q type size) =
      some (.ok ⟨some (cstr q), type, if type = .regular then size.toNat else 0⟩) := by
  have hcstr := cstr_append_zero (zero_not_mem_cstr q) (replicate (99 - (cstr q).length) 0)
  have hstrip : stripAntisocialPrefixes (field (fullHeader q type size) 0 100) =
      some (cstr q ++ 0 :: replicate (99 - (cstr q).length) 0) := by
    rw [fullHeader_name hlen]
    exact stripAntisocialPrefixes_of_clean (by simp) (hcstr.symm ▸ hq)
  have hfile : parseFile (fullHeader q type size) =
      some (.ok ⟨some (cstr q), type, if type = .regular then size.toNat else 0⟩) := by
    unfold parseFile
    rw [if_neg (by simp [fullHeader_last hlen, fullHeader_prefix]), fullHeader_type,
      typeOf_byte htype]
    simp only [fullHeader_parseSize htype h0 hmax, hstrip, hcstr]
  unfold ustarParseHeader
  rw [fullHeader_not_zero]
  unfold parseBody
  rw [fullHeader_magic]
  simp only [memcmpEq, if_true]
  rw [if_neg (by simp [fullHeader_version])]
  simp only [fullHeader_chksum, ne_eq, not_true_eq_false, if_false]
  exact hfile

end FullHeader

lemma ustarMakeHeader_eq {fileName q : List UInt8}
    (hq : stripAntisocialPrefixes fileName = some q) (type : UstarType) (size : Int) :
    ustarMakeHeader fileName type size =
      if (cstr q).length > 99 then some none else some (some (fullHeader q type size)) := by
  unfold ustarMakeHeader
  rw [hq]
  rfl

/-- A header is made for every name short enough after stripping, and read back with its type and
size; for any other name none is made. -/
theorem ustarParseHeader_ustarMakeHeader (fileName : List UInt8) (hname : 0 ∈ fileName)
    (type : UstarType) (htype : type = .regular ∨ type = .directory) (size : Int)
    (h0 : 0 ≤ size) (hmax : size ≤ 2147483647) :
    ∃ q, stripAntisocialPrefixes fileName = some q ∧
      ((cstr q).length ≤ 99 → ∃ h, ustarMakeHeader fileName type size = some (some h) ∧
        ustarParseHeader h =
          some (.ok ⟨some (cstr q), type, if type = .regular then size.toNat else 0⟩)) ∧
      ((cstr q).length > 99 → ustarMakeHeader fileName type size = some none) := by
  obtain ⟨q, hq, -, hclean, -⟩ := stripAntisocialPrefixes_spec hname
  have hne : type ≠ .eof := by
    rcases htype with rfl | rfl <;> decide
  refine ⟨q, hq, fun hlen => ⟨fullHeader q type size, ?_, ?_⟩, fun hlen => ?_⟩
  · rw [ustarMakeHeader_eq hq, if_neg (not_lt.mpr hlen)]
  · exact ustarParseHeader_fullHeader hclean hlen hne h0 hmax
  · rw [ustarMakeHeader_eq hq, if_pos hlen]

/-- The name `../a` is read back as `a`. -/
theorem ustarParseHeader_ustarMakeHeader_parent :
    ∃ h, ustarMakeHeader [46, 46, 47, 97, 0] .regular 1000 = some (some h) ∧
      ustarParseHeader h = some (.ok ⟨some [97], .regular, 1000⟩) := by
  obtain ⟨q, hq, hmake, -⟩ := ustarParseHeader_ustarMakeHeader [46, 46, 47, 97, 0] (by decide)
    .regular (.inl rfl) 1000 (by decide) (by decide)
  have hq' : q = [97, 0] := by
    have : stripAntisocialPrefixes [46, 46, 47, 97, 0] = some [97, 0] := by decide
    exact Option.some.inj (hq.symm.trans this)
  subst hq'
  exact hmake (by decide)

end Pintos.Lib
