import Mathlib.Data.List.Basic

/-! # Strings and `strtok_r` (lib/string.c)

Strings are bytes of memory up to the first zero byte. `strtok_r` walks over memory and
writes a zero behind each token it finds; its loops are bounded by `fuel`. A null pointer is
`none`.
-/

namespace Pintos.Lib

open Function List

abbrev Bytes := Nat → UInt8

/-- A C string: `s` without its terminator is at address `p`. -/
def StringAt (mem : Bytes) : Nat → List UInt8 → Prop
  | p, [] => mem p = 0
  | p, b :: s => b ≠ 0 ∧ mem p = b ∧ StringAt mem (p + 1) s

namespace StringAt

variable {mem mem' : Bytes} {p : Nat} {s s' : List UInt8}

lemma congr (h : StringAt mem p s)
    (heq : ∀ a, p ≤ a → a ≤ p + s.length → mem' a = mem a) : StringAt mem' p s := by
  induction s generalizing p with
  | nil =>
    show mem' p = 0
    rwa [heq p (Nat.le_refl p) (Nat.le_add_right p _)]
  | cons b s ih =>
    obtain ⟨hb, hp, hs⟩ := h
    refine ⟨hb, ?_, ih hs fun a hle hlt => heq a (by omega) ?_⟩
    · rw [heq p (Nat.le_refl p) (Nat.le_add_right p _), hp]
    · simp only [length_cons]
      omega

lemma append (h : StringAt mem p (s ++ s')) : StringAt mem (p + s.length) s' := by
  induction s generalizing p with
  | nil => exact h
  | cons b s ih =>
    have hrest := ih h.2.2
    rwa [length_cons, Nat.add_comm s.length 1, ← Nat.add_assoc]

lemma byte_end (h : StringAt mem p s) : mem (p + s.length) = 0 := by
  have hend : StringAt mem p (s ++ []) := by rwa [append_nil]
  exact hend.append

lemma cut (h : StringAt mem p (s ++ s')) : StringAt (update mem (p + s.length) 0) p s := by
  induction s generalizing p with
  | nil => exact update_self p 0 mem
  | cons b s ih =>
    obtain ⟨hb, hp, hs⟩ := h
    refine ⟨hb, ?_, ?_⟩
    · rw [update_of_ne (by simp only [length_cons]; omega), hp]
    · have hcut := ih hs
      rwa [Nat.add_right_comm, Nat.add_assoc] at hcut

lemma getD (pre : List UInt8) (hs : ∀ b ∈ s, b ≠ 0) :
    StringAt (fun p => (pre ++ s).getD p 0) pre.length s := by
  induction s generalizing pre with
  | nil => simp [StringAt]
  | cons b s ih =>
    refine ⟨hs b mem_cons_self, by simp, ?_⟩
    have hrest := ih (pre ++ [b]) fun c hc => hs c (mem_cons_of_mem b hc)
    simpa using hrest

end StringAt

/-- `strchr (delimiters, c) != NULL`; the terminator of the delimiters counts. -/
def strchrFinds (delimiters : List UInt8) (c : UInt8) : Bool := c == 0 || delimiters.contains c

/-- The loop over delimiters: the first other byte, or the end of the string. -/
def strtokSkip (delimiters : List UInt8) (mem : Bytes) : Nat → Nat → Option Nat
  | 0, _ => none
  | fuel + 1, s =>
      if strchrFinds delimiters (mem s) then
        if mem s = 0 then some s else strtokSkip delimiters mem fuel (s + 1)
      else some s

def strtokScan (delimiters : List UInt8) (mem : Bytes) : Nat → Nat → Option Nat
  | 0, _ => none
  | fuel + 1, s =>
      if strchrFinds delimiters (mem s) then some s else strtokScan delimiters mem fuel (s + 1)

def strtokR (delimiters : List UInt8) (fuel : Nat) (mem : Bytes) (s : Option Nat)
    (savePtr : Nat) : Option (Option Nat × Bytes × Nat) :=
  match strtokSkip delimiters mem fuel (s.getD savePtr) with
  | none => none
  | some token =>
      if mem token = 0 then some (none, mem, token)
      else
        match strtokScan delimiters mem fuel token with
        | none => none
        | some s =>
            if mem s ≠ 0 then some (some token, Function.update mem s 0, s + 1)
            else some (some token, mem, s)

/-- The maximal non-empty parts of a line without delimiters. -/
def words (delimiters : List UInt8) (line : List UInt8) : List (List UInt8) :=
  (line.splitOnP fun c => delimiters.contains c).filter fun w => !w.isEmpty

section Words

variable {delimiters line : List UInt8}

lemma words_delimiter {d : UInt8} (hd : d ∈ delimiters) (line : List UInt8) :
    words delimiters (d :: line) = words delimiters line := by
  unfold words
  rw [splitOnP_cons_eq_if_modifyHead, if_pos (contains_iff_mem.mpr hd)]
  rfl

variable {pre : List UInt8}

lemma words_delimiters (hpre : ∀ d ∈ pre, d ∈ delimiters) (line : List UInt8) :
    words delimiters (pre ++ line) = words delimiters line := by
  induction pre with
  | nil => rfl
  | cons d pre ih =>
    rw [cons_append, words_delimiter (hpre d mem_cons_self),
      ih fun c hc => hpre c (mem_cons_of_mem d hc)]

lemma words_token {token rest : List UInt8} (hpre : ∀ d ∈ pre, d ∈ delimiters)
    (hne : token ≠ []) (htok : ∀ c ∈ token, c ∉ delimiters)
    (hrest : ∀ d ∈ rest.head?, d ∈ delimiters) :
    words delimiters (pre ++ (token ++ rest)) = token :: words delimiters (rest.drop 1) := by
  have hno : ∀ c ∈ token, delimiters.contains c = false := by
    intro c hc
    simpa using htok c hc
  have hkeep : (!token.isEmpty) = true := by
    simpa using hne
  rw [words_delimiters hpre]
  unfold words
  cases rest with
  | nil =>
    rw [append_nil, splitOnP_eq_singleton hno, filter_cons, if_pos hkeep]
    rfl
  | cons d rest =>
    rw [splitOnP_append_cons_of_forall_mem hno d (contains_iff_mem.mpr (hrest d rfl)),
      filter_cons, if_pos hkeep]
    rfl

/-- A line is delimiters only, or it has a first token with a delimiter or nothing behind
it. -/
inductive Cut (delimiters line : List UInt8) : Prop
  | blank (hline : ∀ d ∈ line, d ∈ delimiters)
  | token {pre token rest : List UInt8} (heq : line = pre ++ (token ++ rest))
      (hpre : ∀ d ∈ pre, d ∈ delimiters) (hne : token ≠ []) (htok : ∀ c ∈ token, c ∉ delimiters)
      (hrest : ∀ d ∈ rest.head?, d ∈ delimiters)

lemma exists_span (q : UInt8 → Prop) (l : List UInt8) :
    ∃ xs ys, l = xs ++ ys ∧ (∀ x ∈ xs, q x) ∧ ∀ y ∈ ys.head?, ¬ q y := by
  induction l with
  | nil => exact ⟨[], [], rfl, nofun, nofun⟩
  | cons c l ih =>
    by_cases hc : q c
    · obtain ⟨xs, ys, rfl, hxs, hys⟩ := ih
      exact ⟨c :: xs, ys, rfl, forall_mem_cons.mpr ⟨hc, hxs⟩, hys⟩
    · refine ⟨[], c :: l, rfl, nofun, ?_⟩
      rintro y ⟨⟩
      exact hc

lemma cut (delimiters line : List UInt8) : Cut delimiters line := by
  obtain ⟨pre, tokens, heq, hpre, hhead⟩ := exists_span (· ∈ delimiters) line
  obtain ⟨token, rest, hsplit, htok, hrest⟩ := exists_span (· ∉ delimiters) tokens
  cases tokens with
  | nil =>
    rw [append_nil] at heq
    exact .blank (heq ▸ hpre)
  | cons c cs =>
    have hne : token ≠ [] := by
      rintro rfl
      rw [nil_append] at hsplit
      rw [← hsplit] at hrest
      exact hrest c rfl (hhead c rfl)
    rw [hsplit] at heq
    exact .token heq hpre hne htok fun d hd => not_not.mp (hrest d hd)

end Words

section Spec

variable {delimiters : List UInt8} {mem : Bytes} {p fuel : Nat} {c : UInt8}
  {pre line token : List UInt8}

lemma strchrFinds_of_mem (h : c ∈ delimiters) : strchrFinds delimiters c = true := by
  simp [strchrFinds, h]

lemma strchrFinds_of_not_mem (h : c ∉ delimiters) (hc : c ≠ 0) :
    strchrFinds delimiters c = false := by
  simp [strchrFinds, h, hc]

lemma strtokSkip_delimiters (h : StringAt mem p (pre ++ line)) (hpre : ∀ d ∈ pre, d ∈ delimiters) :
    strtokSkip delimiters mem (pre.length + fuel) p =
      strtokSkip delimiters mem fuel (p + pre.length) := by
  induction pre generalizing p with
  | nil => rw [length_nil, Nat.zero_add, Nat.add_zero]
  | cons d pre ih =>
    obtain ⟨hd, hp, hrest⟩ := h
    have hfuel : (d :: pre).length + fuel = (pre.length + fuel) + 1 := by
      simp only [length_cons]
      omega
    rw [hfuel, strtokSkip, hp, if_pos (strchrFinds_of_mem (hpre d mem_cons_self)), if_neg hd,
      ih hrest fun c hc => hpre c (mem_cons_of_mem d hc), length_cons,
      Nat.add_assoc, Nat.add_comm 1]

lemma strtokScan_token (h : StringAt mem p (token ++ line)) (htok : ∀ c ∈ token, c ∉ delimiters)
    (hline : ∀ d ∈ line.head?, d ∈ delimiters) :
    strtokScan delimiters mem (token.length + (fuel + 1)) p = some (p + token.length) := by
  induction token generalizing p with
  | nil =>
    have hend : strchrFinds delimiters (mem p) = true := by
      cases line with
      | nil =>
        have hp : mem p = 0 := h
        rw [hp]
        rfl
      | cons d line =>
        have hp : mem p = d := h.2.1
        rw [hp]
        exact strchrFinds_of_mem (hline d rfl)
    rw [length_nil, Nat.zero_add, strtokScan, if_pos hend, Nat.add_zero]
  | cons c token ih =>
    obtain ⟨hc, hp, hrest⟩ := h
    have hfuel : (c :: token).length + (fuel + 1) = (token.length + (fuel + 1)) + 1 := by
      simp only [length_cons]
      omega
    have hno : strchrFinds delimiters c = false :=
      strchrFinds_of_not_mem (htok c mem_cons_self) hc
    rw [hfuel, strtokScan, hp, hno, if_neg Bool.false_ne_true,
      ih hrest fun b hb => htok b (mem_cons_of_mem c hb), length_cons,
      Nat.add_assoc, Nat.add_comm 1]

/-- On a string of delimiters `strtok_r` returns a null pointer. -/
lemma strtokR_blank (s : Option Nat) (savePtr : Nat) (hs : s.getD savePtr = p)
    (h : StringAt mem p line) (hline : ∀ d ∈ line, d ∈ delimiters) (hfuel : line.length < fuel) :
    strtokR delimiters fuel mem s savePtr = some (none, mem, p + line.length) := by
  obtain ⟨k, rfl⟩ : ∃ k, fuel = line.length + (k + 1) := ⟨fuel - line.length - 1, by omega⟩
  have hend := h.byte_end
  have hskip : strtokSkip delimiters mem (line.length + (k + 1)) p = some (p + line.length) := by
    have hnil : StringAt mem p (line ++ []) := by rwa [append_nil]
    rw [strtokSkip_delimiters hnil hline, strtokSkip, hend]
    rfl
  unfold strtokR
  rw [hs, hskip]
  dsimp only
  rw [if_pos hend]

lemma strtokR_token (s : Option Nat) (savePtr : Nat) (hs : s.getD savePtr = p)
    (h : StringAt mem p (pre ++ (token ++ line))) (hpre : ∀ d ∈ pre, d ∈ delimiters)
    (hne : token ≠ []) (htok : ∀ c ∈ token, c ∉ delimiters)
    (hline : ∀ d ∈ line.head?, d ∈ delimiters) (hfuel : (pre ++ (token ++ line)).length < fuel) :
    ∃ mem', strtokR delimiters fuel mem s savePtr =
        some (some (p + pre.length), mem', p + pre.length + token.length + (line.take 1).length) ∧
      StringAt mem' (p + pre.length) token ∧
      StringAt mem' (p + pre.length + token.length + (line.take 1).length) (line.drop 1) ∧
      ∀ a, a < p + pre.length + token.length → mem' a = mem a := by
  obtain ⟨c, cs, rfl⟩ := exists_cons_of_ne_nil hne
  have htoken := h.append
  have hrest := htoken.append
  have hc : mem (p + pre.length) = c := htoken.2.1
  have hskip : strtokSkip delimiters mem fuel p = some (p + pre.length) := by
    obtain ⟨k, rfl⟩ : ∃ k, fuel = pre.length + (k + 1) := by
      rw [length_append] at hfuel
      exact ⟨fuel - pre.length - 1, by omega⟩
    rw [strtokSkip_delimiters h hpre, strtokSkip, hc,
      strchrFinds_of_not_mem (htok c mem_cons_self) htoken.1, if_neg Bool.false_ne_true]
  have hscan : strtokScan delimiters mem fuel (p + pre.length) =
      some (p + pre.length + (c :: cs).length) := by
    obtain ⟨k, rfl⟩ : ∃ k, fuel = (c :: cs).length + (k + 1) := by
      rw [length_append, length_append] at hfuel
      exact ⟨fuel - (c :: cs).length - 1, by omega⟩
    exact strtokScan_token htoken htok hline
  unfold strtokR
  rw [hs, hskip]
  dsimp only
  rw [hc, if_neg htoken.1, hscan]
  dsimp only
  cases line with
  | nil =>
    rw [append_nil] at htoken
    have hzero : mem (p + pre.length + (c :: cs).length) = 0 := hrest
    exact ⟨mem, if_neg (not_not.mpr hzero), htoken, hrest, fun a _ => rfl⟩
  | cons d line =>
    obtain ⟨hd, hmem, hline'⟩ := hrest
    refine ⟨_, by rw [hmem, if_pos hd]; rfl, htoken.cut, ?_, ?_⟩
    · refine hline'.congr fun a hle _ => update_of_ne ?_ _ _
      omega
    · intro a ha
      exact update_of_ne (Nat.ne_of_lt ha) _ _

end Spec

end Pintos.Lib
