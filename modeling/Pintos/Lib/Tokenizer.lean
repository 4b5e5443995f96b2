import Pintos.Lib.Strtok

/-!
# A line taken apart by calls of `strtok_r` (lib/string.c)

The routine once more with the delimiters as a string in memory that `strchr` searches, with
`*save_ptr` and memory as a state that is kept from call to call, and with the addresses of
all bytes that are read. The first call is given the line and the others a null pointer.
-/

namespace Pintos.Lib

open List Nat

structure Tokenizer where
  mem : Bytes
  savePtr : Nat
  reads : List Nat

namespace Tokenizer

/-- The pointer that is returned, and the addresses of the bytes read. -/
def strchr (mem : Bytes) (c : UInt8) : Nat → Nat → Option (Option Nat × List Nat)
  | 0, _ => none
  | fuel + 1, string =>
      if mem string = c then some (some string, [string])
      else if mem string = 0 then some (none, [string])
      else (strchr mem c fuel (string + 1)).map fun r => (r.1, string :: r.2)

def skip (mem : Bytes) (bound delimiters : Nat) : Nat → Nat → Option (Nat × List Nat)
  | 0, _ => none
  | fuel + 1, s =>
      match strchr mem (mem s) bound delimiters with
      | none => none
      | some (some _, reads) =>
          if mem s = 0 then some (s, s :: reads)
          else (skip mem bound delimiters fuel (s + 1)).map fun r => (r.1, s :: (reads ++ r.2))
      | some (none, reads) => some (s, s :: reads)

def scan (mem : Bytes) (bound delimiters : Nat) : Nat → Nat → Option (Nat × List Nat)
  | 0, _ => none
  | fuel + 1, s =>
      match strchr mem (mem s) bound delimiters with
      | none => none
      | some (some _, reads) => some (s, s :: reads)
      | some (none, reads) =>
          (scan mem bound delimiters fuel (s + 1)).map fun r => (r.1, s :: (reads ++ r.2))

def strtokR (fuel delimiters : Nat) (t : Tokenizer) (s : Option Nat) :
    Option (Option Nat × Tokenizer) :=
  match skip t.mem fuel delimiters fuel (s.getD t.savePtr) with
  | none => none
  | some (token, skipped) =>
      if t.mem token = 0 then some (none, ⟨t.mem, token, skipped ++ t.reads⟩)
      else
        match scan t.mem fuel delimiters fuel token with
        | none => none
        | some (s, scanned) =>
            let reads := skipped ++ scanned ++ t.reads
            if t.mem s ≠ 0 then some (some token, ⟨Function.update t.mem s 0, s + 1, reads⟩)
            else some (some token, ⟨t.mem, s, reads⟩)

/-- The results of `n` calls, all but the first with a null pointer. -/
def calls (fuel delimiters : Nat) : Nat → Tokenizer → Option Nat →
    Option (List (Option Nat) × Tokenizer)
  | 0, t, _ => some ([], t)
  | n + 1, t, s =>
      (t.strtokR fuel delimiters s).bind fun r =>
        (calls fuel delimiters n r.2 none).map fun rest => (r.1 :: rest.1, rest.2)

end Tokenizer

/-! ## Bytes that are read -/

lemma StringAt.getElem? {mem : Bytes} {p j : Nat} {s : List UInt8} (h : StringAt mem p s)
    (hj : j < s.length) : s[j]? = some (mem (p + j)) := by
  induction s generalizing p j with
  | nil => cases hj
  | cons b s ih =>
    obtain ⟨-, hp, hs⟩ := h
    cases j with
    | zero => rw [Nat.add_zero, hp, getElem?_cons_zero]
    | succ j =>
      rw [getElem?_cons_succ, ih hs (Nat.lt_of_succ_lt_succ hj), Nat.add_right_comm]
      rfl

def InString (p : Nat) (s : List UInt8) (a : Nat) : Prop := p ≤ a ∧ a ≤ p + s.length

section Reads

variable {mem : Bytes} {d bound : Nat} {ds : List UInt8}

/-- `strchr` does not read past the end of its string. -/
lemma Tokenizer.strchr_finds (h : StringAt mem d ds) (c : UInt8) (hbound : ds.length < bound) :
    ∃ r reads, Tokenizer.strchr mem c bound d = some (r, reads) ∧ r.isSome = strchrFinds ds c ∧
      ∀ a ∈ reads, InString d ds a := by
  induction ds generalizing d bound with
  | nil =>
    cases bound with
    | zero => cases hbound
    | succ bound =>
      have hend : mem d = 0 := h
      have hreads : ∀ a ∈ [d], InString d [] a := by simp [InString]
      by_cases hc : c = 0
      · exact ⟨some d, [d], by rw [strchr, hend, if_pos hc.symm], by simp [strchrFinds, hc], hreads⟩
      · refine ⟨none, [d], ?_, by simp [strchrFinds, hc], hreads⟩
        rw [strchr, hend, if_neg (Ne.symm hc), if_pos rfl]
  | cons b ds ih =>
    cases bound with
    | zero => cases hbound
    | succ bound =>
      obtain ⟨hb, hmem, hrest⟩ := h
      by_cases hc : b = c
      · refine ⟨some d, [d], by rw [strchr, hmem, if_pos hc], by simp [strchrFinds, hc], ?_⟩
        simp [InString]
      · obtain ⟨r, reads, hrun, hr, hreads⟩ := ih hrest (lt_of_succ_lt_succ hbound)
        refine ⟨r, d :: reads, ?_, ?_, ?_⟩
        · rw [strchr, hmem, if_neg hc, if_neg hb, hrun]
          rfl
        · rw [hr]
          simp [strchrFinds, Ne.symm hc]
        · intro a ha
          rcases mem_cons.mp ha with rfl | ha
          · exact ⟨Nat.le_refl a, Nat.le_add_right a _⟩
          · have hin := hreads a ha
            unfold InString at hin ⊢
            rw [length_cons]
            omega

/-- The bytes read are those from `s` to `q` and those of the delimiters. -/
def ReadsWithin (d : Nat) (ds : List UInt8) (s q : Nat) (reads : List Nat) : Prop :=
  ∀ a ∈ reads, s ≤ a ∧ a ≤ q ∨ InString d ds a

variable {fuel s q : Nat} {reads more : List Nat}

lemma ReadsWithin.first (hreads : ∀ a ∈ reads, InString d ds a) (hq : s ≤ q) :
    ReadsWithin d ds s q (s :: reads) := by
  intro a ha
  rcases mem_cons.mp ha with rfl | ha
  · exact .inl ⟨Nat.le_refl a, hq⟩
  · exact .inr (hreads a ha)

lemma ReadsWithin.append {s' q' : Nat} (h : ReadsWithin d ds s q' reads)
    (h' : ReadsWithin d ds s' q more) (hs : s ≤ s') (hq : q' ≤ q) :
    ReadsWithin d ds s q (reads ++ more) := by
  intro a ha
  rcases mem_append.mp ha with ha | ha
  · exact (h a ha).imp_left fun hin => ⟨hin.1, Nat.le_trans hin.2 hq⟩
  · exact (h' a ha).imp_left fun hin => ⟨Nat.le_trans hs hin.1, hin.2⟩

lemma Tokenizer.skip_eq (h : StringAt mem d ds) (hbound : ds.length < bound)
    (hskip : strtokSkip ds mem fuel s = some q) :
    ∃ reads, Tokenizer.skip mem bound d fuel s = some (q, reads) ∧ s ≤ q ∧
      ReadsWithin d ds s q reads := by
  induction fuel generalizing s with
  | zero => cases hskip
  | succ fuel ih =>
    obtain ⟨r, reads, hrun, hr, hreads⟩ := strchr_finds h (mem s) hbound
    rw [strtokSkip, ← hr] at hskip
    rw [skip, hrun]
    cases r with
    | none =>
      cases hskip
      exact ⟨_, rfl, Nat.le_refl _, .first hreads (Nat.le_refl _)⟩
    | some r =>
      rw [Option.isSome_some, if_pos rfl] at hskip
      dsimp only
      by_cases hend : mem s = 0
      · rw [if_pos hend] at hskip ⊢
        cases hskip
        exact ⟨_, rfl, Nat.le_refl _, .first hreads (Nat.le_refl _)⟩
      · rw [if_neg hend] at hskip ⊢
        obtain ⟨more, hmore, hle, hall⟩ := ih hskip
        have hq := le_of_succ_le hle
        rw [hmore]
        exact ⟨_, rfl, hq, (ReadsWithin.first hreads hq).append hall (le_succ s) (Nat.le_refl q)⟩

lemma Tokenizer.scan_eq (h : StringAt mem d ds) (hbound : ds.length < bound)
    (hscan : strtokScan ds mem fuel s = some q) :
    ∃ reads, Tokenizer.scan mem bound d fuel s = some (q, reads) ∧ s ≤ q ∧
      ReadsWithin d ds s q reads := by
  induction fuel generalizing s with
  | zero => cases hscan
  | succ fuel ih =>
    obtain ⟨r, reads, hrun, hr, hreads⟩ := strchr_finds h (mem s) hbound
    rw [strtokScan, ← hr] at hscan
    rw [scan, hrun]
    cases r with
    | none =>
      rw [Option.isSome_none, if_neg Bool.false_ne_true] at hscan
      obtain ⟨more, hmore, hle, hall⟩ := ih hscan
      have hq := le_of_succ_le hle
      dsimp only
      rw [hmore]
      exact ⟨_, rfl, hq, (ReadsWithin.first hreads hq).append hall (Nat.le_succ s) (Nat.le_refl q)⟩
    | some r =>
      cases hscan
      exact ⟨_, rfl, Nat.le_refl _, .first hreads (Nat.le_refl _)⟩

/-- Apart from its reads the routine does what it does with a list of delimiters. -/
lemma Tokenizer.strtokR_eq {t : Tokenizer} {s token : Option Nat} {mem' : Bytes} {save : Nat}
    (h : StringAt t.mem d ds) (hfuel : ds.length < fuel)
    (hrun : Lib.strtokR ds fuel t.mem s t.savePtr = some (token, mem', save)) :
    ∃ reads, t.strtokR fuel d s = some (token, ⟨mem', save, reads ++ t.reads⟩) ∧
      ReadsWithin d ds (s.getD t.savePtr) save reads := by
  unfold Lib.strtokR at hrun
  unfold strtokR
  cases hskip : strtokSkip ds t.mem fuel (s.getD t.savePtr) with
  | none =>
    simp [hskip] at hrun
  | some first =>
    obtain ⟨skipped, hskip', hle, hskipped⟩ := skip_eq h hfuel hskip
    rw [hskip] at hrun
    rw [hskip']
    dsimp only at hrun ⊢
    by_cases hend : t.mem first = 0
    · rw [if_pos hend] at hrun ⊢
      cases hrun
      exact ⟨skipped, rfl, hskipped⟩
    · rw [if_neg hend] at hrun ⊢
      cases hscan : strtokScan ds t.mem fuel first with
      | none =>
        simp [hscan] at hrun
      | some last =>
        obtain ⟨scanned, hscan', hle', hscanned⟩ := scan_eq h hfuel hscan
        rw [hscan] at hrun
        rw [hscan']
        dsimp only at hrun ⊢
        have hreads := hskipped.append hscanned hle hle'
        by_cases hzero : t.mem last ≠ 0
        · rw [if_pos hzero] at hrun ⊢
          cases hrun
          refine ⟨skipped ++ scanned, rfl, fun a ha => ?_⟩
          exact (hreads a ha).imp_left fun hin => ⟨hin.1, le_succ_of_le hin.2⟩
        · rw [if_neg hzero] at hrun ⊢
          cases hrun
          exact ⟨skipped ++ scanned, rfl, hreads⟩

/-- The only byte that is written is the one before the new `*save_ptr`. -/
lemma strtokR_writes {s token : Option Nat} {mem' : Bytes} {savePtr save : Nat}
    (hrun : strtokR ds fuel mem s savePtr = some (token, mem', save)) {a : Nat}
    (ha : mem' a ≠ mem a) : a + 1 = save ∧ mem' a = 0 := by
  unfold strtokR at hrun
  split at hrun
  next => cases hrun
  next first _ =>
    split at hrun
    next =>
      cases hrun
      exact absurd rfl ha
    next =>
      split at hrun
      next => cases hrun
      next last _ =>
        split at hrun
        next =>
          cases hrun
          by_cases heq : a = last
          · rw [heq, Function.update_self]
            exact ⟨rfl, rfl⟩
          · exact absurd (Function.update_of_ne heq 0 mem) ha
        next =>
          cases hrun
          exact absurd rfl ha

end Reads

/-- The byte at position `k` is a delimiter if there is one. -/
def DelimiterAt (ds text : List UInt8) (k : Nat) : Prop := ∀ c ∈ text[k]?, c ∈ ds

/-- A maximal non-empty part without delimiters, from position `i` to before `j`. -/
structure IsToken (ds text : List UInt8) (i j : Nat) : Prop where
  nonempty : i < j
  free : ∀ k, i ≤ k → k < j → ¬ DelimiterAt ds text k
  left : ∀ k, k + 1 = i → DelimiterAt ds text k
  right : DelimiterAt ds text j

section Positions

variable {ds text : List UInt8} {k a b next : Nat}

lemma delimiterAt_of_length_le (h : text.length ≤ k) : DelimiterAt ds text k := by
  intro c hc
  simp [getElem?_eq_none h] at hc

/-- With delimiters from `k` to before `a` and none from `a` to before `b`, that is the only
token before `next`. -/
lemma isToken_iff_first (hleft : ∀ m, m + 1 = k → DelimiterAt ds text m)
    (hpre : ∀ m, k ≤ m → m < a → DelimiterAt ds text m) (hka : k ≤ a) (hab : a < b)
    (htok : ∀ m, a ≤ m → m < b → ¬ DelimiterAt ds text m) (hb : DelimiterAt ds text b)
    (hnext : b ≤ next ∧ next ≤ b + 1) (i j : Nat) :
    k ≤ i ∧ IsToken ds text i j ↔ (i, j) = (a, b) ∨ next ≤ i ∧ IsToken ds text i j := by
  rw [Prod.mk.injEq]
  constructor
  · rintro ⟨hki, h⟩
    have hi := h.free i (Nat.le_refl i) h.nonempty
    have hai : a ≤ i := Nat.le_of_not_lt fun hlt => hi (hpre i hki hlt)
    by_cases hbi : b ≤ i
    · have hne : b ≠ i := fun heq => hi (heq ▸ hb)
      exact .inr ⟨by omega, h⟩
    · -- a token that starts inside of this one would have a delimiter before it
      have heq : i = a := by
        by_contra hne
        exact htok (i - 1) (by omega) (by omega) (h.left (i - 1) (by omega))
      refine .inl ⟨heq, ?_⟩
      have hnonempty := h.nonempty
      by_contra hne
      rcases Nat.lt_or_gt_of_ne hne with hlt | hgt
      · exact htok j (by omega) hlt h.right
      · exact h.free b (by omega) hgt hb
  · rintro (⟨rfl, rfl⟩ | ⟨hle, h⟩)
    · refine ⟨hka, hab, htok, fun m hm => ?_, hb⟩
      by_cases hkm : k ≤ m
      · exact hpre m hkm (by omega)
      · exact hleft m (by omega)
    · exact ⟨by omega, h⟩

variable {xs ys : List UInt8} {m : Nat}

lemma getElem?_of_drop (h : text.drop k = xs ++ ys) (hle : k ≤ m) (hlt : m < k + xs.length) :
    text[m]? = xs[m - k]? := by
  have hm : text[m]? = (text.drop k)[m - k]? := by
    rw [getElem?_drop, Nat.add_sub_cancel' hle]
  rw [hm, h, getElem?_append_left (by omega)]

lemma delimiterAt_of_drop (h : text.drop k = xs ++ ys) (hxs : ∀ c ∈ xs, c ∈ ds) (hle : k ≤ m)
    (hlt : m < k + xs.length) : DelimiterAt ds text m := by
  intro c hc
  rw [getElem?_of_drop h hle hlt] at hc
  exact hxs c (mem_of_getElem? hc)

lemma not_delimiterAt_of_drop (h : text.drop k = xs ++ ys) (hxs : ∀ c ∈ xs, c ∉ ds)
    (hle : k ≤ m) (hlt : m < k + xs.length) : ¬ DelimiterAt ds text m := by
  intro hm
  have hget : text[m]? = some (xs.get ⟨m - k, by omega⟩) := by
    rw [getElem?_of_drop h hle hlt]
    exact getElem?_eq_getElem _
  exact hxs _ (get_mem xs _) (hm _ hget)

lemma not_isToken_of_blank (hblank : ∀ c ∈ text.drop k, c ∈ ds) {i j : Nat} (hki : k ≤ i) :
    ¬ IsToken ds text i j := by
  intro htok
  refine htok.free i (Nat.le_refl i) htok.nonempty ?_
  by_cases hi : i < text.length
  · have hall : text.drop k = text.drop k ++ [] := (append_nil _).symm
    have hlen : (text.drop k).length = text.length - k := length_drop
    exact delimiterAt_of_drop hall hblank hki (by omega)
  · exact delimiterAt_of_length_le (Nat.not_lt.mp hi)

lemma drop_of_append (h : text.drop k = xs ++ ys) : text.drop (k + xs.length) = ys := by
  rw [← drop_drop, h, drop_left]

end Positions

/-! ## Calls -/

namespace Tokenizer

variable {ds text : List UInt8} {p d fuel k : Nat} {t t' t'' : Tokenizer} {s : Option Nat}

/-- The next call starts at position `k` of the line. -/
structure StandsAt (p d : Nat) (ds text : List UInt8) (t : Tokenizer) (s : Option Nat)
    (k : Nat) : Prop where
  start : s.getD t.savePtr = p + k
  bound : k ≤ text.length
  rest : StringAt t.mem (p + k) (text.drop k)
  delimiters : StringAt t.mem d ds

/-- What calls that return the tokens at `spans` do to memory, and what they read. -/
structure Effects (p d : Nat) (ds text : List UInt8) (spans : List (Nat × Nat))
    (t t' : Tokenizer) : Prop where
  tokens : ∀ x ∈ spans, StringAt t'.mem (p + x.1) ((text.drop x.1).take (x.2 - x.1))
  writes : ∀ a, t'.mem a ≠ t.mem a → t'.mem a = 0 ∧ ∃ x ∈ spans, a = p + x.2 ∧ x.2 < text.length
  reads : ∀ a ∈ t'.reads, a ∈ t.reads ∨ InString p text a ∨ InString d ds a

lemma Effects.refl (p d : Nat) (ds text : List UInt8) (t : Tokenizer) :
    Effects p d ds text [] t t :=
  ⟨nofun, fun _ h => absurd rfl h, fun _ h => .inl h⟩

variable {spans : List (Nat × Nat)}

lemma Effects.trans {spans' : List (Nat × Nat)} (h : Effects p d ds text spans t t')
    (h' : Effects p d ds text spans' t' t'') (horder : ∀ x ∈ spans, x.1 ≤ x.2)
    (hbehind : ∀ x ∈ spans, ∀ y ∈ spans', x.2 < y.2) :
    Effects p d ds text (spans ++ spans') t t'' where
  tokens x hx := by
    rcases mem_append.mp hx with hx | hx
    · refine (h.tokens x hx).congr fun a hlo hhi => ?_
      have hlen := length_take_le (x.2 - x.1) (text.drop x.1)
      have hle := horder x hx
      by_contra hne
      obtain ⟨-, y, hy, rfl, -⟩ := h'.writes a hne
      have hlt := hbehind x hx y hy
      omega
    · exact h'.tokens x hx
  writes a ha := by
    by_cases hlast : t''.mem a = t'.mem a
    · rw [hlast] at ha ⊢
      obtain ⟨hzero, x, hx, hax⟩ := h.writes a ha
      exact ⟨hzero, x, mem_append_left _ hx, hax⟩
    · obtain ⟨hzero, x, hx, hax⟩ := h'.writes a hlast
      exact ⟨hzero, x, mem_append_right _ hx, hax⟩
  reads a ha := by
    rcases h'.reads a ha with ha | ha
    · exact h.reads a ha
    · exact .inr ha

lemma Effects.delimiters (h : Effects p d ds text spans t t')
    (hapart : d + ds.length < p ∨ p + text.length < d) (hd : StringAt t.mem d ds) :
    StringAt t'.mem d ds := by
  refine hd.congr fun a hlo hhi => ?_
  by_contra hne
  obtain ⟨-, x, -, rfl, hx⟩ := h.writes a hne
  omega

lemma reads_of_within {q : Nat} {reads : List Nat} (hq : q ≤ p + text.length)
    (h : ReadsWithin d ds (p + k) q reads) :
    ∀ a ∈ reads ++ t.reads, a ∈ t.reads ∨ InString p text a ∨ InString d ds a := by
  intro a ha
  rcases mem_append.mp ha with ha | ha
  · refine .inr ((h a ha).imp_left fun hin => ?_)
    unfold InString
    omega
  · exact .inl ha

lemma StandsAt.call_blank (h : StandsAt p d ds text t s k)
    (hblank : ∀ c ∈ text.drop k, c ∈ ds) (hfuel : text.length + ds.length < fuel) :
    ∃ t', t.strtokR fuel d s = some (none, t') ∧ StandsAt p d ds text t' none text.length ∧
      Effects p d ds text [] t t' := by
  have hbound := h.bound
  have hlen : (text.drop k).length = text.length - k := length_drop
  have hfuel' : (text.drop k).length < fuel := by omega
  have hrun := strtokR_blank s t.savePtr h.start h.rest hblank hfuel'
  obtain ⟨reads, hcall, hreads⟩ := strtokR_eq h.delimiters (by omega) hrun
  have hend : p + k + (text.drop k).length = p + text.length := by omega
  rw [hend] at hcall hreads
  rw [h.start] at hreads
  refine ⟨⟨t.mem, p + text.length, reads ++ t.reads⟩, hcall,
    ⟨rfl, Nat.le_refl _, ?_, h.delimiters⟩, nofun, fun _ hne => absurd rfl hne,
    reads_of_within (Nat.le_refl _) hreads⟩
  have hterm := h.rest.byte_end
  rw [hend] at hterm
  rwa [drop_length]

lemma StandsAt.call_token (h : StandsAt p d ds text t s k)
    (hapart : d + ds.length < p ∨ p + text.length < d) {pre token rest : List UInt8}
    (heq : text.drop k = pre ++ (token ++ rest)) (hpre : ∀ c ∈ pre, c ∈ ds) (hne : token ≠ [])
    (htok : ∀ c ∈ token, c ∉ ds) (hrest : ∀ c ∈ rest.head?, c ∈ ds)
    (hfuel : text.length + ds.length < fuel) :
    ∃ t', t.strtokR fuel d s = some (some (p + (k + pre.length)), t') ∧
      StandsAt p d ds text t' none (k + pre.length + token.length + (rest.take 1).length) ∧
      Effects p d ds text [(k + pre.length, k + pre.length + token.length)] t t' := by
  have hbound := h.bound
  have hlen : (text.drop k).length = text.length - k := length_drop
  have hparts := congrArg length heq
  simp only [length_append] at hparts
  have htake : (rest.take 1).length ≤ rest.length := length_take_le' 1 rest
  have hstring := h.rest
  rw [heq] at hstring
  have hfuel' : (pre ++ (token ++ rest)).length < fuel := by
    rw [← heq]
    omega
  obtain ⟨mem', hrun, htoken, hnext, hbefore⟩ :=
    strtokR_token s t.savePtr h.start hstring hpre hne htok hrest hfuel'
  obtain ⟨reads, hcall, hreads⟩ := strtokR_eq h.delimiters (by omega) hrun
  have hwrites := fun a => strtokR_writes (a := a) hrun
  simp only [Nat.add_assoc] at *
  rw [h.start] at hreads
  have hspan := drop_of_append heq
  have hbehind := drop_of_append hspan
  have heffects : Effects p d ds text [(k + pre.length, k + (pre.length + token.length))] t
      ⟨mem', p + (k + (pre.length + (token.length + (rest.take 1).length))),
        reads ++ t.reads⟩ := by
    refine ⟨fun x hx => ?_, fun a ha => ?_, reads_of_within (by omega) hreads⟩
    · rw [mem_singleton] at hx
      subst hx
      have htext : (text.drop (k + pre.length)).take
          (k + (pre.length + token.length) - (k + pre.length)) = token := by
        rw [hspan, take_append_of_le_length (by omega)]
        exact take_of_length_le (by omega)
      rwa [htext]
    · obtain ⟨hlast, hzero⟩ := hwrites a ha
      have hge : p + (k + (pre.length + token.length)) ≤ a :=
        Nat.le_of_not_lt fun hlt => ha (hbefore a hlt)
      refine ⟨hzero, _, mem_singleton_self _, ?_, ?_⟩
      · have hone := length_take_le 1 rest
        omega
      · omega
  have hleft : text.drop (k + (pre.length + (token.length + (rest.take 1).length))) =
      rest.drop 1 := by
    have hdrop : rest.drop (rest.take 1).length = rest.drop 1 := by
      cases rest with
      | nil => rfl
      | cons c rest => rfl
    rw [← hdrop, ← hbehind, drop_drop]
    simp only [Nat.add_assoc]
  refine ⟨_, hcall, ⟨rfl, by omega, ?_, heffects.delimiters hapart h.delimiters⟩, heffects⟩
  rwa [hleft]

/-- The pointers that `n` calls return: those to the tokens, then null pointers. -/
def results (p : Nat) (spans : List (Nat × Nat)) (n : Nat) : List (Option Nat) :=
  (spans.take n).map (fun x => some (p + x.1)) ++ List.replicate (n - spans.length) none

lemma results_nil (p n : Nat) : results p [] n = replicate n none := by
  rw [results, take_nil]
  rfl

lemma StandsAt.calls_blank (h : StandsAt p d ds text t s k)
    (hblank : ∀ c ∈ text.drop k, c ∈ ds) (hfuel : text.length + ds.length < fuel) (n : Nat) :
    ∃ t', calls fuel d n t s = some (results p [] n, t') ∧ Effects p d ds text [] t t' := by
  induction n generalizing t s k with
  | zero => exact ⟨t, rfl, .refl p d ds text t⟩
  | succ n ih =>
    obtain ⟨t₁, hcall, hstands, heffects⟩ := h.call_blank hblank hfuel
    have hnone : ∀ c ∈ text.drop text.length, c ∈ ds := by
      rw [drop_length]
      exact nofun
    obtain ⟨t', hrest, heffects'⟩ := ih hstands hnone
    refine ⟨t', ?_, heffects.trans heffects' nofun nofun⟩
    rw [calls, hcall, Option.bind_some, hrest, results_nil, results_nil]
    rfl

lemma StandsAt.calls_token (h : StandsAt p d ds text t s k)
    (hapart : d + ds.length < p ∨ p + text.length < d) {pre token rest : List UInt8}
    (heq : text.drop k = pre ++ (token ++ rest)) (hpre : ∀ c ∈ pre, c ∈ ds) (hne : token ≠ [])
    (htok : ∀ c ∈ token, c ∉ ds) (hrest : ∀ c ∈ rest.head?, c ∈ ds)
    (hfuel : text.length + ds.length < fuel)
    (hlater : ∀ y ∈ spans, k + pre.length + token.length < y.1 ∧ y.1 < y.2) (hcalls : ∀ n t s,
      StandsAt p d ds text t s (k + pre.length + token.length + (rest.take 1).length) →
      ∃ t', calls fuel d n t s = some (results p spans n, t') ∧
        Effects p d ds text (spans.take n) t t') (n : Nat) :
    ∃ t', calls fuel d n t s = some
        (results p ((k + pre.length, k + pre.length + token.length) :: spans) n, t') ∧
      Effects p d ds text
        (((k + pre.length, k + pre.length + token.length) :: spans).take n) t t' := by
  cases n with
  | zero =>
    refine ⟨t, ?_, .refl p d ds text t⟩
    rw [results, Nat.zero_sub]
    rfl
  | succ n =>
    obtain ⟨t₁, hcall, hstands, heffects⟩ := h.call_token hapart heq hpre hne htok hrest hfuel
    obtain ⟨t', hrun, heffects'⟩ := hcalls n t₁ none hstands
    refine ⟨t', ?_, heffects.trans heffects' ?_ ?_⟩
    · rw [calls, hcall, Option.bind_some, hrun, results, results, length_cons, succ_sub_succ]
      rfl
    · intro x hx
      rw [mem_singleton.mp hx]
      exact le_add_right _ _
    · intro x hx y hy
      rw [mem_singleton.mp hx]
      have hy' := hlater y (mem_of_mem_take hy)
      omega

/-- The tokens of the line from position `k` on are returned one after the other. -/
lemma calls_from (hapart : d + ds.length < p ∨ p + text.length < d)
    (hfuel : text.length + ds.length < fuel) (hk : k ≤ text.length)
    (hleft : k < text.length → ∀ m, m + 1 = k → DelimiterAt ds text m) :
    ∃ spans : List (Nat × Nat), (∀ i j, (i, j) ∈ spans ↔ k ≤ i ∧ IsToken ds text i j) ∧
      spans.Pairwise (fun x y => x.2 < y.1) ∧
      ∀ n t s, StandsAt p d ds text t s k →
        ∃ t', calls fuel d n t s = some (results p spans n, t') ∧
          Effects p d ds text (spans.take n) t t' := by
  -- every token makes what is left of the line shorter
  induction hn : text.length - k using Nat.strongRecOn generalizing k with
  | _ n ih =>
    cases hcut : cut ds (text.drop k) with
    | blank hblank =>
      refine ⟨[], fun i j => ⟨nofun, fun ⟨hki, htok⟩ => ?_⟩, .nil, fun n t s h => ?_⟩
      · exact absurd htok (not_isToken_of_blank hblank hki)
      · rw [take_nil]
        exact h.calls_blank hblank hfuel n
    | @token pre token rest heq hpre hne htok hrest =>
      have hlen := congrArg length heq
      simp only [length_drop, length_append] at hlen
      have hpos := length_pos_iff.mpr hne
      have htake : (rest.take 1).length = min 1 rest.length := length_take
      have hspan := drop_of_append heq
      have hbehind := drop_of_append hspan
      have hb : DelimiterAt ds text (k + pre.length + token.length) := by
        intro c hc
        refine hrest c ?_
        rwa [← hbehind, head?_drop]
      obtain ⟨spans, hspans, hpairwise, hcalls⟩ :=
        ih (text.length - (k + pre.length + token.length + (rest.take 1).length)) (by omega)
          (by omega) (fun hlt m hm => by
            obtain rfl : m = k + pre.length + token.length := by omega
            exact hb) rfl
      have hfirst := isToken_iff_first (hleft (by omega))
        (fun m => delimiterAt_of_drop heq hpre) (by omega) (by omega)
        (fun m => not_delimiterAt_of_drop hspan htok) hb
        (⟨by omega, by omega⟩ : k + pre.length + token.length ≤
          k + pre.length + token.length + (rest.take 1).length ∧ _)
      have hlater : ∀ y ∈ spans, k + pre.length + token.length < y.1 ∧ y.1 < y.2 := by
        intro y hy
        obtain ⟨hle, hyt⟩ := (hspans y.1 y.2).mp hy
        have hy1 := hyt.free y.1 (Nat.le_refl _) hyt.nonempty
        have hne : k + pre.length + token.length ≠ y.1 := fun h => hy1 (h ▸ hb)
        exact ⟨by omega, hyt.nonempty⟩
      refine ⟨(k + pre.length, k + pre.length + token.length) :: spans, fun i j => ?_,
        pairwise_cons.mpr ⟨fun y hy => (hlater y hy).1, hpairwise⟩, fun n t s h => ?_⟩
      · rw [mem_cons, hspans]
        exact (hfirst i j).symm
      · exact h.calls_token hapart heq hpre hne htok hrest hfuel hlater hcalls n

end Tokenizer

/-- The calls return the maximal parts without delimiters in order and then null pointers; nothing
is read behind the terminators, and only delimiters behind tokens become zero. -/
theorem tokenizer_exact {mem : Bytes} {p d : Nat} {text ds : List UInt8}
    (hline : StringAt mem p text) (hds : StringAt mem d ds)
    (hapart : d + ds.length < p ∨ p + text.length < d) {fuel : Nat}
    (hfuel : text.length + ds.length < fuel) :
    ∃ spans : List (Nat × Nat), (∀ i j, (i, j) ∈ spans ↔ IsToken ds text i j) ∧
      spans.Pairwise (fun x y => x.2 < y.1) ∧
      ∀ savePtr n, ∃ t, Tokenizer.calls fuel d n ⟨mem, savePtr, []⟩ (some p) = some
          ((spans.take n).map (fun x => some (p + x.1)) ++
            List.replicate (n - spans.length) none, t) ∧
        (∀ x ∈ spans.take n, StringAt t.mem (p + x.1) ((text.drop x.1).take (x.2 - x.1))) ∧
        (∀ a ∈ t.reads, p ≤ a ∧ a ≤ p + text.length ∨ d ≤ a ∧ a ≤ d + ds.length) ∧
        ∀ a, t.mem a ≠ mem a →
          t.mem a = 0 ∧ mem a ∈ ds ∧ ∃ x ∈ spans.take n, a = p + x.2 := by
  obtain ⟨spans, hspans, hpairwise, hcalls⟩ := Tokenizer.calls_from hapart hfuel
    (zero_le text.length) nofun
  refine ⟨spans, fun i j => ?_, hpairwise, fun savePtr n => ?_⟩
  · rw [hspans]
    exact and_iff_right (zero_le i)
  · obtain ⟨t, hrun, heffects⟩ :=
      hcalls n ⟨mem, savePtr, []⟩ (some p) ⟨rfl, zero_le _, hline, hds⟩
    refine ⟨t, hrun, heffects.tokens, fun a ha => ?_, fun a ha => ?_⟩
    · exact (heffects.reads a ha).resolve_left nofun
    · obtain ⟨hzero, x, hx, rfl, hlt⟩ := heffects.writes a ha
      have htok := (hspans x.1 x.2).mp (mem_of_mem_take hx)
      exact ⟨hzero, htok.2.right _ (hline.getElem? hlt), x, hx, rfl⟩

/-- `"a b"` behind the delimiter string `" "`. -/
theorem tokenizer_exact_pair :
    ∃ spans : List (Nat × Nat), (∀ i j, (i, j) ∈ spans ↔ IsToken [32] [97, 32, 98] i j) ∧
      ∃ t, Tokenizer.calls 5 0 3 ⟨fun a => [32, 0, 97, 32, 98].getD a 0, 0, []⟩ (some 2) = some
        ((spans.take 3).map (fun x => some (2 + x.1)) ++
          List.replicate (3 - spans.length) none, t) := by
  have hline : StringAt (fun a => [32, 0, 97, 32, 98].getD a 0) 2 [97, 32, 98] := by
    simp [StringAt]
  have hds : StringAt (fun a => [32, 0, 97, 32, 98].getD a 0) 0 [32] := by
    simp [StringAt]
  have hfuel : [97, 32, 98].length + [32].length < 5 := by decide
  obtain ⟨spans, hspans, -, hcalls⟩ := tokenizer_exact hline hds (by decide) hfuel
  obtain ⟨t, hrun, -⟩ := hcalls 0 3
  exact ⟨spans, hspans, t, hrun⟩

end Pintos.Lib
