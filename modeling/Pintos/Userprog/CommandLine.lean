import Pintos.Lib.Strtok

/-! # The command line (userprog/process.c)

`parse_cmd_args` cuts the command line into its arguments. `load` gives it an array with
room for `MAX_ARGS` pointers; when there are more arguments the array is reallocated, but
only the callee learns where the new one is.
-/

namespace Pintos.Userprog

open Lib Function List Option

/-- An array of pointers: how many there is room for, and what the slots hold. -/
structure PtrArray where
  length : Nat
  slot : Nat → Option Nat

/-- Memory with the command line, the arrays, `MAX_ARGS`, and the answers of `malloc`. -/
structure Parser where
  mem : Bytes
  heap : Nat → Option PtrArray
  maxArgs : Nat
  answers : List (Option Nat)

structure Parsed where
  state : Parser
  argv : Option Nat
  argc : Nat

namespace Parser

/-- `argv[i] = p`; there is no result if the array is not there or too short. -/
def store (s : Parser) (argv : Option Nat) (i : Nat) (p : Option Nat) : Option Parser :=
  match argv with
  | none => none
  | some a =>
      match s.heap a with
      | none => none
      | some b =>
          if i < b.length then
            some { s with
              heap := Function.update s.heap a
                (some { b with slot := Function.update b.slot i p }) }
          else none

/-- `realloc (argv, MAX_ARGS * sizeof (char *))`: a fresh array, and the old one is freed. -/
def realloc (s : Parser) (argv : Option Nat) : Option (Parser × Option Nat) :=
  let s' := { s with answers := s.answers.tail }
  match s.answers.headD none with
  | none => some (s', none)
  | some a =>
      match s.heap a, argv with
      | some _, _ => none
      | none, none =>
          some ({ s' with heap := Function.update s.heap a (some ⟨s.maxArgs, fun _ => none⟩) },
            some a)
      | none, some old =>
          let slot := fun i => (s.heap old).bind fun b => if i < b.length then b.slot i else none
          some ({ s' with
            heap := Function.update (Function.update s.heap a (some ⟨s.maxArgs, slot⟩)) old none },
            some a)

/-- The body of the loop: the array is made longer if it is full, and the token added. -/
def push (s : Parser) (argv : Option Nat) (argc token : Nat) : Option (Parser × Option Nat) :=
  let grown :=
    if argc ≥ s.maxArgs then { s with maxArgs := s.maxArgs * 2 }.realloc argv
    else some (s, argv)
  match grown with
  | none => none
  | some (s, argv) => (s.store argv argc (some token)).map fun s => (s, argv)

def delimiters : List UInt8 := [32]

def parseLoop (bound : Nat) : Nat → Parser → Option Nat → Nat → Nat → Option Parsed
  | 0, _, _, _, _ => none
  | fuel + 1, s, argv, argc, savePt =>
      match strtokR delimiters bound s.mem none savePt with
      | none => none
      | some (none, mem, _) => some ⟨{ s with mem := mem }, argv, argc⟩
      | some (some token, mem, savePt) =>
          match { s with mem := mem }.push argv argc token with
          | none => none
          | some (s, argv) => parseLoop bound fuel s argv (argc + 1) savePt

def parseCmdArgs (fuel : Nat) (s : Parser) (cmdLine : Nat) (argv : Option Nat) :
    Option Parsed :=
  match strtokR delimiters fuel s.mem (some cmdLine) 0 with
  | none => none
  | some (token, mem, savePt) =>
      match { s with mem := mem }.store argv 0 token with
      | none => none
      | some s => parseLoop fuel fuel s argv 1 savePt

/-! ## What has been stored -/

/-- The array at `a` points to the words in order, and they end by `limit`. -/
def Stores (s : Parser) (a limit : Nat) (ws : List (List UInt8)) : Prop :=
  ∃ b, s.heap a = some b ∧ b.length = s.maxArgs ∧
    ∀ i w, ws[i]? = some w → ∃ p, b.slot i = some p ∧ StringAt s.mem p w ∧
      p + w.length ≤ limit

/-- Between two rounds. The caller's array is the present one or no longer allocated. -/
structure Filled (s : Parser) (caller a savePt : Nat) (ws : List (List UInt8)) : Prop where
  stores : s.Stores a savePt ws
  fits : ws.length ≤ s.maxArgs
  kept : a = caller ∨ s.heap caller = none

variable {s s' : Parser} {caller a savePt : Nat} {ws : List (List UInt8)} {w : List UInt8}

lemma Filled.setMem (h : s.Filled caller a savePt ws) {mem : Bytes} {savePt' : Nat}
    (hmem : ∀ p, p ≤ savePt → mem p = s.mem p) (hle : savePt ≤ savePt') :
    { s with mem := mem }.Filled caller a savePt' ws := by
  obtain ⟨⟨b, hb, hlen, hslots⟩, hfits, hkept⟩ := h
  refine ⟨⟨b, hb, hlen, fun i w hw => ?_⟩, hfits, hkept⟩
  obtain ⟨p, hp, hstr, hend⟩ := hslots i w hw
  exact ⟨p, hp, hstr.congr fun x _ hx => hmem x (by omega), by omega⟩

lemma getElem?_concat {i : Nat} {x : List UInt8} (h : (ws ++ [w])[i]? = some x) :
    i < ws.length ∧ ws[i]? = some x ∨ i = ws.length ∧ x = w := by
  by_cases hi : i < ws.length
  · rw [getElem?_append_left hi] at h
    exact .inl ⟨hi, h⟩
  · rw [getElem?_append_right (by omega), getElem?_singleton] at h
    split at h
    next hz =>
      cases h
      exact .inr ⟨by omega, rfl⟩
    next => cases h

variable {p fuel : Nat} {line : List UInt8}

lemma Stores.store (h : s.Stores a savePt ws) (hroom : ws.length < s.maxArgs)
    (hw : StringAt s.mem p w) (hp : p + w.length ≤ savePt) :
    ∃ s', s.store (some a) ws.length (some p) = some s' ∧ s'.Stores a savePt (ws ++ [w]) ∧
      s'.mem = s.mem ∧ s'.maxArgs = s.maxArgs ∧ ∀ x, x ≠ a → s'.heap x = s.heap x := by
  obtain ⟨b, hb, hlen, hslots⟩ := h
  have hstore : s.store (some a) ws.length (some p) = some { s with
      heap := update s.heap a
        (some { b with slot := update b.slot ws.length (some p) }) } := by
    simp only [Parser.store, hb, hlen, if_pos hroom]
  refine ⟨_, hstore, ?_, rfl, rfl, ?_⟩
  · refine ⟨_, update_self _ _ _, hlen, fun i x hx => ?_⟩
    rcases getElem?_concat hx with ⟨hi, hx⟩ | ⟨rfl, rfl⟩
    · obtain ⟨q, hq, hrest⟩ := hslots i x hx
      exact ⟨q, (update_of_ne (Nat.ne_of_lt hi) _ _).trans hq, hrest⟩
    · exact ⟨p, update_self _ _ _, hw, hp⟩
  · intro x hx
    exact update_of_ne hx _ _

variable {argv : Option Nat} {bound cmdLine : Nat} {b : PtrArray}

lemma Stores.realloc (h : s.Stores a savePt ws) {n : Nat} (hfits : ws.length ≤ s.maxArgs)
    (hs : { s with maxArgs := n }.realloc (some a) = some (s', argv)) :
    s'.mem = s.mem ∧ s'.maxArgs = n ∧
      (argv = none ∨ ∃ a', argv = some a' ∧ a' ≠ a ∧ s'.Stores a' savePt ws ∧
        s'.heap a = none ∧ ∀ x, x ≠ a → x ≠ a' → s'.heap x = s.heap x) := by
  obtain ⟨b, hb, hlen, hslots⟩ := h
  unfold Parser.realloc at hs
  dsimp only at hs
  cases hans : s.answers.headD none with
  | none =>
    rw [hans] at hs
    cases hs
    exact ⟨rfl, rfl, .inl rfl⟩
  | some a' =>
    rw [hans] at hs
    dsimp only at hs
    cases hfree : s.heap a' with
    | some _ =>
      simp [hfree] at hs
    | none =>
      have hne : a' ≠ a := by
        rintro rfl
        simp [hfree] at hb
      rw [hfree] at hs
      cases hs
      refine ⟨rfl, rfl, .inr ⟨a', rfl, hne, ⟨⟨n, fun i => (s.heap a).bind fun b =>
        if i < b.length then b.slot i else none⟩, ?_, rfl, fun i w hw => ?_⟩, ?_, ?_⟩⟩
      · dsimp only
        rw [update_of_ne hne, update_self]
      · have hi : i < b.length := by
          have hi := (List.getElem?_eq_some_iff.mp hw).1
          omega
        obtain ⟨p, hp, hrest⟩ := hslots i w hw
        refine ⟨p, ?_, hrest⟩
        dsimp only
        rw [hb, bind_some, if_pos hi, hp]
      · exact update_self _ _ _
      · intro x hx hx'
        dsimp only
        rw [update_of_ne hx, update_of_ne hx']

lemma Filled.push_room (h : s.Filled caller a savePt ws) (hroom : ws.length < s.maxArgs)
    (hw : StringAt s.mem p w) (hp : p + w.length ≤ savePt) :
    ∃ s', s.push (some a) ws.length p = some (s', some a) ∧
      s'.Filled caller a savePt (ws ++ [w]) ∧ s'.mem = s.mem ∧ s'.maxArgs = s.maxArgs := by
  obtain ⟨s', hstore, hstores, hmem, hmax, hheap⟩ := h.stores.store hroom hw hp
  refine ⟨s', ?_, ⟨hstores, ?_, ?_⟩, hmem, hmax⟩
  · unfold push
    dsimp only
    rw [if_neg (Nat.not_le.mpr hroom)]
    simp [hstore]
  · rwa [length_append, length_singleton, hmax]
  · rcases h.kept with hkept | hgone
    · exact .inl hkept
    · by_cases hac : a = caller
      · exact .inl hac
      · exact .inr (by rw [hheap caller (Ne.symm hac), hgone])

/-- A round that finds the array full. If `realloc` fails the next store is through a null
pointer. -/
lemma Filled.push_full (h : s.Filled caller a savePt ws) (hfull : ws.length = s.maxArgs)
    (hpos : 0 < s.maxArgs) (hw : StringAt s.mem p w) (hp : p + w.length ≤ savePt)
    (hs : s.push (some a) ws.length p = some (s', argv)) :
    ∃ a', argv = some a' ∧ a' ≠ a ∧ s'.Filled caller a' savePt (ws ++ [w]) ∧
      s'.mem = s.mem ∧ s'.maxArgs = s.maxArgs * 2 := by
  unfold push at hs
  dsimp only at hs
  rw [if_pos (Nat.le_of_eq hfull.symm)] at hs
  cases hre : { s with maxArgs := s.maxArgs * 2 }.realloc (some a) with
  | none =>
    simp [hre] at hs
  | some out =>
    obtain ⟨s₁, argv₁⟩ := out
    rw [hre] at hs
    dsimp only at hs
    obtain ⟨hmem, hmax, hnull | ⟨a', rfl, hne, hstores, hold, hheap⟩⟩ :=
      h.stores.realloc h.fits hre
    · subst hnull
      cases hs
    · obtain ⟨s₂, hstore, hstores', hmem', hmax', hheap'⟩ :=
        hstores.store (w := w) (p := p) (by omega) (by rwa [hmem]) hp
      rw [hstore, map_some, some.injEq, Prod.mk.injEq] at hs
      obtain ⟨rfl, rfl⟩ := hs
      refine ⟨a', rfl, hne, ⟨hstores', ?_, ?_⟩, by rw [hmem', hmem], by rw [hmax', hmax]⟩
      · rw [length_append, length_singleton, hmax', hmax]
        omega
      · by_cases hac : a' = caller
        · exact .inl hac
        · right
          rw [hheap' caller (Ne.symm hac)]
          by_cases hca : caller = a
          · rw [hca, hold]
          · rw [hheap caller hca (Ne.symm hac)]
            exact h.kept.resolve_left (Ne.symm hca)

/-- The end of the loop: `argc` counts the words, and the callee's array points to them. -/
structure Ends (out : Parsed) (caller a' : Nat) (ws : List (List UInt8)) : Prop where
  argv : out.argv = some a'
  argc : out.argc = ws.length
  stores : ∃ limit, out.state.Stores a' limit ws
  kept : a' = caller ∨ out.state.heap caller = none

lemma parseLoop_token (fuel : Nat) (argv : Option Nat) (argc : Nat) {pre token : List UInt8}
    (hrest : StringAt s.mem savePt (pre ++ (token ++ line))) (hpre : ∀ d ∈ pre, d ∈ delimiters)
    (hne : token ≠ []) (htok : ∀ c ∈ token, c ∉ delimiters)
    (hline : ∀ d ∈ line.head?, d ∈ delimiters) (hbound : (pre ++ (token ++ line)).length < bound) :
    ∃ mem p savePt', (∀ x, x ≤ savePt → mem x = s.mem x) ∧ savePt ≤ savePt' ∧
      StringAt mem p token ∧ p + token.length ≤ savePt' ∧ StringAt mem savePt' (line.drop 1) ∧
      parseLoop bound (fuel + 1) s argv argc savePt =
        match { s with mem := mem }.push argv argc p with
        | none => none
        | some (s, argv) => parseLoop bound fuel s argv (argc + 1) savePt' := by
  obtain ⟨mem, hstrtok, hstr, hnext, hkeep⟩ := strtokR_token (p := savePt) none savePt rfl
    hrest hpre hne htok hline hbound
  have hpos := length_pos_iff.mpr hne
  refine ⟨mem, savePt + pre.length, savePt + pre.length + token.length + (line.take 1).length,
    fun x hx => hkeep x (by omega), by omega, hstr, by omega, hnext, ?_⟩
  rw [parseLoop, hstrtok]

/-- The loop on the words `left`: their number decides whether the array is reallocated. -/
structure LoopSpec (maxArgs caller a : Nat) (ws left : List (List UInt8))
    (out : Option Parsed) : Prop where
  short : (ws ++ left).length ≤ maxArgs → ∃ p, out = some p ∧ p.argv = some a
  ends : ∀ p, out = some p → ∃ a', Ends p caller a' (ws ++ left)
  long : ∀ p, out = some p → maxArgs < (ws ++ left).length →
    (ws ++ left).length ≤ maxArgs * 2 → p.argv ≠ some a

lemma LoopSpec.push {left : List (List UInt8)} (h : s.Filled caller a savePt ws)
    (hpos : 0 < s.maxArgs) (hw : StringAt s.mem p w) (hp : p + w.length ≤ savePt)
    {rest : Parser → Option Nat → Option Parsed}
    (hrest : ∀ (s' : Parser) (a' : Nat), s'.mem = s.mem → 0 < s'.maxArgs →
      s'.Filled caller a' savePt (ws ++ [w]) →
      LoopSpec s'.maxArgs caller a' (ws ++ [w]) left (rest s' (some a'))) :
    LoopSpec s.maxArgs caller a ws (w :: left) (match s.push (some a) ws.length p with
      | none => none
      | some (s, argv) => rest s argv) := by
  have happ : ws ++ w :: left = (ws ++ [w]) ++ left := by simp
  rcases Nat.lt_or_eq_of_le h.fits with hroom | hfull
  · obtain ⟨s', hpush, hfilled, hmem, hmax⟩ := h.push_room hroom hw hp
    have hspec := hrest s' a hmem (by omega) hfilled
    rw [hpush]
    constructor
    · rw [happ, ← hmax]
      exact hspec.short
    · rw [happ]
      exact hspec.ends
    · rw [happ, ← hmax]
      exact hspec.long
  · have hlen : s.maxArgs < (ws ++ w :: left).length := by
      simp only [length_append, length_cons]
      omega
    cases hpush : s.push (some a) ws.length p with
    | none => exact ⟨fun hle => absurd hle (Nat.not_le.mpr hlen), nofun, nofun⟩
    | some out =>
      obtain ⟨s', argv⟩ := out
      obtain ⟨a', rfl, hne, hfilled, hmem, hmax⟩ := h.push_full hfull hpos hw hp hpush
      have hspec := hrest s' a' hmem (by omega) hfilled
      refine ⟨fun hle => absurd hle (Nat.not_le.mpr hlen), ?_, ?_⟩
      · rw [happ]
        exact hspec.ends
      · intro q hq _ hle
        rw [happ, ← hmax] at hle
        obtain ⟨q', hq', hargv⟩ := hspec.short hle
        rw [show q = q' from some.inj (hq.symm.trans hq'), hargv]
        exact fun heq => hne (some.inj heq)

lemma parseLoop_spec (h : s.Filled caller a savePt ws) (hpos : 0 < s.maxArgs)
    (hline : StringAt s.mem savePt line) (hfuel : line.length < fuel)
    (hbound : line.length < bound) :
    LoopSpec s.maxArgs caller a ws (words delimiters line)
      (parseLoop bound fuel s (some a) ws.length savePt) := by
  induction fuel generalizing s a savePt ws line with
  | zero => cases hfuel
  | succ fuel ih =>
    cases cut delimiters line with
    | blank hblank =>
      have hnone : words delimiters line = [] := by
        have hwords := words_delimiters hblank []
        rwa [append_nil] at hwords
      have hloop : parseLoop bound (fuel + 1) s (some a) ws.length savePt =
          some ⟨s, some a, ws.length⟩ := by
        rw [parseLoop, strtokR_blank (p := savePt) none savePt rfl hline hblank hbound]
      rw [hnone, hloop]
      refine ⟨fun _ => ⟨_, rfl, rfl⟩, ?_, ?_⟩
      · rintro p ⟨⟩
        rw [append_nil]
        exact ⟨a, rfl, rfl, ⟨savePt, h.stores⟩, h.kept⟩
      · intro p _ hlt
        rw [append_nil] at hlt
        exact absurd h.fits (Nat.not_le.mpr hlt)
    | @token pre token rest heq hpre hne htok hrest =>
      subst heq
      obtain ⟨mem, p, savePt', hmem, hle, hstr, hp, hnext, hloop⟩ :=
        parseLoop_token fuel (some a) ws.length hline hpre hne htok hrest hbound
      have hpos' := length_pos_iff.mpr hne
      simp only [length_append] at hfuel hbound
      rw [words_token hpre hne htok hrest, hloop]
      refine LoopSpec.push (s := { s with mem := mem }) (h.setMem hmem hle) hpos hstr hp ?_
      intro s' a' hmem' hpos'' hfilled
      have hlen : (rest.drop 1).length ≤ rest.length := by
        rw [length_drop]
        omega
      have hline' : StringAt s'.mem savePt' (rest.drop 1) := by rwa [hmem']
      have hspec := ih hfilled hpos'' hline' (by omega) (by omega)
      rwa [length_append, length_singleton] at hspec

/-! ## The call -/

/-- The caller finds the words in its own array: `argc` counts them and each slot points to
its word. -/
def FoundBy (out : Option Parsed) (argv : Nat) (ws : List (List UInt8)) : Prop :=
  ∃ p b, out = some p ∧ p.argc = ws.length ∧ p.state.heap argv = some b ∧
    ∀ i w, ws[i]? = some w → ∃ a, b.slot i = some a ∧ StringAt p.state.mem a w

def KeepsArray (out : Option Parsed) (argv : Nat) : Prop :=
  ∃ p, out = some p ∧ p.argv = some argv

/-- On an empty line, or one of spaces, `argv[0]` is a null pointer and `argc` is 1. -/
lemma parseCmdArgs_blank (hline : StringAt s.mem cmdLine line)
    (hblank : ∀ d ∈ line, d ∈ delimiters) (hfuel : line.length < fuel) (hb : s.heap a = some b)
    (hpos : 0 < b.length) :
    ∃ p, parseCmdArgs fuel s cmdLine (some a) = some p ∧ p.argv = some a ∧ p.argc = 1 ∧
      ∀ b', p.state.heap a = some b' → b'.slot 0 = none := by
  have hend : StringAt s.mem (cmdLine + line.length) [] := hline.byte_end
  have hfirst := strtokR_blank (p := cmdLine) (some cmdLine) 0 rfl hline hblank hfuel
  have hno : ∀ d ∈ ([] : List UInt8), d ∈ delimiters := nofun
  have hsecond := strtokR_blank (p := cmdLine + line.length) none (cmdLine + line.length) rfl hend
    hno (Nat.zero_lt_of_lt hfuel)
  obtain ⟨fuel, rfl⟩ : ∃ k, fuel = k + 1 := ⟨fuel - 1, by omega⟩
  have hstore : s.store (some a) 0 none = some { s with
      heap := update s.heap a
        (some { b with slot := update b.slot 0 none }) } := by
    simp only [store, hb, if_pos hpos]
  have hparse : parseCmdArgs (fuel + 1) s cmdLine (some a) = some ⟨{ s with
      heap := update s.heap a
        (some { b with slot := update b.slot 0 none }) }, some a, 1⟩ := by
    rw [parseCmdArgs, hfirst]
    dsimp only
    rw [hstore]
    dsimp only [parseLoop]
    rw [hsecond]
  refine ⟨_, hparse, rfl, rfl, ?_⟩
  · intro b' hb'
    have heq := some.inj ((update_self a _ s.heap).symm.trans hb')
    rw [← heq]
    show update b.slot 0 none 0 = none
    rw [update_self]

lemma parseCmdArgs_words (hline : StringAt s.mem cmdLine line) (hfuel : line.length < fuel)
    (hb : s.heap a = some b) (hlen : b.length = s.maxArgs) (hpos : 0 < s.maxArgs)
    (hne : words delimiters line ≠ []) :
    LoopSpec s.maxArgs a a [] (words delimiters line) (parseCmdArgs fuel s cmdLine (some a)) := by
  cases cut delimiters line with
  | blank hblank =>
    have hwords := words_delimiters hblank []
    rw [append_nil] at hwords
    exact absurd hwords hne
  | @token pre token rest heq hpre hnetok htok hrest =>
    subst heq
    obtain ⟨mem, hstrtok, hstr, hnext, -⟩ := strtokR_token (p := cmdLine) (some cmdLine) 0
      rfl hline hpre hnetok htok hrest hfuel
    have hstores : { s with mem := mem }.Stores a
        (cmdLine + pre.length + token.length + (rest.take 1).length) [] := by
      exact ⟨b, hb, hlen, nofun⟩
    obtain ⟨s', hstore, hstores', hmem, hmax, -⟩ := hstores.store hpos hstr (by omega)
    have hfilled : s'.Filled a a
        (cmdLine + pre.length + token.length + (rest.take 1).length) [token] :=
      ⟨hstores', by rw [hmax]; exact hpos, .inl rfl⟩
    have hlen' : (rest.drop 1).length < fuel := by
      simp only [length_append, length_drop] at hfuel ⊢
      omega
    have hspec := parseLoop_spec hfilled (by rw [hmax]; exact hpos) (hmem ▸ hnext) hlen' hlen'
    rw [words_token hpre hnetok htok hrest, parseCmdArgs, hstrtok]
    dsimp only
    rw [length_nil] at hstore
    rw [hstore]
    rw [hmax] at hspec
    exact ⟨hspec.short, hspec.ends, hspec.long⟩

section Found

variable {maxArgs : Nat} {out : Option Parsed}

/-- An array that was reallocated is not the caller's any more. -/
lemma LoopSpec.keepsArray (h : LoopSpec maxArgs a a [] ws out) (hfound : FoundBy out a ws) :
    KeepsArray out a := by
  obtain ⟨p, b, hp, -, hb, -⟩ := hfound
  obtain ⟨a', hends⟩ := h.ends p hp
  rcases hends.kept with rfl | hgone
  · exact ⟨p, hp, hends.argv⟩
  · simp [hb] at hgone

lemma LoopSpec.foundBy (h : LoopSpec maxArgs a a [] ws out) (hkeeps : KeepsArray out a) :
    FoundBy out a ws := by
  obtain ⟨p, hp, hargv⟩ := hkeeps
  obtain ⟨a', hends⟩ := h.ends p hp
  obtain rfl : a' = a := some.inj (hends.argv.symm.trans hargv)
  obtain ⟨limit, b, hb, -, hslots⟩ := hends.stores
  refine ⟨p, b, hp, hends.argc, hb, fun i w hw => ?_⟩
  obtain ⟨x, hx, hstr, -⟩ := hslots i w hw
  exact ⟨x, hx, hstr⟩

lemma LoopSpec.not_keepsArray (h : LoopSpec maxArgs a a [] ws out) (hlt : maxArgs < ws.length)
    (hle : ws.length ≤ maxArgs * 2) : ¬ KeepsArray out a := by
  rintro ⟨p, hp, hargv⟩
  exact h.long p hp hlt hle hargv

end Found

lemma words_eq_nil (h : words delimiters line = []) : ∀ d ∈ line, d ∈ delimiters := by
  cases cut delimiters line with
  | blank hblank => exact hblank
  | token heq hpre hne htok hrest =>
    simp [heq, words_token hpre hne htok hrest] at h

/-- A command line at address 0, with an array for `load` of `MAX_ARGS` slots at 4096. -/
def ofLine (line : List UInt8) (maxArgs : Nat) (answers : List (Option Nat)) : Parser where
  mem := fun p => line.getD p 0
  heap := fun a => if a = 4096 then some ⟨maxArgs, fun _ => none⟩ else none
  maxArgs := maxArgs
  answers := answers

def letters (n : Nat) : List UInt8 := (List.replicate n [97, 32]).flatten

lemma words_letters (n : Nat) : words delimiters (letters n) = replicate n [97] := by
  induction n with
  | zero => rfl
  | succ n ih =>
    have hfirst : letters (n + 1) = [] ++ ([97] ++ 32 :: letters n) := rfl
    have hrest : ∀ d ∈ (32 :: letters n).head?, d ∈ delimiters := by
      rintro d ⟨⟩
      decide
    have hno : ∀ d ∈ ([] : List UInt8), d ∈ delimiters := nofun
    rw [hfirst, words_token hno (by decide) (by simp [delimiters]) hrest, drop_succ_cons,
      drop_zero, ih]
    rfl

lemma letters_ne_zero (n : Nat) : ∀ b ∈ letters n, b ≠ 0 := by
  intro b hb
  obtain ⟨l, hl, hb⟩ := mem_flatten.mp hb
  rw [eq_of_mem_replicate hl] at hb
  rcases mem_pair.mp hb with rfl | rfl <;> decide

lemma length_letters (n : Nat) : (letters n).length = n * 2 := by
  simp [letters]

/-- With up to twice as many words as slots the caller's array is left behind. -/
lemma ofLine_not_foundBy {maxArgs : Nat} (hzero : ∀ b ∈ line, b ≠ 0)
    (hfuel : line.length < fuel) (hpos : 0 < maxArgs)
    (hlt : maxArgs < (words delimiters line).length)
    (hle : (words delimiters line).length ≤ maxArgs * 2) (answers : List (Option Nat)) :
    ¬ FoundBy (parseCmdArgs fuel (ofLine line maxArgs answers) 0 (some 4096)) 4096
      (words delimiters line) := by
  intro hfound
  have hline : StringAt (ofLine line maxArgs answers).mem 0 line := StringAt.getD [] hzero
  have hne : words delimiters line ≠ [] := ne_nil_of_length_pos (by omega)
  have hroom : (ofLine line maxArgs answers).heap 4096 = some ⟨maxArgs, fun _ => none⟩ := rfl
  have hspec := parseCmdArgs_words hline hfuel hroom rfl hpos hne
  exact hspec.not_keepsArray hlt hle (hspec.keepsArray hfound)

end Parser

end Pintos.Userprog
