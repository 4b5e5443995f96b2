import Pintos.Userprog.CommandLine
import Pintos.Userprog.SetupStack

/-!
# Argument passing (userprog/process.c, lib/user/entry.c)

A new process starts in `_start (argc, argv)`, which finds its arguments on the stack as any
C function does: a return address, `argc`, and the address of the table of pointers.
-/

namespace Pintos.Userprog

open Foundation List UInt32 Nat StackSetup

namespace Loader

variable {s : Loader} {kpage : Nat}

lemma Good.mapStack (hs : Good s) :
    ∃ b s', s.mapStack = (b, s') ∧
      (b = true → ∃ kpage, s'.mapping 786431 = some (kpage, true)) := by
  have hpage : UserPage (physBase - 4096) 786431 := ⟨rfl, by decide, by decide⟩
  obtain ⟨page, paging, hpalloc, hok, -, -, hnew⟩ := hs.ok.pallocGetPage
  unfold Loader.mapStack
  rw [hpalloc]
  cases page with
  | none => exact ⟨false, _, rfl, nofun⟩
  | some kpage =>
    have hfresh := hnew kpage rfl
    have hgood : Good (zero { s with paging := paging } kpage 4096) := ⟨hok, hs.calls⟩
    obtain ⟨b, s', hinstall, -, -, -, -, -, -, hmaps⟩ :=
      hgood.installPage hpage hfresh.ram hfresh.spent true
    dsimp only
    rw [hinstall]
    cases b with
    | false => exact ⟨false, _, rfl, nofun⟩
    | true =>
      refine ⟨true, s', rfl, fun _ => ⟨kpage, ?_⟩⟩
      rw [hmaps 786431 (by decide), if_pos ⟨rfl, rfl⟩]

variable {argv : List (List UInt8)} {depth : Nat}

lemma Good.setupStack (hs : Good s) (hfits : (argBytes argv).length ≤ 4096) :
    (s.mapStack.1 = false ∧ (s.setupStack argv).1 = some false) ∨ ∃ kpage t, s.mapStack.1 = true ∧
      s.setupStack argv = (if t.fault then none else some true, t) ∧
      t.Placed kpage (stackBytes argv) ∧ argv.length ∈ t.indices := by
  obtain ⟨b, s₁, hmap, hmapped⟩ := hs.mapStack
  unfold Loader.setupStack
  rw [hmap]
  cases b with
  | false => exact .inl ⟨rfl, rfl⟩
  | true =>
    obtain ⟨kpage, hkpage⟩ := hmapped rfl
    have hempty : Placed ⟨s₁, physBase, fun _ => 0, [], [], false⟩ kpage
        (argBytes (argv.drop argv.length)) := by
      rw [drop_length]
      exact ⟨below_zero.symm, hkpage, fun _ => ⟨rfl, nofun, Held.nil _ _⟩, nofun⟩
    obtain ⟨t, hargs, hplaced, haddr, -⟩ := hempty.pushArgs hfits (le_refl _)
    refine .inr ⟨kpage, t.pushFrame argv.length, rfl, ?_, hplaced.pushFrame hfits haddr,
      t.mem_indices_pushFrame _⟩
    dsimp only
    rw [if_pos rfl, hargs]
    rfl

lemma Good.setupStack_mapped (hs : Good s) (hfits : (argBytes argv).length ≤ 4096)
    (hmap : s.mapStack.1 = true) :
    (s.setupStack argv).1 ≠ some false ∧
      ∃ kpage, (s.setupStack argv).2.Placed kpage (stackBytes argv) ∧
        argv.length ∈ (s.setupStack argv).2.indices := by
  rcases hs.setupStack hfits with ⟨hfalse, -⟩ | ⟨kpage, t, -, hrun, hplaced, hindex⟩
  · exact absurd (hfalse.symm.trans hmap) Bool.false_ne_true
  · rw [hrun]
    refine ⟨?_, kpage, hplaced, hindex⟩
    dsimp only
    split
    · exact nofun
    · exact nofun

def userByte (s : Loader) (va : UInt32) : Option UInt8 := (s.paging.pd.translate va).map s.byte

def userWord (s : Loader) (va : UInt32) : Option UInt32 :=
  match s.userByte va, s.userByte (va + 1), s.userByte (va + 2), s.userByte (va + 3) with
  | some b0, some b1, some b2, some b3 => some (wordOfBytes b0 b1 b2 b3)
  | _, _, _, _ => none

def UserString (s : Loader) (p : UInt32) (arg : List UInt8) : Prop :=
  (∀ b ∈ arg, b ≠ 0) ∧
    ∀ i b, (arg ++ [0])[i]? = some b → s.userByte (p + UInt32.ofNat i) = some b

lemma userByte_held {bytes : List UInt8} (hmap : s.mapping 786431 = some (kpage, true))
    (h : Held (fun o => s.byte (kpage + o)) (4096 - depth) bytes) (hle : depth ≤ 4096)
    (hlen : bytes.length ≤ depth) :
    ∀ i b, bytes[i]? = some b → s.userByte (below depth + ofNat i) = some b := by
  intro i b hb
  have hi := (List.getElem?_eq_some_iff.mp hb).1
  have hva := toNat_below (show depth - i ≤ 3221225472 by omega)
  have hpage : (below (depth - i)).toNat / 4096 = 786431 := by omega
  have hofs : kpage + (below (depth - i)).toNat % 4096 = kpage + (4096 - depth + i) := by omega
  have hbyte : s.byte (kpage + (4096 - depth + i)) = b := h i b hb
  rw [mapping] at hmap
  rw [below_add (by omega), userByte, PageDir.translate_eq_mapping, hpage, hmap, Option.map_some,
    Option.map_some, hofs, hbyte]

lemma userWord_held {w : UInt32} (hmap : s.mapping 786431 = some (kpage, true))
    (h : Held (fun o => s.byte (kpage + o)) (4096 - depth) (wordBytes w)) (hle : depth ≤ 4096)
    (hlen : 4 ≤ depth) : s.userWord (below depth) = some w := by
  have hbyte := userByte_held hmap h hle hlen
  have h0 : s.userByte (below depth) = some (wordByte w 0) := by
    have h0 := hbyte 0 _ rfl
    rwa [below_add (zero_le _)] at h0
  have h1 : s.userByte (below depth + 1) = some (wordByte w 1) := hbyte 1 _ rfl
  have h2 : s.userByte (below depth + 2) = some (wordByte w 2) := hbyte 2 _ rfl
  have h3 : s.userByte (below depth + 3) = some (wordByte w 3) := hbyte 3 _ rfl
  unfold userWord
  rw [h0, h1, h2, h3]
  exact congrArg some (wordOfBytes_wordByte w)

/-! ## What the entry point finds -/

def Apart (a b : UInt32 × Nat) : Prop :=
  a.1.toNat + a.2 ≤ b.1.toNat ∨ b.1.toNat + b.2 ≤ a.1.toNat

/-- The objects on the stack: the frame, the pointers, and the strings. -/
def stackObjects (esp table : UInt32) (pointer : Nat → UInt32) (argv : List (List UInt8)) :
    List (UInt32 × Nat) :=
  [(esp, 4), (esp + 4, 4), (esp + 8, 4)] ++
    ((List.range (argv.length + 1)).map (fun i => (table + UInt32.ofNat (4 * i), 4)) ++
      (List.range argv.length).map fun i => (pointer i, (argv.getD i []).length + 1))

/-- The arguments as `_start` finds them when it reads memory from `esp`. -/
structure EntryFrame (s : Loader) (esp : UInt32) (argv : List (List UInt8)) : Prop where
  aligned : esp.toNat % 4 = 0
  returnAddress : s.userWord esp = some 0
  argc : ∃ argc, s.userWord (esp + 4) = some argc ∧ argc.toNat = argv.length
  args : ∃ table pointer, s.userWord (esp + 8) = some table ∧
    s.userWord (table + UInt32.ofNat (4 * argv.length)) = some 0 ∧
    (∀ i arg, argv[i]? = some arg →
      s.userWord (table + UInt32.ofNat (4 * i)) = some (pointer i) ∧
      InStackPage (pointer i, arg.length + 1) ∧ s.UserString (pointer i) arg) ∧
    (stackObjects esp table pointer argv).Pairwise Apart

end Loader

namespace StackSetup

variable {t : StackSetup} {kpage : Nat} {argv : List (List UInt8)} {mem : Nat → UInt8} {i : Nat}
  {arg : List UInt8}

lemma held_behind {depth : Nat} {xs ys : List UInt8} (h : Held mem (4096 - depth) (xs ++ ys))
    (hlen : xs.length ≤ depth) (hle : depth ≤ 4096) : Held mem (4096 - (depth - xs.length)) ys := by
  have hplace : 4096 - depth + xs.length = 4096 - (depth - xs.length) := by omega
  have hys := h.right
  rwa [hplace] at hys

lemma length_argBytes_cons (harg : argv[i]? = some arg) :
    (argBytes (argv.drop i)).length = arg.length + 1 + (argBytes (argv.drop (i + 1))).length := by
  obtain ⟨hi, rfl⟩ := List.getElem?_eq_some_iff.mp harg
  rw [argBytes_drop hi, getD_eq_getElem _ _ hi, length_append, length_append]
  rfl

lemma held_arg (hfits : (argBytes argv).length ≤ 4096)
    (h : Held mem (4096 - (argBytes argv).length) (argBytes argv)) (harg : argv[i]? = some arg) :
    Held mem (4096 - (argBytes (argv.drop i)).length) (arg ++ [0]) := by
  obtain ⟨hi, rfl⟩ := List.getElem?_eq_some_iff.mp harg
  have hsplit := argBytes_take_drop argv i
  have hlen := congrArg length hsplit
  rw [length_append] at hlen
  have hall : Held mem (4096 - (argBytes argv).length)
      (argBytes (argv.take i) ++ argBytes (argv.drop i)) := by
    rwa [← hsplit]
  have hrest := held_behind hall (by omega) hfits
  rw [show (argBytes argv).length - (argBytes (argv.take i)).length =
    (argBytes (argv.drop i)).length by omega] at hrest
  have hdrop := argBytes_drop hi
  rw [getD_eq_getElem _ _ hi] at hdrop
  rw [hdrop] at hrest ⊢
  exact hrest.left

lemma length_pointerBytes_eq (argv : List (List UInt8)) : (pointerBytes argv).length =
    4 * (argv.length + 1) + (padding (argBytes argv).length + (argBytes argv).length) := by
  rw [pointerBytes, length_append, length_words, length_append, length_replicate]

/-- The parts of the layout at their depths below `PHYS_BASE`. -/
structure Parts (mem : Nat → UInt8) (argv : List (List UInt8)) : Prop where
  returnAddress : Held mem (4096 - layoutSize argv) (wordBytes 0)
  argc : Held mem (4096 - (layoutSize argv - 4)) (wordBytes (UInt32.ofNat argv.length))
  table : Held mem (4096 - (layoutSize argv - 8)) (wordBytes (below (pointerBytes argv).length))
  pointers : ∀ i, i ≤ argv.length →
    Held mem (4096 - ((pointerBytes argv).length - 4 * i)) (wordBytes (argPointer argv i))
  args : Held mem (4096 - (argBytes argv).length) (argBytes argv)

lemma parts_of_held (hfits : layoutSize argv ≤ 4096)
    (h : Held mem (4096 - layoutSize argv) (stackBytes argv)) : Parts mem argv := by
  have hpointers := length_pointerBytes argv
  have hsize := length_pointerBytes_eq argv
  have hargc := held_behind h (by rw [length_wordBytes]; omega) hfits
  have htable := held_behind hargc (by simp only [length_wordBytes]; omega) (by omega)
  have hbelow := held_behind htable (by simp only [length_wordBytes]; omega) (by omega)
  simp only [length_wordBytes] at hargc htable hbelow
  rw [show layoutSize argv - 4 - 4 = layoutSize argv - 8 by omega] at htable
  rw [show layoutSize argv - 4 - 4 - 4 = (pointerBytes argv).length by omega] at hbelow
  have hargs := held_behind hbelow (by rw [length_words]; omega) (by omega)
  have hstrings := held_behind hargs (by rw [length_words, length_replicate]; omega) (by omega)
  rw [length_words, length_replicate] at hstrings
  refine ⟨h.left, hargc.left, htable.left, fun i hi => ?_, ?_⟩
  · have hword := hbelow.left.word (lt_succ_of_le hi)
    rwa [show 4096 - (pointerBytes argv).length + 4 * i =
      4096 - ((pointerBytes argv).length - 4 * i) by omega] at hword
  · rwa [show (pointerBytes argv).length - 4 * (argv.length + 1) -
      padding (argBytes argv).length = (argBytes argv).length by omega] at hstrings

section Objects

variable (hfits : layoutSize argv ≤ 4096)

include hfits

variable {i : Nat}

lemma toNat_slot (hi : i ≤ argv.length) :
    (below (pointerBytes argv).length + ofNat (4 * i)).toNat =
      3221225472 - ((pointerBytes argv).length - 4 * i) := by
  have hpointers := length_pointerBytes argv
  have hsize := length_pointerBytes_eq argv
  rw [below_add (by omega), toNat_below (by omega)]

lemma toNat_argPointer (hi : i < argv.length) :
    (argPointer argv i).toNat = 3221225472 - (argBytes (argv.drop i)).length := by
  have hpointers := length_pointerBytes argv
  have hsize := length_pointerBytes_eq argv
  have hle := length_argBytes_drop argv i
  rw [argPointer, if_pos hi, toNat_below (by omega)]

lemma toNat_frame : (below (layoutSize argv)).toNat = 3221225472 - layoutSize argv ∧
    (below (layoutSize argv) + 4).toNat = 3221225472 - layoutSize argv + 4 ∧
    (below (layoutSize argv) + 8).toNat = 3221225472 - layoutSize argv + 8 := by
  have hpointers := length_pointerBytes argv
  have h4 : below (layoutSize argv) + 4 = below (layoutSize argv - 4) :=
    below_add (n := 4) (by omega)
  have h8 : below (layoutSize argv) + 8 = below (layoutSize argv - 8) :=
    below_add (n := 8) (by omega)
  rw [h4, h8, toNat_below (by omega), toNat_below (by omega), toNat_below (by omega)]
  omega

lemma frame_le : ∀ o ∈ [(below (layoutSize argv), 4), (below (layoutSize argv) + 4, 4),
    (below (layoutSize argv) + 8, 4)],
    o.1.toNat + o.2 ≤ 3221225472 - (pointerBytes argv).length := by
  have hpointers := length_pointerBytes argv
  obtain ⟨h0, h4, h8⟩ := toNat_frame hfits
  simp only [mem_cons, not_mem_nil, or_false, forall_eq_or_imp, forall_eq]
  omega

lemma slot_bounds : ∀ o ∈ (range (argv.length + 1)).map
    (fun i => (below (pointerBytes argv).length + ofNat (4 * i), 4)),
    3221225472 - (pointerBytes argv).length ≤ o.1.toNat ∧
      o.1.toNat + o.2 ≤ 3221225472 - (argBytes argv).length := by
  have hpointers := length_pointerBytes argv
  have hsize := length_pointerBytes_eq argv
  intro o ho
  obtain ⟨i, hi, rfl⟩ := mem_map.mp ho
  have hi' := Nat.lt_succ_iff.mp (mem_range.mp hi)
  have hslot := toNat_slot hfits hi'
  dsimp only
  omega

lemma le_argPointer : ∀ o ∈ (range argv.length).map
    (fun i => (argPointer argv i, (argv.getD i []).length + 1)),
    3221225472 - (argBytes argv).length ≤ o.1.toNat := by
  intro o ho
  obtain ⟨i, hi, rfl⟩ := mem_map.mp ho
  have hpointer := toNat_argPointer hfits (mem_range.mp hi)
  have hle := length_argBytes_drop argv i
  dsimp only
  omega

lemma apart_stackObjects :
    (Loader.stackObjects (below (layoutSize argv)) (below (pointerBytes argv).length)
      (argPointer argv) argv).Pairwise Loader.Apart := by
  have hpointers := length_pointerBytes argv
  have hsize := length_pointerBytes_eq argv
  refine pairwise_append.mpr ⟨?_, pairwise_append.mpr ⟨?_, ?_, ?_⟩, ?_⟩
  · obtain ⟨h0, h4, h8⟩ := toNat_frame hfits
    simp only [pairwise_cons, mem_cons, not_mem_nil, or_false, forall_eq_or_imp,
      forall_eq, Loader.Apart]
    refine ⟨⟨.inl (by omega), .inl (by omega)⟩, .inl (by omega), nofun, .nil⟩
  · refine pairwise_map.mpr (pairwise_lt_range.imp_of_mem fun {i j} hi hj hlt => ?_)
    have hi' := Nat.lt_succ_iff.mp (mem_range.mp hi)
    have hj' := Nat.lt_succ_iff.mp (mem_range.mp hj)
    have hsi := toNat_slot hfits hi'
    have hsj := toNat_slot hfits hj'
    left
    dsimp only
    omega
  · refine pairwise_map.mpr (pairwise_lt_range.imp_of_mem fun {i j} hi hj hlt => ?_)
    have hi' := mem_range.mp hi
    have hlen := length_argBytes_cons (getElem?_eq_getElem hi')
    have hnext := length_argBytes_drop (argv.drop (i + 1)) (j - (i + 1))
    rw [drop_drop, show i + 1 + (j - (i + 1)) = j by omega] at hnext
    have hpi := toNat_argPointer hfits hi'
    have hpj := toNat_argPointer hfits (mem_range.mp hj)
    have hle := length_argBytes_drop argv i
    left
    dsimp only
    rw [getD_eq_getElem _ _ hi']
    omega
  · intro o ho o' ho'
    exact .inl (Nat.le_trans (slot_bounds hfits o ho).2 (le_argPointer hfits o' ho'))
  · intro o ho o' ho'
    refine .inl (Nat.le_trans (frame_le hfits o ho) ?_)
    rcases mem_append.mp ho' with hslot | hstring
    · exact (slot_bounds hfits o' hslot).1
    · exact Nat.le_trans (by omega) (le_argPointer hfits o' hstring)

end Objects

lemma Placed.entryFrame (h : t.Placed kpage (stackBytes argv)) (hfits : layoutSize argv ≤ 4096)
    (hzero : ∀ arg ∈ argv, ∀ b ∈ arg, b ≠ 0) : t.loader.EntryFrame t.esp argv := by
  have hlen := length_stackBytes argv
  have hpointers := length_pointerBytes argv
  have hsize := length_pointerBytes_eq argv
  obtain ⟨-, -, hheld⟩ := h.inside (by omega)
  have hesp := h.esp
  rw [hlen] at hesp hheld
  have hparts := parts_of_held hfits hheld
  have hslot : ∀ i, i ≤ argv.length →
      t.loader.userWord (below (pointerBytes argv).length + ofNat (4 * i)) =
        some (argPointer argv i) := by
    intro i hi
    rw [below_add (by omega)]
    exact Loader.userWord_held h.mapped (hparts.pointers i hi) (by omega) (by omega)
  constructor
  · rw [hesp, toNat_below (by omega), layoutSize, padding]
    omega
  · rw [hesp]
    exact Loader.userWord_held h.mapped hparts.returnAddress hfits (by omega)
  · refine ⟨ofNat argv.length, ?_, ?_⟩
    · rw [hesp, show below (layoutSize argv) + 4 = below (layoutSize argv - 4) from
        below_add (n := 4) (by omega)]
      exact Loader.userWord_held h.mapped hparts.argc (by omega) (by omega)
    · exact toNat_ofNat_of_lt' (show argv.length < 4294967296 by omega)
  · refine ⟨below (pointerBytes argv).length, argPointer argv, ?_, ?_, fun i arg harg => ?_, ?_⟩
    · rw [hesp, show below (layoutSize argv) + 8 = below (layoutSize argv - 8) from
        below_add (n := 8) (by omega)]
      exact Loader.userWord_held h.mapped hparts.table (by omega) (by omega)
    · rw [hslot _ (le_refl _), argPointer, if_neg (lt_irrefl _)]
    · have hi := (List.getElem?_eq_some_iff.mp harg).1
      have hpointer : argPointer argv i = below (argBytes (argv.drop i)).length := if_pos hi
      have hle := length_argBytes_drop argv i
      have hcons := length_argBytes_cons harg
      refine ⟨hslot i (le_of_lt hi), ?_, fun b hb => ?_, ?_⟩
      · rw [hpointer]
        dsimp only [InStackPage]
        rw [toNat_below (by omega)]
        omega
      · exact hzero arg (mem_of_getElem? harg) b hb
      · rw [hpointer]
        refine Loader.userByte_held h.mapped (held_arg (by omega) hparts.args harg) (by omega) ?_
        rw [length_append, length_singleton]
        omega
    · rw [hesp]
      exact apart_stackObjects hfits

end StackSetup

namespace Loader

open StackSetup Lib

variable {s : Loader}

/-- If the stack page can be mapped, the entry point finds the arguments; if not,
`setup_stack` returns false. -/
theorem setupStack_round_trip (hs : Good s) {argv : List (List UInt8)}
    (hzero : ∀ arg ∈ argv, ∀ b ∈ arg, b ≠ 0) (hfits : layoutSize argv ≤ 4096) :
    (s.mapStack.1 = false → (s.setupStack argv).1 = some false) ∧
    (s.mapStack.1 = true → ∃ t, s.setupStack argv = (some true, t) ∧
      t.loader.EntryFrame t.esp argv) := by
  have hargs : (argBytes argv).length ≤ 4096 := by
    have hpointers := length_pointerBytes argv
    have hsize := length_pointerBytes_eq argv
    omega
  rcases hs.setupStack hargs with ⟨hmap, hout⟩ | ⟨kpage, t, hmap, hrun, hplaced, -⟩
  · exact ⟨fun _ => hout, fun htrue => absurd (hmap.symm.trans htrue) Bool.false_ne_true⟩
  · refine ⟨fun hfalse => absurd (hfalse.symm.trans hmap) Bool.false_ne_true, fun _ => ⟨t, ?_, ?_⟩⟩
    · have hfault := (hplaced.inside (by rw [length_stackBytes]; exact hfits)).1
      rw [hrun, hfault]
      rfl
    · exact hplaced.entryFrame hfits hzero

/-- The arguments `ls` and `-l`. -/
theorem setupStack_round_trip_ls :
    ∃ t, (freshProcess oneSegment).setupStack [[108, 115], [45, 108]] = (some true, t) ∧
      t.loader.EntryFrame t.esp [[108, 115], [45, 108]] :=
  (setupStack_round_trip (ready_freshProcess oneSegment).good (by simp) (by decide)).2
    (by decide +kernel)

def noMemory : Loader :=
  { freshProcess oneSegment with
    paging := { (freshProcess oneSegment).paging with answers := [] } }

/-- Without a page `setup_stack` returns false although the layout is short. -/
theorem setupStack_noMemory :
    layoutSize [[108, 115]] ≤ 4096 ∧ (noMemory.setupStack [[108, 115]]).1 = some false :=
  ⟨by decide, rfl⟩

/-- Every write is in the stack page, and every index in the array. -/
def InBounds (t : StackSetup) (argc : Nat) : Prop :=
  (∀ w ∈ t.writes, InStackPage w) ∧ ∀ i ∈ t.indices, i < argc

/-- The words of a line with their terminators are not longer than the line with its own. -/
lemma length_argBytes_words (line : List UInt8) :
    (argBytes (words Parser.delimiters line)).length ≤ line.length + 1 := by
  induction hn : line.length using Nat.strong_induction_on generalizing line with
  | _ n ih =>
    cases cut Parser.delimiters line with
    | blank hblank =>
      have hnone := words_delimiters hblank []
      rw [append_nil] at hnone
      rw [hnone]
      exact zero_le _
    | @token pre token rest heq hpre hne htok hrest =>
      subst heq
      simp only [length_append] at hn
      rw [words_token hpre hne htok hrest]
      have hcons : argBytes (token :: words Parser.delimiters (rest.drop 1)) =
          (token ++ [0]) ++ argBytes (words Parser.delimiters (rest.drop 1)) := rfl
      rw [hcons, length_append, length_append, length_singleton]
      cases rest with
      | nil =>
        have hnil : (argBytes (words Parser.delimiters ([].drop 1))).length = 0 := rfl
        omega
      | cons d rest =>
        rw [length_cons] at hn
        have hlen := ih rest.length (by omega) rest rfl
        rw [drop_succ_cons, drop_zero]
        omega

/-- For command lines of at most 4095 bytes: the array is always left unless no page is found. The
page is left exactly if the layout is longer than it. -/
theorem setupStack_in_bounds_iff (hs : Good s) {line : List UInt8} (hline : line.length ≤ 4095) :
    ((s.setupStack (words Parser.delimiters line)).1 = some false ∨
      InBounds (s.setupStack (words Parser.delimiters line)).2
        (words Parser.delimiters line).length ↔ s.mapStack.1 = false) ∧
    (s.mapStack.1 = true →
      ((∀ w ∈ (s.setupStack (words Parser.delimiters line)).2.writes, InStackPage w) ↔
        layoutSize (words Parser.delimiters line) ≤ 4096)) := by
  have hargs := length_argBytes_words line
  generalize words Parser.delimiters line = argv at hargs ⊢
  have hfits : (argBytes argv).length ≤ 4096 := by omega
  rcases hs.setupStack hfits with ⟨hmap, hout⟩ | ⟨-, -, hmap, -⟩
  · exact ⟨⟨fun _ => hmap, fun _ => .inl hout⟩,
      fun htrue => absurd (hmap.symm.trans htrue) Bool.false_ne_true⟩
  · obtain ⟨hret, kpage, hplaced, hindex⟩ := hs.setupStack_mapped hfits hmap
    refine ⟨⟨?_, fun hfalse => absurd (hfalse.symm.trans hmap) Bool.false_ne_true⟩,
      fun _ => ⟨fun hin => ?_, fun hle => ?_⟩⟩
    · rintro (hfalse | hin)
      · exact absurd hfalse hret
      · exact absurd (hin.2 _ hindex) (lt_irrefl _)
    · by_contra hlong
      obtain ⟨w, hw, hout⟩ := hplaced.outside (by rw [length_stackBytes]; omega)
      exact hout (hin w hw)
    · exact (hplaced.inside (by rw [length_stackBytes]; exact hle)).2.1

/-- The line `a` keeps to the page but not to the array. -/
theorem setupStack_in_bounds_letter :
    (∀ w ∈ ((freshProcess oneSegment).setupStack (words Parser.delimiters [97])).2.writes,
      InStackPage w) ∧
    ¬ InBounds ((freshProcess oneSegment).setupStack (words Parser.delimiters [97])).2
      (words Parser.delimiters [97]).length := by
  have hmap : (freshProcess oneSegment).mapStack.1 = true := by decide +kernel
  have hall := setupStack_in_bounds_iff (ready_freshProcess oneSegment).good
    (show ([97] : List UInt8).length ≤ 4095 by decide)
  refine ⟨(hall.2 hmap).mpr (by decide), fun hin => ?_⟩
  exact Bool.false_ne_true ((hall.1.mp (.inr hin)).symm.trans hmap)

def longLine : List UInt8 := [97] ++ 32 :: List.replicate 4093 98

lemma words_longLine : words Parser.delimiters longLine = [[97], replicate 4093 98] := by
  have hno : ∀ d ∈ ([] : List UInt8), d ∈ Parser.delimiters := nofun
  have hspace : ∀ d ∈ (32 :: replicate 4093 (98 : UInt8)).head?, d ∈ Parser.delimiters := by
    rintro d ⟨⟩
    decide
  have hend : ∀ d ∈ ([] : List UInt8).head?, d ∈ Parser.delimiters := nofun
  have hb : ∀ c ∈ replicate 4093 (98 : UInt8), c ∉ Parser.delimiters := by
    intro c hc
    rw [eq_of_mem_replicate hc]
    decide
  have hne : replicate 4093 (98 : UInt8) ≠ [] := nofun
  have hfirst := words_token hno (show ([97] : List UInt8) ≠ [] by decide)
    (by simp [Parser.delimiters]) hspace
  have hsecond := words_token hno hne hb hend
  rw [nil_append, append_nil] at hsecond
  rw [nil_append, drop_succ_cons, drop_zero, hsecond] at hfirst
  exact hfirst

/-- `a` leads to index 1 in an array of one slot, and 4095 bytes to a write off the page. -/
theorem setupStack_out_of_bounds :
    (((freshProcess oneSegment).setupStack [[97]]).1 ≠ some false ∧
      1 ∈ ((freshProcess oneSegment).setupStack [[97]]).2.indices) ∧
    longLine.length = 4095 ∧
    ((freshProcess oneSegment).setupStack (words Parser.delimiters longLine)).1 ≠ some false ∧
    ∃ w ∈ ((freshProcess oneSegment).setupStack (words Parser.delimiters longLine)).2.writes,
      ¬ InStackPage w := by
  have hmap : (freshProcess oneSegment).mapStack.1 = true := by decide +kernel
  have hgood := (ready_freshProcess oneSegment).good
  have hlen : longLine.length = 4095 := by
    simp only [longLine, length_append, length_cons, length_nil, length_replicate]
  obtain ⟨hret, -, -, hindex⟩ :=
    hgood.setupStack_mapped (show (argBytes [[97]]).length ≤ 4096 by decide) hmap
  obtain ⟨hret', kpage, hplaced, -⟩ := hgood.setupStack_mapped
    (le_trans (length_argBytes_words longLine) (by rw [hlen])) hmap
  refine ⟨⟨hret, hindex⟩, hlen, hret', hplaced.outside ?_⟩
  have hsum : ([[97], replicate 4093 (98 : UInt8)].map fun arg => arg.length + 1).sum =
      4096 := by
    simp only [map_cons, map_nil, sum_cons, sum_nil, length_cons, length_nil, length_replicate]
    decide
  rw [length_stackBytes, words_longLine, layoutSize, hsum]
  decide

end Loader

end Pintos.Userprog
