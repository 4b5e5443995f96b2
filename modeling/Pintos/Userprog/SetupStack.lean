import Pintos.Foundation.HeldBytes
import Pintos.Userprog.LoadImage

/-!
# The initial stack (userprog/process.c)

`setup_stack` maps a page below `PHYS_BASE` and writes the arguments there from the top
down: the strings, padding to a multiple of four, the pointers to the strings with a null
pointer behind them, and the frame of the entry point. Every `memcpy` to user memory goes
through the page tables, and a byte that is not mapped writable ends the call in a page
fault. The writes and the indices into the local array `address` are recorded.
-/

namespace Pintos.Userprog

open Foundation Filesys List Function Nat UInt32

namespace Loader

/-- A store by address; the processor looks the page up. The flag is false at a page
fault. -/
def copyBytes (s : Loader) : UInt32 → List UInt8 → Bool × Loader
  | _, [] => (true, s)
  | va, b :: bytes =>
      match s.mapping (va.toNat / 4096) with
      | some (frame, true) => copyBytes (s.store (frame + va.toNat % 4096) [b]) (va + 1) bytes
      | _ => (false, s)

/-- The first lines of `setup_stack`, with the `else` at its end. -/
def mapStack (s : Loader) : Bool × Loader :=
  let (page, paging) := s.paging.pallocGetPage
  let s := { s with paging := paging }
  match page with
  | none => (false, s)
  | some kpage =>
      let (success, s) := (s.zero kpage 4096).installPage (physBase - 4096) kpage true
      if success then (true, s) else (false, s.pallocFreePage kpage)

end Loader

/-- `*esp`, the local array `address`, each `memcpy` and index into `address`, the last ones first,
and whether a page fault has occurred. -/
structure StackSetup where
  loader : Loader
  esp : UInt32
  address : Nat → UInt32
  writes : List (UInt32 × Nat)
  indices : List Nat
  fault : Bool

namespace StackSetup

def maxArgsSize : Int := 4096

def argsTooLong (esp : UInt32) : Bool := wrap32 (physBase - esp).toNat > maxArgsSize

def lower (s : StackSetup) (n : Nat) : StackSetup := { s with esp := s.esp - UInt32.ofNat n }

/-- `memcpy (*esp, bytes, n)`; after a page fault nothing is written any more. -/
def memcpy (s : StackSetup) (bytes : List UInt8) : StackSetup :=
  if s.fault then s
  else
    let (ok, loader) := s.loader.copyBytes s.esp bytes
    { s with loader := loader, writes := (s.esp, bytes.length) :: s.writes, fault := !ok }

def setAddress (s : StackSetup) (i : Nat) (p : UInt32) : StackSetup :=
  { s with address := Function.update s.address i p, indices := i :: s.indices }

/-- `*esp -= n; memcpy (*esp, &address[i], n)` for `n` up to the size of a pointer. -/
def pushAddress (s : StackSetup) (i n : Nat) : StackSetup :=
  { s.lower n with indices := i :: s.indices }.memcpy ((wordBytes (s.address i)).take n)

/-- The same with the word itself. -/
def pushWord (s : StackSetup) (w : UInt32) : StackSetup := (s.lower 4).memcpy (wordBytes w)

def pushArgs (argv : List (List UInt8)) : Nat → StackSetup → Bool × StackSetup
  | 0, s => (true, s)
  | i + 1, s =>
      let arg := argv.getD i [] ++ [0]
      let s := s.lower arg.length
      let s := s.setAddress i s.esp
      if argsTooLong s.esp then (false, s)
      else pushArgs argv i (s.memcpy arg)

def pushAddresses : Nat → StackSetup → StackSetup
  | 0, s => s
  | i + 1, s => pushAddresses i (s.pushAddress i 4)

def pushFrame (s : StackSetup) (argc : Nat) : StackSetup :=
  let s := s.setAddress argc 0
  let wordAlign := s.esp.toNat % 4
  let s := if wordAlign ≠ 0 then s.pushAddress argc wordAlign else s
  let s := pushAddresses (argc + 1) s
  let temp := s.esp
  let s := s.pushWord temp
  let s := s.pushWord (UInt32.ofNat argc)
  s.pushAddress argc 4

end StackSetup

open StackSetup in
/-- `setup_stack`; no result is a page fault, from which it does not return. -/
def Loader.setupStack (s : Loader) (argv : List (List UInt8)) : Option Bool × StackSetup :=
  let (success, s) := s.mapStack
  let s : StackSetup := ⟨s, physBase, fun _ => 0, [], [], false⟩
  if success then
    let (fits, s) := pushArgs argv argv.length s
    let s := if fits then s.pushFrame argv.length else s
    (if s.fault then none else some fits, s)
  else (some false, s)

/-- The address `depth` bytes below `PHYS_BASE`. -/
def below (depth : Nat) : UInt32 := physBase - UInt32.ofNat depth

lemma below_zero : below 0 = physBase := by decide

lemma below_sub (depth n : Nat) : below depth - ofNat n = below (depth + n) := by
  rw [below, below, ofNat_add]
  grind

lemma toNat_below {depth : Nat} (h : depth ≤ 3221225472) :
    (below depth).toNat = 3221225472 - depth := by
  have hd : (UInt32.ofNat depth).toNat = depth :=
    UInt32.toNat_ofNat_of_lt' (show depth < 4294967296 by omega)
  have hle : UInt32.ofNat depth ≤ physBase := by
    rwa [UInt32.le_iff_toNat_le, hd]
  rw [below, UInt32.toNat_sub_of_le _ _ hle, hd]
  rfl

lemma wrap32_below {depth : Nat} (h : depth < 2147483648) :
    wrap32 (physBase - below depth).toNat = depth := by
  have hsub : physBase - below depth = ofNat depth := by
    rw [below]
    grind
  rw [hsub, toNat_ofNat_of_lt' (show depth < 4294967296 by omega), wrap32,
    Int.bmod_eq_of_le (by omega) (by omega)]

lemma StackSetup.argsTooLong_below {depth : Nat} (h : depth ≤ 4096) :
    argsTooLong (below depth) = false := by
  rw [argsTooLong, wrap32_below (by omega), maxArgsSize, decide_eq_false_iff_not]
  omega

lemma below_add {depth n : Nat} (h : n ≤ depth) : below depth + ofNat n = below (depth - n) := by
  obtain ⟨k, rfl⟩ : ∃ k, depth = k + n := ⟨depth - n, by omega⟩
  rw [Nat.add_sub_cancel, below, below, ofNat_add]
  grind

/-- A block lies in `[PHYS_BASE - 4096, PHYS_BASE)`. -/
def InStackPage (w : UInt32 × Nat) : Prop :=
  3221221376 ≤ w.1.toNat ∧ w.1.toNat + w.2 ≤ 3221225472

namespace Loader

variable {s : Loader} {kpage : Nat}

lemma copyBytes_paging (s : Loader) (va : UInt32) (bytes : List UInt8) :
    (s.copyBytes va bytes).2.paging = s.paging := by
  induction bytes generalizing s va with
  | nil => rfl
  | cons b bytes ih =>
    unfold copyBytes
    split
    · exact ih _ _
    · rfl

lemma store_cons (s : Loader) (a : Nat) (b : UInt8) (bytes : List UInt8) :
    (s.store a [b]).store (a + 1) bytes = s.store a (b :: bytes) := by
  unfold store
  congr 1
  funext p
  simp only [length_cons, length_nil]
  by_cases hfirst : p = a
  · subst hfirst
    rw [if_neg (by omega), if_pos (by omega), if_pos (by omega), Nat.sub_self]
    rfl
  · by_cases hrest : a + 1 ≤ p ∧ p < a + 1 + bytes.length
    · rw [if_pos hrest, if_pos (by omega)]
      obtain ⟨k, rfl⟩ : ∃ k, p = a + 1 + k := ⟨p - (a + 1), by omega⟩
      rw [Nat.add_sub_cancel_left, Nat.add_assoc, Nat.add_sub_cancel_left, Nat.add_comm 1 k]
      rfl
    · rw [if_neg hrest, if_neg (by omega), if_neg (by omega)]

lemma copyBytes_below {depth : Nat} {bytes : List UInt8}
    (hmap : s.mapping 786431 = some (kpage, true)) (hle : depth ≤ 4096)
    (hlen : bytes.length ≤ depth) :
    s.copyBytes (below depth) bytes = (true, s.store (kpage + (4096 - depth)) bytes) := by
  induction bytes generalizing s depth with
  | nil =>
    have hnone : s.store (kpage + (4096 - depth)) [] = s := by
      unfold store
      congr 1
      funext p
      rw [if_neg (by simp only [length_nil]; omega)]
    rw [hnone]
    rfl
  | cons b bytes ih =>
    rw [length_cons] at hlen
    have hva := toNat_below (show depth ≤ 3221225472 by omega)
    have hpage : (below depth).toNat / 4096 = 786431 := by omega
    have hofs : (below depth).toNat % 4096 = 4096 - depth := by omega
    have hnext : below depth + 1 = below (depth - 1) := below_add (n := 1) (by omega)
    unfold copyBytes
    rw [hpage, hmap, hofs, hnext]
    dsimp only
    have hmap' : (s.store (kpage + (4096 - depth)) [b]).mapping 786431 = some (kpage, true) :=
      hmap
    have hplace : kpage + (4096 - (depth - 1)) = kpage + (4096 - depth) + 1 := by omega
    rw [ih hmap' (by omega) (by omega), hplace, store_cons]

lemma held_store (s : Loader) (kpage o : Nat) (bytes : List UInt8) :
    Held (fun p => (s.store (kpage + o) bytes).byte (kpage + p)) o bytes := by
  intro i b hb
  have hi := (List.getElem?_eq_some_iff.mp hb).1
  dsimp only [store]
  rw [if_pos (by omega), show kpage + (o + i) - (kpage + o) = i by omega,
    getD_eq_getElem?_getD, hb, Option.getD_some]

lemma store_above (s : Loader) {kpage o p : Nat} {bytes : List UInt8} (h : o + bytes.length ≤ p) :
    (s.store (kpage + o) bytes).byte (kpage + p) = s.byte (kpage + p) := by
  dsimp only [store]
  rw [if_neg (by omega)]

end Loader

namespace StackSetup

/-- `content` stands between `*esp` and `PHYS_BASE`, or it was too long and a write left the page.
-/
structure Placed (s : StackSetup) (kpage : Nat) (content : List UInt8) : Prop where
  esp : s.esp = below content.length
  mapped : s.loader.mapping 786431 = some (kpage, true)
  inside : content.length ≤ 4096 → s.fault = false ∧ (∀ w ∈ s.writes, InStackPage w) ∧
    Held (fun o => s.loader.byte (kpage + o)) (4096 - content.length) content
  outside : 4096 < content.length → ∃ w ∈ s.writes, ¬ InStackPage w

variable {s : StackSetup} {kpage : Nat} {content : List UInt8}

section

variable (s : StackSetup) (bytes : List UInt8)

lemma memcpy_mapping (n : Nat) : (s.memcpy bytes).loader.mapping n = s.loader.mapping n := by
  unfold memcpy
  split
  · rfl
  · dsimp only [Loader.mapping]
    rw [Loader.copyBytes_paging]

lemma memcpy_writes : ∀ w ∈ s.writes, w ∈ (s.memcpy bytes).writes := by
  intro w hw
  unfold memcpy
  split
  · exact hw
  · exact mem_cons_of_mem _ hw

lemma memcpy_esp : (s.memcpy bytes).esp = s.esp := by
  unfold memcpy
  split <;> rfl

lemma memcpy_address : (s.memcpy bytes).address = s.address := by
  unfold memcpy
  split <;> rfl

lemma memcpy_indices : (s.memcpy bytes).indices = s.indices := by
  unfold memcpy
  split <;> rfl

end

section

variable (h : s.Placed kpage content)
include h

/-- A `memcpy` below what is there. The bound keeps the addresses from wrapping around. -/
lemma Placed.memcpy (bytes : List UInt8)
    (hbound : (bytes ++ content).length ≤ 1048576) (address : Nat → UInt32) (indices : List Nat) :
    (StackSetup.memcpy ⟨s.loader, below (bytes ++ content).length, address, s.writes, indices,
      s.fault⟩ bytes).Placed kpage (bytes ++ content) := by
  have hva := toNat_below (show (bytes ++ content).length ≤ 3221225472 by omega)
  refine ⟨memcpy_esp _ _, (memcpy_mapping _ _ _).trans h.mapped, fun hfits => ?_, fun hlong => ?_⟩
  · have hlen : (bytes ++ content).length = bytes.length + content.length := length_append
    obtain ⟨hfault, hwrites, hheld⟩ := h.inside (by omega)
    have hroom : bytes.length ≤ (bytes ++ content).length := by omega
    have hcopy := Loader.copyBytes_below h.mapped hfits hroom
    unfold StackSetup.memcpy
    rw [hfault]
    dsimp only
    rw [if_neg Bool.false_ne_true, hcopy]
    refine ⟨rfl, ?_, Held.append_iff.mpr ⟨Loader.held_store _ _ _ _, ?_⟩⟩
    · intro w hw
      rcases mem_cons.mp hw with rfl | hw
      · dsimp only [InStackPage]
        omega
      · exact hwrites w hw
    · have hplace : 4096 - (bytes ++ content).length + bytes.length = 4096 - content.length := by
        omega
      rw [hplace]
      exact hheld.congr fun p hle _ => Loader.store_above _ (by omega)
  · by_cases hfits : content.length ≤ 4096
    · refine ⟨(below (bytes ++ content).length, bytes.length), ?_, fun hin => ?_⟩
      · unfold StackSetup.memcpy
        dsimp only
        rw [(h.inside hfits).1, if_neg Bool.false_ne_true]
        exact mem_cons_self
      · have hle := hin.1
        dsimp only at hle
        omega
    · obtain ⟨w, hw, hout⟩ := h.outside (by omega)
      exact ⟨w, memcpy_writes _ _ w hw, hout⟩

lemma Placed.lower (bytes : List UInt8) :
    s.esp - ofNat bytes.length = below (bytes ++ content).length := by
  rw [h.esp, below_sub, length_append, add_comm]

lemma Placed.pushWord (w : UInt32) (hbound : 4 + content.length ≤ 1048576) :
    (s.pushWord w).Placed kpage (wordBytes w ++ content) := by
  have hpush := h.memcpy (wordBytes w)
    (by rw [length_append, length_wordBytes]; exact hbound) s.address s.indices
  rwa [← h.lower] at hpush

lemma Placed.pushAddress (i : Nat) {n : Nat} (hle : n ≤ 4) (hbound : n + content.length ≤ 1048576) :
    (s.pushAddress i n).Placed kpage ((wordBytes (s.address i)).take n ++ content) := by
  have hlen : ((wordBytes (s.address i)).take n).length = n := by
    rw [length_take, length_wordBytes]
    omega
  have hpush := h.memcpy _ (by rw [length_append, hlen]; exact hbound) s.address (i :: s.indices)
  rwa [← h.lower, hlen] at hpush

end

lemma pushAddress_address (s : StackSetup) (i n : Nat) : (s.pushAddress i n).address = s.address :=
  memcpy_address _ _

lemma pushAddresses_address (n : Nat) (s : StackSetup) :
    (pushAddresses n s).address = s.address := by
  induction n generalizing s with
  | zero => rfl
  | succ n ih =>
    unfold pushAddresses
    rw [ih, pushAddress_address]

lemma Placed.pushAddresses (h : s.Placed kpage content) (n : Nat)
    (hbound : 4 * n + content.length ≤ 1048576) :
    (pushAddresses n s).Placed kpage
      (((range n).flatMap fun i => wordBytes (s.address i)) ++ content) := by
  induction n generalizing s content with
  | zero => exact h
  | succ n ih =>
    have hone := h.pushAddress n (le_refl 4) (by omega)
    have htake : (wordBytes (s.address n)).take 4 = wordBytes (s.address n) := rfl
    rw [htake] at hone
    have hrest := ih hone (by rw [length_append, length_wordBytes]; omega)
    rw [pushAddress_address, ← append_assoc] at hrest
    rwa [range_succ, flatMap_append, flatMap_singleton]

def argBytes (argv : List (List UInt8)) : List UInt8 := argv.flatMap fun arg => arg ++ [0]

lemma argBytes_drop {argv : List (List UInt8)} {i : Nat} (hi : i < argv.length) :
    argBytes (argv.drop i) = (argv.getD i [] ++ [0]) ++ argBytes (argv.drop (i + 1)) := by
  rw [drop_eq_getElem_cons hi, getD_eq_getElem _ _ hi]
  rfl

lemma argBytes_take_drop (argv : List (List UInt8)) (i : Nat) :
    argBytes argv = argBytes (argv.take i) ++ argBytes (argv.drop i) := by
  rw [argBytes, argBytes, argBytes, ← flatMap_append, take_append_drop]

lemma length_argBytes_drop (argv : List (List UInt8)) (i : Nat) :
    (argBytes (argv.drop i)).length ≤ (argBytes argv).length := by
  rw [argBytes_take_drop argv i, length_append]
  omega

/-- The loop over the strings passes its check if they fit into a page, and notes where
each string is. -/
lemma Placed.pushArgs {argv : List (List UInt8)} (hfits : (argBytes argv).length ≤ 4096)
    {i : Nat} (hi : i ≤ argv.length) (h : s.Placed kpage (argBytes (argv.drop i))) :
    ∃ s', pushArgs argv i s = (true, s') ∧ s'.Placed kpage (argBytes argv) ∧
      (∀ j < i, s'.address j = below (argBytes (argv.drop j)).length) ∧
      ∀ j, i ≤ j → s'.address j = s.address j := by
  induction i generalizing s with
  | zero => exact ⟨s, rfl, h, nofun, fun _ _ => rfl⟩
  | succ i ih =>
    have hsplit := argBytes_drop (lt_of_succ_le hi)
    have hle := length_argBytes_drop argv i
    have hlower : s.lower (argv.getD i [] ++ [0]).length =
        { s with esp := below (argBytes (argv.drop i)).length } := by
      rw [StackSetup.lower, h.lower, hsplit]
    have hpush := h.memcpy (argv.getD i [] ++ [0]) (by rw [← hsplit]; omega)
      (update s.address i (below (argBytes (argv.drop i)).length)) (i :: s.indices)
    rw [← hsplit] at hpush
    obtain ⟨s', hrun, hplaced, haddr, hkeep⟩ := ih (le_of_succ_le hi) hpush
    refine ⟨s', ?_, hplaced, fun j hj => ?_, fun j hj => ?_⟩
    · have hcheck : argsTooLong (below (argBytes (argv.drop i)).length) = false :=
        argsTooLong_below (le_trans hle hfits)
      rw [StackSetup.pushArgs, hlower]
      refine Eq.trans (if_neg ?_) hrun
      exact ne_true_of_eq_false hcheck
    · rcases Nat.lt_succ_iff_lt_or_eq.mp hj with hlt | rfl
      · exact haddr j hlt
      · rw [hkeep j (le_refl j), memcpy_address]
        exact update_self _ _ _
    · rw [hkeep j (by omega), memcpy_address]
      exact update_of_ne (by omega) _ _

/-- What `address[i]` holds at the end. -/
def argPointer (argv : List (List UInt8)) (i : Nat) : UInt32 :=
  if i < argv.length then below (argBytes (argv.drop i)).length else 0

def padding (n : Nat) : Nat := (4 - n % 4) % 4

/-- The pointers with all that is above them. -/
def pointerBytes (argv : List (List UInt8)) : List UInt8 :=
  ((List.range (argv.length + 1)).flatMap fun i => wordBytes (argPointer argv i)) ++
    (List.replicate (padding (argBytes argv).length) 0 ++ argBytes argv)

def stackBytes (argv : List (List UInt8)) : List UInt8 :=
  wordBytes 0 ++ (wordBytes (UInt32.ofNat argv.length) ++
    (wordBytes (below (pointerBytes argv).length) ++ pointerBytes argv))

/-- The strings with their terminators, padding to 4, `argc + 1` pointers, and 12 bytes of
frame. -/
def layoutSize (argv : List (List UInt8)) : Nat :=
  (argv.map fun arg => arg.length + 1).sum + padding (argv.map fun arg => arg.length + 1).sum +
    4 * (argv.length + 1) + 12

section

variable (argv : List (List UInt8))

lemma length_argBytes : (argBytes argv).length = (argv.map fun arg => arg.length + 1).sum := by
  simp [argBytes, length_flatMap]

lemma length_pointerBytes : (pointerBytes argv).length + 12 = layoutSize argv := by
  rw [pointerBytes, length_append, length_words, length_append, length_replicate,
    layoutSize, ← length_argBytes]
  omega

lemma length_stackBytes : (stackBytes argv).length = layoutSize argv := by
  rw [← length_pointerBytes]
  simp only [stackBytes, length_append, length_wordBytes]
  omega

lemma length_le_argBytes : argv.length ≤ (argBytes argv).length := by
  induction argv with
  | nil => exact zero_le _
  | cons arg argv ih =>
    have hcons : argBytes (arg :: argv) = (arg ++ [0]) ++ argBytes argv := rfl
    rw [hcons]
    simp only [length_append, length_cons, length_nil]
    omega

end

lemma layoutSize_le {argv : List (List UInt8)} (h : (argBytes argv).length ≤ 4096) :
    layoutSize argv ≤ 1048576 := by
  have hargc := length_le_argBytes argv
  rw [layoutSize, ← length_argBytes, padding]
  omega

/-- The padding, written from the null pointer `address[argc]`. -/
lemma Placed.pad (h : s.Placed kpage content) (hle : content.length ≤ 4096) {argc : Nat}
    (hnull : s.address argc = 0) :
    ∃ s', (if s.esp.toNat % 4 ≠ 0 then s.pushAddress argc (s.esp.toNat % 4) else s) = s' ∧
      s'.Placed kpage (replicate (padding content.length) 0 ++ content) ∧
      s'.address = s.address := by
  have hpad : s.esp.toNat % 4 = padding content.length := by
    rw [h.esp, toNat_below (by omega), padding]
    omega
  have hlt : padding content.length < 4 := mod_lt _ (by omega)
  rw [hpad]
  by_cases hzero : padding content.length = 0
  · refine ⟨s, if_neg (not_not.mpr hzero), ?_, rfl⟩
    rwa [hzero]
  · refine ⟨_, if_pos hzero, ?_, pushAddress_address s argc _⟩
    have hpush := h.pushAddress argc (le_of_lt hlt) (by omega)
    have hbytes : wordBytes 0 = replicate 4 0 := by decide
    rwa [hnull, hbytes, take_replicate, min_eq_left (le_of_lt hlt)] at hpush

lemma Placed.pushFrame {argv : List (List UInt8)} (hfits : (argBytes argv).length ≤ 4096)
    (h : s.Placed kpage (argBytes argv))
    (haddr : ∀ j < argv.length, s.address j = below (argBytes (argv.drop j)).length) :
    (s.pushFrame argv.length).Placed kpage (stackBytes argv) := by
  have hbound := layoutSize_le hfits
  have hpointers := length_pointerBytes argv
  have hnull : (s.setAddress argv.length 0).Placed kpage (argBytes argv) :=
    ⟨h.esp, h.mapped, h.inside, h.outside⟩
  have haddress : ∀ i, i ≤ argv.length →
      (s.setAddress argv.length 0).address i = argPointer argv i := by
    intro i hi
    dsimp only [setAddress]
    unfold argPointer
    rcases lt_or_eq_of_le hi with hlt | rfl
    · rw [update_of_ne (by omega), if_pos hlt, haddr i hlt]
    · rw [update_self, if_neg (lt_irrefl _)]
  unfold StackSetup.pushFrame
  generalize s.setAddress argv.length 0 = s₀ at hnull haddress
  have hlast : s₀.address argv.length = 0 := by
    rw [haddress _ (le_refl _), argPointer, if_neg (lt_irrefl _)]
  obtain ⟨s₁, hs₁, hpadded, haddress₁⟩ := hnull.pad hfits hlast
  dsimp only
  rw [hs₁]
  have htable : ((range (argv.length + 1)).flatMap fun i => wordBytes (s₁.address i)) ++
      (replicate (padding (argBytes argv).length) 0 ++ argBytes argv) = pointerBytes argv := by
    rw [pointerBytes, haddress₁]
    congr 1
    refine flatMap_congr fun i hi => ?_
    rw [haddress i (by simpa [Nat.lt_succ_iff] using hi)]
  have hpushed := hpadded.pushAddresses (argv.length + 1) (by
    rw [← htable, length_append, length_words] at hpointers
    omega)
  rw [htable] at hpushed
  have haddress₂ : (StackSetup.pushAddresses (argv.length + 1) s₁).address = s₁.address :=
    pushAddresses_address _ _
  generalize StackSetup.pushAddresses (argv.length + 1) s₁ = s₂ at hpushed haddress₂
  rw [hpushed.esp]
  have hargv := hpushed.pushWord (below (pointerBytes argv).length) (by omega)
  have hargc := hargv.pushWord (ofNat argv.length) (by rw [length_append, length_wordBytes]; omega)
  have hret := hargc.pushAddress argv.length (le_refl 4)
    (by simp only [length_append, length_wordBytes]; omega)
  have hzero : ((s₂.pushWord (below (pointerBytes argv).length)).pushWord
      (ofNat argv.length)).address argv.length = 0 := by
    unfold StackSetup.pushWord
    rw [memcpy_address, StackSetup.lower, memcpy_address, StackSetup.lower]
    dsimp only
    rw [haddress₂, haddress₁, hlast]
  rwa [hzero] at hret

lemma mem_indices_pushFrame (s : StackSetup) (argc : Nat) : argc ∈ (s.pushFrame argc).indices := by
  unfold StackSetup.pushFrame pushAddress
  dsimp only
  rw [memcpy_indices]
  exact mem_cons_self

end StackSetup

end Pintos.Userprog
