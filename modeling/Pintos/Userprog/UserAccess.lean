import Pintos.Userprog.SyscallHandler

/-!
# Which bytes the system calls access

The handler checks the first byte of a word, the range of a buffer but not its pages,
and the pages of a string. It translates the first address of a buffer or string and
goes on from there in physical memory.
-/

namespace Pintos.Userprog

open Foundation Option

namespace Handled

variable {α β : Type}

lemma bind_eq (x : Handled α) (f : α → Handled β) : x >>= f = x.bind f := rfl

@[simp] lemma pure_accesses (a : α) : (pure a : Handled α).accesses = [] := rfl

@[simp] lemma pure_ended (a : α) : (pure a : Handled α).ended = .value a := rfl

@[simp] lemma exit_accesses : (exit : Handled α).accesses = [] := rfl

@[simp] lemma exit_ended : (exit : Handled α).ended = .stopped .exit := rfl

variable {x : Handled α} {f : α → Handled β}

lemma bind_value {b : β} :
    (x >>= f).ended = .value b ↔ ∃ a, x.ended = .value a ∧ (f a).ended = .value b := by
  rw [bind_eq, bind]
  cases x.ended <;> simp

lemma bind_fault :
    (x >>= f).ended = .stopped .fault ↔
      x.ended = .stopped .fault ∨ ∃ a, x.ended = .value a ∧ (f a).ended = .stopped .fault := by
  rw [bind_eq, bind]
  cases x.ended <;> simp

lemma mem_bind {c : Access} :
    c ∈ (x >>= f).accesses ↔
      c ∈ x.accesses ∨ ∃ a, x.ended = .value a ∧ c ∈ (f a).accesses := by
  rw [bind_eq, bind]
  cases x.ended <;> simp

end Handled

namespace UserSpace

variable {m : UserSpace}

/-- Below `PHYS_BASE` and mapped. -/
def Present (m : UserSpace) (va : UInt32) : Prop :=
  isUserVaddr va = true ∧ m.pd.translate va ≠ none

instance (m : UserSpace) (va : UInt32) : Decidable (m.Present va) :=
  inferInstanceAs (Decidable (_ ∧ _))

/-- Every access of this piece is to a user byte that is present, and it does not end in
a page fault. -/
structure Safe {α : Type} (m : UserSpace) (x : Handled α) : Prop where
  present : ∀ c ∈ x.accesses, m.Present c.user
  ended : x.ended ≠ .stopped .fault

lemma safe_bind {α β : Type} {x : Handled α} {f : α → Handled β} :
    m.Safe (x >>= f) ↔ m.Safe x ∧ ∀ a, x.ended = .value a → m.Safe (f a) := by
  constructor
  · intro h
    have hend := fun hfault => h.ended (Handled.bind_fault.mpr hfault)
    refine ⟨⟨fun c hc => h.present c (Handled.mem_bind.mpr (Or.inl hc)),
      fun hx => hend (Or.inl hx)⟩, fun a ha => ⟨fun c hc => ?_, fun hfa => ?_⟩⟩
    · exact h.present c (Handled.mem_bind.mpr (Or.inr ⟨a, ha, hc⟩))
    · exact hend (Or.inr ⟨a, ha, hfa⟩)
  · rintro ⟨hx, hf⟩
    refine ⟨fun c hc => ?_, fun hfault => ?_⟩
    · rcases Handled.mem_bind.mp hc with hc | ⟨a, ha, hc⟩
      · exact hx.present c hc
      · exact (hf a ha).present c hc
    · rcases Handled.bind_fault.mp hfault with hfault | ⟨a, ha, hfault⟩
      · exact hx.ended hfault
      · exact (hf a ha).ended hfault

lemma safe_nil {α : Type} {x : Handled α} (h : x.accesses = [])
    (hend : x.ended ≠ .stopped .fault) : m.Safe x :=
  ⟨by simp [h], hend⟩

lemma safe_pure {α : Type} (a : α) : m.Safe (pure a) := safe_nil rfl (by simp)

lemma safe_exit {α : Type} : m.Safe (Handled.exit : Handled α) := safe_nil rfl (by simp)

lemma safe_isValidPtr (va : UInt32) : m.Safe (isValidPtr va) := by
  unfold isValidPtr
  split
  · exact safe_pure ()
  · exact safe_exit

variable {va esp : UInt32} {ptr n : Nat} {r : Request}

@[simp] lemma isValidPtr_value {u : Unit} :
    (isValidPtr va).ended = .value u ↔ isUserVaddr va = true := by
  unfold isValidPtr
  by_cases h : isUserVaddr va = true <;> simp [h]

lemma safe_getKernelPtr (va : UInt32) : m.Safe (m.getKernelPtr va) := by
  rw [getKernelPtr, safe_bind]
  refine ⟨safe_isValidPtr va, fun _ _ => ?_⟩
  split
  · exact safe_pure _
  · exact safe_exit

lemma getKernelPtr_value :
    (m.getKernelPtr va).ended = .value ptr ↔
      isUserVaddr va = true ∧ m.pd.translate va = some ptr := by
  rw [getKernelPtr, Handled.bind_value, PageDir.pagedirGetPage_eq]
  simp only [isValidPtr_value, exists_const]
  cases m.pd.translate va with
  | none => simp
  | some p => simp

lemma present_iff : m.Present va ↔ ∃ ptr, (m.getKernelPtr va).ended = .value ptr := by
  simp only [getKernelPtr_value, Present, ← isSome_iff_ne_none, isSome_iff_exists, exists_and_left]

lemma safe_touch {α : Type} {a : α} :
    m.Safe ⟨touch va ptr n, .value a⟩ ↔ ∀ k < n, m.Present (byteAt va k) := by
  constructor
  · intro h
    simpa [touch] using h.present
  · intro h
    exact ⟨by simpa [touch] using h, by simp⟩

/-- The four bytes at an address are present. -/
def Word (m : UserSpace) (va : UInt32) : Prop := ∀ k < 4, m.Present (byteAt va k)

lemma Present.physOf (h : m.Present va) : ∃ p, m.physOf va = some p := by
  rw [UserSpace.physOf, if_pos h.1]
  exact ne_none_iff_exists'.mp h.2

lemma Word.loadArg (h : m.Word va) : ∃ w, (m.loadArg va).ended = .value w := by
  rcases (h 0 (by omega)).physOf with ⟨p0, h0⟩
  rcases (h 1 (by omega)).physOf with ⟨p1, h1⟩
  rcases (h 2 (by omega)).physOf with ⟨p2, h2⟩
  rcases (h 3 (by omega)).physOf with ⟨p3, h3⟩
  simp only [UserSpace.loadArg, h0, h1, h2, h3]
  exact ⟨_, rfl⟩

lemma safe_loadArg : m.Safe (m.loadArg va) ↔ m.Word va := by
  constructor
  · intro h
    simpa [loadArg, Word] using h.present
  · intro h
    rcases h.loadArg with ⟨w, hw⟩
    refine ⟨by simpa [loadArg, Word] using h, ?_⟩
    rw [hw]
    simp

/-- `get_arg` tests only that a word starts below `PHYS_BASE`. -/
lemma safe_getArg {left counter : Nat} :
    m.Safe (m.getArg esp left counter) ↔
      ∀ k < left, (∀ j ≤ k, isUserVaddr (argPtr esp (counter + j)) = true) →
        m.Word (argPtr esp (counter + k)) := by
  induction left generalizing counter with
  | zero =>
    refine iff_of_true (safe_pure []) fun k hk => ?_
    omega
  | succ left ih =>
    have hshift : ∀ j, counter + 1 + j = counter + (j + 1) := fun j => by omega
    rw [getArg]
    simp only [safe_bind, isValidPtr_value, safe_loadArg, ih, hshift]
    constructor
    · intro h k hk huser
      have hfirst := h.2 () (huser 0 (Nat.zero_le k))
      cases k with
      | zero => exact hfirst.1
      | succ k =>
        rcases hfirst.1.loadArg with ⟨w, hw⟩
        exact (hfirst.2 w hw).1 k (by omega) fun j hj => huser (j + 1) (by omega)
    · intro h
      refine ⟨safe_isValidPtr _, fun _ huser => ?_⟩
      refine ⟨h 0 (by omega) fun j hj => ?_, fun w _ => ⟨fun k hk hrest => ?_, fun _ _ => ?_⟩⟩
      · rwa [Nat.le_zero.mp hj]
      · refine h (k + 1) (by omega) fun j hj => ?_
        cases j with
        | zero => exact huser
        | succ j => exact hrest j (by omega)
      · exact safe_pure _

/-- `is_valid_string` tests the page of every byte before it reads it. -/
lemma safe_isValidStringLoop {left : Nat} {str : UInt32} :
    m.Safe (m.isValidStringLoop left str) := by
  induction left generalizing str with
  | zero => exact safe_exit
  | succ left ih =>
    rw [isValidStringLoop]
    simp only [safe_bind]
    refine ⟨safe_getKernelPtr str, fun ptr hptr => ⟨?_, fun c _ => ?_⟩⟩
    · refine safe_touch.mpr fun k hk => ?_
      have hzero : byteAt str k = str := by
        rw [Nat.lt_one_iff.mp hk, byteAt]
        simp
      rw [hzero]
      exact present_iff.mpr ⟨ptr, hptr⟩
    · by_cases hc : c ≠ 0
      · rw [if_pos hc]
        exact ih
      · rw [if_neg hc]
        exact safe_pure ()

lemma safe_isValidBuffer (left : Nat) (buffer : UInt32) : m.Safe (isValidBuffer left buffer) := by
  induction left generalizing buffer with
  | zero => exact safe_pure ()
  | succ left ih =>
    rw [isValidBuffer, safe_bind]
    exact ⟨safe_isValidPtr buffer, fun _ _ => ih _⟩

lemma safe_stringArg (str : UInt32) : m.Safe (m.stringArg str) := by
  rw [stringArg]
  simp only [safe_bind]
  exact ⟨safe_isValidStringLoop, fun _ _ => ⟨safe_getKernelPtr str, fun _ _ => safe_pure _⟩⟩

lemma safe_bufferArg (buffer size : UInt32) : m.Safe (m.bufferArg buffer size) := by
  rw [bufferArg]
  simp only [safe_bind]
  exact ⟨safe_isValidBuffer _ _, fun _ _ =>
    ⟨safe_getKernelPtr buffer, fun _ _ => safe_pure _⟩⟩

lemma safe_serve (argv : List UInt32) (no : SysNo) : m.Safe (m.serve argv no) := by
  cases no <;>
    first
    | exact safe_pure _
    | exact safe_bind.mpr ⟨safe_stringArg _, fun _ _ => safe_pure _⟩
    | exact safe_bind.mpr ⟨safe_bufferArg _ _, fun _ _ => safe_pure _⟩

/-- A system call up to the bytes that `read` or `write` moves, at most `size`. -/
def systemCall (m : UserSpace) (moved : Request → Nat) (esp : UInt32) : Handled Request := do
  let r ← m.syscallHandler esp
  match r.buffer with
  | some (p, _) => ⟨touch p.user p.ptr (moved r), .value r⟩
  | none => pure r

/-- The number of the call, as the handler reads it. -/
def callNo (m : UserSpace) (ptr : Nat) : Option SysNo :=
  SysNo.decode
    (wordOfBytes (m.mem ptr) (m.mem (ptr + 1)) (m.mem (ptr + 2)) (m.mem (ptr + 3))).toNat

/-- Left to chance: number, arguments below `PHYS_BASE` and buffer are in present pages. -/
structure Backed (m : UserSpace) (moved : Request → Nat) (esp : UInt32) : Prop where
  number : m.Present esp → m.Word esp
  args : ∀ ptr, (m.getKernelPtr esp).ended = .value ptr → ∀ no, m.callNo ptr = some no →
    ∀ k < no.argNum, (∀ j ≤ k, isUserVaddr (argPtr esp j) = true) → m.Word (argPtr esp k)
  buffer : ∀ r, (m.syscallHandler esp).ended = .value r → ∀ p size, r.buffer = some (p, size) →
    ∀ k < moved r, m.Present (byteAt p.user k)

lemma loadNumber_value {w : UInt32} :
    (m.loadNumber va ptr).ended = .value w ↔
      wordOfBytes (m.mem ptr) (m.mem (ptr + 1)) (m.mem (ptr + 2)) (m.mem (ptr + 3)) = w := by
  simp [loadNumber]

lemma safe_syscallHandler :
    m.Safe (m.syscallHandler esp) ↔
      (m.Present esp → m.Word esp) ∧
      ∀ ptr, (m.getKernelPtr esp).ended = .value ptr → ∀ no, m.callNo ptr = some no →
        ∀ k < no.argNum, (∀ j ≤ k, isUserVaddr (argPtr esp j) = true) →
          m.Word (argPtr esp k) := by
  have hargs : ∀ no, m.Safe (m.getArg esp (SysNo.argNum no) 0) ↔ ∀ k < no.argNum,
      (∀ j ≤ k, isUserVaddr (argPtr esp j) = true) → m.Word (argPtr esp k) := by
    intro no
    simp [safe_getArg]
  rw [syscallHandler]
  simp only [safe_bind, loadNumber_value, forall_eq']
  constructor
  · intro h
    refine ⟨fun hesp => ?_, fun ptr hptr no hno => ?_⟩
    · rcases present_iff.mp hesp with ⟨ptr, hptr⟩
      exact safe_touch.mp (h.2 ptr hptr).1
    · have hrest := (h.2 ptr hptr).2
      rw [callNo] at hno
      rw [hno] at hrest
      exact (hargs no).mp (safe_bind.mp hrest).1
  · rintro ⟨hword, h⟩
    refine ⟨safe_getKernelPtr esp, fun ptr hptr => ⟨?_, ?_⟩⟩
    · exact safe_touch.mpr (hword (present_iff.mpr ⟨ptr, hptr⟩))
    · have hno := h ptr hptr
      rw [callNo] at hno
      split
      · exact safe_exit
      · rename_i no heq
        exact safe_bind.mpr ⟨(hargs no).mpr (hno no heq), fun argv _ => safe_serve argv no⟩

/-- Every user byte accessed is present exactly if number, arguments and buffer are where the
handler assumes them. -/
theorem safe_systemCall_iff (m : UserSpace) (moved : Request → Nat) (esp : UInt32) :
    m.Safe (m.systemCall moved esp) ↔ m.Backed moved esp := by
  rw [systemCall, safe_bind, safe_syscallHandler]
  constructor
  · rintro ⟨⟨hnumber, hargs⟩, hbuffer⟩
    refine ⟨hnumber, hargs, fun r hr p size hp => ?_⟩
    have hr := hbuffer r hr
    rw [hp] at hr
    exact safe_touch.mp hr
  · intro h
    refine ⟨⟨h.number, h.args⟩, fun r hr => ?_⟩
    cases hp : r.buffer with
    | none => exact safe_pure r
    | some b => exact safe_touch.mpr (h.buffer r hr b.1 b.2 hp)

/-- A page is mapped at 0x8049000, and nothing at 0x804a000. -/
def onePage : UserSpace where
  pd := {
    base := 0x100000
    word := fun a =>
      if a = 0x100080 then 0x101007 else if a = 0x101124 then 0x300007 else 0
    formed := by
      intro i _
      split_ifs <;> decide }
  mem := fun p => if p = 0x300ffc then 1 else 0

/-- The argument of `exit` is in an absent page: `get_arg` reads it and the kernel panics. -/
theorem getArg_faults :
    (onePage.systemCall (fun _ => 0) 0x8049ffc).ended = .stopped .fault ∧
      ⟨0x804a000, none⟩ ∈ (onePage.systemCall (fun _ => 0) 0x8049ffc).accesses := by
  decide +kernel

/-- The bytes that user addresses from `va` on are mapped to. -/
def userTouch (m : UserSpace) (va : UInt32) (n : Nat) : List Access :=
  (List.range n).map fun k => ⟨byteAt va k, m.pd.translate (byteAt va k)⟩

/-- Wherever the range enters a page, the frame is the one after the last. -/
def Adjacent (m : UserSpace) (va : UInt32) (n : Nat) : Prop :=
  ∀ k, k + 1 < n → (byteAt va (k + 1)).toNat % 4096 = 0 →
    m.pd.frame (byteAt va (k + 1)) = (m.pd.frame (byteAt va k)).map (· + 4096)

lemma byteAt_zero (va : UInt32) : byteAt va 0 = va := by
  simp [byteAt]

lemma toNat_byteAt_succ {k : Nat} (h : isUserVaddr (byteAt va k) = true) :
    (byteAt va (k + 1)).toNat = (byteAt va k).toNat + 1 := by
  have hlt := (isUserVaddr_iff _).mp h
  have hsucc : byteAt va (k + 1) = byteAt va k + 1 := by
    rw [byteAt, byteAt, UInt32.add_assoc]
    congr 1
    apply UInt32.toNat_inj.mp
    simp
  rw [hsucc, UInt32.toNat_add]
  simp only [UInt32.toNat_one]
  omega

lemma translate_succ {k p : Nat} (huser : isUserVaddr (byteAt va k) = true)
    (hp : m.pd.translate (byteAt va k) = some p) :
    m.pd.translate (byteAt va (k + 1)) = some (p + 1) ↔
      ((byteAt va (k + 1)).toNat % 4096 = 0 →
        m.pd.frame (byteAt va (k + 1)) = (m.pd.frame (byteAt va k)).map (· + 4096)) := by
  have hnat := toNat_byteAt_succ huser
  rw [PageDir.translate_eq] at hp ⊢
  rcases map_eq_some_iff.mp hp with ⟨f, hf, hfp⟩
  rw [hf, map_some]
  by_cases hpage : (byteAt va (k + 1)).toNat % 4096 = 0
  · simp only [hpage, Nat.add_zero, map_id', forall_const]
    have heq : f + 4096 = p + 1 := by omega
    rw [heq]
  · have hsame : m.pd.frame (byteAt va (k + 1)) = m.pd.frame (byteAt va k) :=
      m.pd.frame_congr (by omega)
    refine iff_of_true ?_ fun h => absurd h hpage
    rw [hsame, hf, map_some, some.injEq]
    omega

lemma touch_eq_userTouch_iff :
    touch va ptr n = m.userTouch va n ↔
      ∀ k < n, m.pd.translate (byteAt va k) = some (ptr + k) := by
  rw [touch, userTouch, List.map_inj_left]
  simp [eq_comm]

/-- Memory from the first byte on is what the addresses map to exactly if frames are adjacent. -/
lemma touch_eq_iff_adjacent (hpresent : ∀ k < n, m.Present (byteAt va k))
    (hptr : m.pd.translate va = some ptr) :
    touch va ptr n = m.userTouch va n ↔ m.Adjacent va n := by
  rw [touch_eq_userTouch_iff]
  constructor
  · intro h k hk
    exact (translate_succ (hpresent k (by omega)).1 (h k (by omega))).mp (h (k + 1) hk)
  · intro h k hk
    induction k with
    | zero =>
      rwa [byteAt_zero]
    | succ k ih =>
      exact (translate_succ (hpresent k (by omega)).1 (ih (by omega))).mpr (h k hk)

/-- The string at an address of physical memory ends after `n` characters. -/
def CString (m : UserSpace) (ptr n : Nat) : Prop :=
  (∀ k < n, m.mem (ptr + k) ≠ 0) ∧ m.mem (ptr + n) = 0

/-- The string at a user address ends after `n` characters, all of them present. -/
def UserString (m : UserSpace) (va : UInt32) (n : Nat) : Prop :=
  ∀ k ≤ n, isUserVaddr (byteAt va k) = true ∧
    ∃ p, m.pd.translate (byteAt va k) = some p ∧ (m.mem p = 0 ↔ k = n)

lemma UserString.present (h : m.UserString va n) : ∀ k < n + 1, m.Present (byteAt va k) := by
  intro k hk
  rcases h k (by omega) with ⟨huser, p, hp, -⟩
  exact ⟨huser, by simp [hp]⟩

lemma string_eq_iff_adjacent (hs : m.UserString va n) (hptr : m.pd.translate va = some ptr) :
    (∃ n', m.CString ptr n' ∧ touch va ptr (n' + 1) = m.userTouch va (n + 1)) ↔
      m.Adjacent va (n + 1) := by
  rw [← touch_eq_iff_adjacent hs.present hptr]
  constructor
  · rintro ⟨n', -, heq⟩
    have hlen : n' + 1 = n + 1 := by
      simpa [touch, userTouch] using congrArg List.length heq
    rwa [hlen] at heq
  · intro heq
    refine ⟨n, ?_, heq⟩
    have hbyte : ∀ k ≤ n, (m.mem (ptr + k) = 0 ↔ k = n) := by
      intro k hk
      rcases hs k hk with ⟨-, p, hp, hzero⟩
      rw [touch_eq_userTouch_iff.mp heq k (by omega)] at hp
      cases hp
      exact hzero
    exact ⟨fun k hk h0 => absurd ((hbyte k (by omega)).mp h0) (by omega),
      (hbyte n (Nat.le_refl n)).mpr rfl⟩

def Translated (m : UserSpace) (p : Pointer) : Prop := m.pd.translate p.user = some p.ptr

lemma translated_stringArg {str : UInt32} {p : Pointer}
    (h : (m.stringArg str).ended = .value p) : m.Translated p := by
  rw [stringArg] at h
  simp only [Handled.bind_value, getKernelPtr_value, Handled.pure_ended, Ended.value.injEq] at h
  rcases h with ⟨_, _, ptr, ⟨-, htr⟩, rfl⟩
  exact htr

lemma translated_bufferArg {buffer size : UInt32} {p : Pointer}
    (h : (m.bufferArg buffer size).ended = .value p) : m.Translated p := by
  rw [bufferArg] at h
  simp only [Handled.bind_value, getKernelPtr_value, Handled.pure_ended, Ended.value.injEq] at h
  rcases h with ⟨_, _, ptr, ⟨-, htr⟩, rfl⟩
  exact htr

lemma translated_serve {argv : List UInt32} {no : SysNo} (h : (m.serve argv no).ended = .value r) :
    (∀ p, r.string = some p → m.Translated p) ∧
      ∀ p size, r.buffer = some (p, size) → m.Translated p := by
  cases no with
  | exec | create | remove | openFile | chdir | mkdir | readdir =>
    rcases Handled.bind_value.mp h with ⟨p, hp, hr⟩
    cases hr
    simp [Request.string, Request.buffer, translated_stringArg hp]
  | read | write =>
    rcases Handled.bind_value.mp h with ⟨p, hp, hr⟩
    cases hr
    simpa [Request.string, Request.buffer] using translated_bufferArg hp
  | halt | exit | wait | filesize | seek | tell | close | isdir | inumber =>
    cases h
    simp [Request.string, Request.buffer]

lemma serve_of_syscallHandler (h : (m.syscallHandler esp).ended = .value r) :
    ∃ argv no, (m.serve argv no).ended = .value r := by
  rw [syscallHandler] at h
  rcases Handled.bind_value.mp h with ⟨ptr, -, h⟩
  rcases Handled.bind_value.mp h with ⟨number, -, h⟩
  split at h
  · simp at h
  · rcases Handled.bind_value.mp h with ⟨argv, -, h⟩
    exact ⟨argv, _, h⟩

lemma translated_syscallHandler (h : (m.syscallHandler esp).ended = .value r) :
    (∀ p, r.string = some p → m.Translated p) ∧
      ∀ p size, r.buffer = some (p, size) → m.Translated p := by
  obtain ⟨argv, no, hserve⟩ := serve_of_syscallHandler h
  exact translated_serve hserve

/-- `read`, `write` and the calls with a string access what the user's addresses are mapped to
exactly if the frames of the range are adjacent. -/
theorem accesses_iff_adjacent {m : UserSpace} {esp : UInt32} {r : Request}
    (h : (m.syscallHandler esp).ended = .value r) :
    (∀ p size, r.buffer = some (p, size) → (∀ k < size, m.Present (byteAt p.user k)) →
      ∀ moved ≤ size, touch p.user p.ptr moved = m.userTouch p.user moved ↔
        m.Adjacent p.user moved) ∧
    ∀ p n, r.string = some p → m.UserString p.user n →
      ((∃ n', m.CString p.ptr n' ∧ touch p.user p.ptr (n' + 1) = m.userTouch p.user (n + 1)) ↔
        m.Adjacent p.user (n + 1)) := by
  have htr := translated_syscallHandler h
  refine ⟨fun p size hp hpresent moved hmoved => ?_, fun p n hp hs => ?_⟩
  · exact touch_eq_iff_adjacent (fun k hk => hpresent k (by omega)) (htr.2 p size hp)
  · exact string_eq_iff_adjacent hs (htr.1 p hp)

/-- Two pages with frames far apart, and the arguments of `write (1, 0x8048ffe, 4)`. -/
def twoPages : UserSpace where
  pd := {
    base := 0x100000
    word := fun a =>
      if a = 0x100080 then 0x101007 else if a = 0x101120 then 0x300007
      else if a = 0x101124 then 0x500007 else 0
    formed := by
      intro i _
      split_ifs <;> decide }
  mem := fun p =>
    if p = 0x300000 then 9 else if p = 0x300004 then 1 else if p = 0x300008 then 0xfe
    else if p = 0x300009 then 0x8f else if p = 0x30000a then 0x04 else if p = 0x30000b then 0x08
    else if p = 0x30000c then 4 else 0

theorem accesses_iff_adjacent_twoPages :
    (twoPages.syscallHandler 0x8048000).ended = .value (.write 1 ⟨0x8048ffe, 0x300ffe⟩ 4) ∧
      (touch 0x8048ffe 0x300ffe 4 = twoPages.userTouch 0x8048ffe 4 ↔
        twoPages.Adjacent 0x8048ffe 4) := by
  have hrun : (twoPages.syscallHandler 0x8048000).ended =
      .value (.write 1 ⟨0x8048ffe, 0x300ffe⟩ 4) := by decide +kernel
  exact ⟨hrun, (accesses_iff_adjacent hrun).1 ⟨0x8048ffe, 0x300ffe⟩ 4 rfl (by decide +kernel) 4
    (Nat.le_refl 4)⟩

/-- The third byte of the buffer is in another frame than the kernel reads. -/
theorem write_reads_other_frame :
    (twoPages.syscallHandler 0x8048000).ended = .value (.write 1 ⟨0x8048ffe, 0x300ffe⟩ 4) ∧
      (touch 0x8048ffe 0x300ffe 4).map Access.phys =
        [some 0x300ffe, some 0x300fff, some 0x301000, some 0x301001] ∧
      (twoPages.userTouch 0x8048ffe 4).map Access.phys =
        [some 0x300ffe, some 0x300fff, some 0x500000, some 0x500001] := by
  decide +kernel

end UserSpace

end Pintos.Userprog
