import Pintos.Foundation.Transition
import Pintos.Userprog.PageTables

/-!
# Page directories refine maps

A directory made by `pagedir_create` stands for a map from user pages to frames. Mapping
and clearing pages and setting the dirty and accessed bits, in any order and whatever the
page allocator answers, does to the map what it should. Flushing the TLB is not modelled.
-/

namespace Pintos.Userprog

open Function PageDir

def pteA : UInt32 := 0x20

def pteD : UInt32 := 0x40

namespace PageDir

/-- `pagedir_create` copies the page of the kernel's own directory to the page `p`. -/
def pagedirCreate (init : PageDir) (p : Nat) : PageDir where
  base := p
  word := fun a => if p ≤ a ∧ a < p + 4096 then init.word (init.base + (a - p)) else init.word a
  formed := by
    intro i hi
    rw [if_pos (by omega), Nat.add_sub_cancel_left]
    exact init.formed i hi

/-- A word that is not in the directory itself is written. -/
def writeEntry (pd : PageDir) (a : Nat) (w : UInt32) (ha : ∀ i < 1024, pd.base + 4 * i ≠ a) :
    PageDir where
  base := pd.base
  word := Function.update pd.word a w
  formed := by
    intro i hi
    rw [Function.update_of_ne (ha i hi)]
    exact pd.formed i hi

end PageDir

namespace Paging

/-- Page table entries are not in the directory. -/
def setWord (k : Paging) (a : Nat) (w : UInt32) : Paging :=
  if ha : ∀ i < 1024, k.pd.base + 4 * i ≠ a then { k with pd := k.pd.writeEntry a w ha }
  else { k with panicked := true }

def pagedirClearPage (k : Paging) (upage : UInt32) : Paging :=
  let k := k.ensure (pgOfs upage = 0)
  let k := k.ensure (isUserVaddr upage = true)
  match k.lookupPage upage false with
  | (none, k) => k
  | (some pte, k) =>
      if k.pd.word pte &&& pteP ≠ 0 then k.setWord pte (k.pd.word pte &&& ~~~ pteP) else k

/-- `pagedir_set_dirty` and `pagedir_set_accessed` for a flag of the entry. -/
def setFlag (k : Paging) (flag : UInt32) (vpage : UInt32) (value : Bool) : Paging :=
  match k.lookupPage vpage false with
  | (none, k) => k
  | (some pte, k) =>
      k.setWord pte
        (if value then k.pd.word pte ||| flag else k.pd.word pte &&& ~~~ flag)

def pagedirSetDirty (k : Paging) (vpage : UInt32) (dirty : Bool) : Paging :=
  k.setFlag pteD vpage dirty

def pagedirSetAccessed (k : Paging) (vpage : UInt32) (accessed : Bool) : Paging :=
  k.setFlag pteA vpage accessed

end Paging

namespace PageDir

lemma entry_clear (w : UInt32) : entry (w &&& ~~~ pteP) = none := by
  have hzero : w &&& ~~~ pteP &&& pteP = 0 := by
    rw [UInt32.and_assoc]
    exact UInt32.and_zero
  rw [entry, if_pos hzero]

lemma entry_congr {w w' : UInt32} (hp : w' &&& pteP = w &&& pteP)
    (haddr : w' &&& pteAddr = w &&& pteAddr) (hw : w' &&& pteW = w &&& pteW) :
    entry w' = entry w := by
  rw [entry, entry, hp, haddr, hw]

lemma entry_flag {flag : UInt32} (hflag : flag = pteD ∨ flag = pteA) (value : Bool)
    (w : UInt32) : entry (if value then w ||| flag else w &&& ~~~ flag) = entry w := by
  have hset : ∀ m : UInt32, flag &&& m = 0 → (w ||| flag) &&& m = w &&& m := by
    intro m hm
    have hnat : flag.toNat &&& m.toNat = 0 := by
      rw [← UInt32.toNat_and, hm]
      rfl
    apply UInt32.toNat_inj.mp
    rw [UInt32.toNat_and, UInt32.toNat_and, UInt32.toNat_or, Nat.and_or_distrib_right, hnat,
      Nat.or_zero]
  have hclear : ∀ m : UInt32, ~~~ flag &&& m = m → w &&& ~~~ flag &&& m = w &&& m := by
    intro m hm
    rw [UInt32.and_assoc, hm]
  rcases hflag with rfl | rfl
  · cases value with
    | true => exact entry_congr (hset _ rfl) (hset _ rfl) (hset _ rfl)
    | false => exact entry_congr (hclear _ rfl) (hclear _ rfl) (hclear _ rfl)
  · cases value with
    | true => exact entry_congr (hset _ rfl) (hset _ rfl) (hset _ rfl)
    | false => exact entry_congr (hclear _ rfl) (hclear _ rfl) (hclear _ rfl)

end PageDir

/-! ## One operation -/

namespace Paging

variable {k : Paging}

/-- The page tables of the kernel pages, which all directories share, are pages of their
own that stay allocated. -/
def KernelApart (k : Paging) : Prop :=
  ∀ i, 768 ≤ i → i < 1024 → k.pd.pdeAt i ≠ 0 →
    k.pd.table i < 0x40000000 ∧ k.pd.table i ≠ k.pd.base ∧ some (k.pd.table i) ∉ k.answers ∧
      ∀ j < 768, k.pd.pdeAt j ≠ 0 → k.pd.table j ≠ k.pd.table i

lemma KernelApart.grows (hk : KernelApart k) {k' : Paging} (hg : Grows k k') : KernelApart k' := by
  intro i hi hi' hne
  have hpde := hg.kernel i hi hi'
  have htable : k'.pd.table i = k.pd.table i := by
    rw [table, hpde]
    rfl
  rw [hpde] at hne
  obtain ⟨hram, hbase, hspent, huser⟩ := hk i hi hi' hne
  rw [htable, hg.base]
  refine ⟨hram, hbase, fun hmem => hspent (hg.answers _ hmem), fun j hj hne' => ?_⟩
  rcases hg.user j hj hne' with ⟨hold, hsame⟩ | hanswer
  · rw [hsame]
    exact huser j hj hold
  · intro heq
    rw [heq] at hanswer
    exact hspent hanswer

lemma setWord_eq {a : Nat} (ha : ∀ i < 1024, k.pd.base + 4 * i ≠ a) (w : UInt32) :
    k.setWord a w = { k with pd := k.pd.writeEntry a w ha } := dif_pos ha

lemma Tables.setWord (ht : Tables k) {n : Nat} (hn : n < 786432)
    (htable : k.pd.pdeAt (n / 1024) ≠ 0) {w : UInt32}
    (hentry : ∀ e, entry w = some e → e.1 < 0x40000000 ∧ e.1 % 4096 = 0) :
    Tables (k.setWord (k.pd.table (n / 1024) + 4 * (n % 1024)) w) ∧
      Grows k (k.setWord (k.pd.table (n / 1024) + 4 * (n % 1024)) w) ∧
      ∀ m < 786432, (k.setWord (k.pd.table (n / 1024) + 4 * (n % 1024)) w).pd.mapping m =
          if m = n then entry w else k.pd.mapping m := by
  have hown := ht.separate.apart (n / 1024) (by omega) htable
  have haligned := ht.separate.aligned
  have htaligned := k.pd.table_aligned (n / 1024)
  have ha : ∀ i < 1024, k.pd.base + 4 * i ≠ k.pd.table (n / 1024) + 4 * (n % 1024) := by
    intro i hi
    omega
  rw [setWord_eq ha]
  exact ht.update hn htable ⟨rfl, rfl⟩ hentry

/-- An entry of a kernel page is written, which makes no difference to the user pages. -/
lemma Tables.setKernelWord (ht : Tables k) (hk : KernelApart k) {i j : Nat} (hi : 768 ≤ i)
    (hi' : i < 1024) (hj : j < 1024) (hne : k.pd.pdeAt i ≠ 0) (w : UInt32) :
    Tables (k.setWord (k.pd.table i + 4 * j) w) ∧
      Grows k (k.setWord (k.pd.table i + 4 * j) w) ∧
      ∀ m < 786432, (k.setWord (k.pd.table i + 4 * j) w).pd.mapping m = k.pd.mapping m := by
  obtain ⟨-, hbase, -, huser⟩ := hk i hi hi' hne
  have haligned := ht.separate.aligned
  have htaligned := k.pd.table_aligned i
  have ha : ∀ i' < 1024, k.pd.base + 4 * i' ≠ k.pd.table i + 4 * j := by
    intro i' hi'
    omega
  rw [setWord_eq ha]
  obtain ⟨pd', hpd'⟩ : ∃ pd', pd' = k.pd.writeEntry (k.pd.table i + 4 * j) w ha := ⟨_, rfl⟩
  rw [← hpd']
  have hpde : ∀ i' < 1024, pd'.pdeAt i' = k.pd.pdeAt i' := by
    intro i' hi'
    rw [hpd']
    exact update_of_ne (ha i' hi') _ _
  have htab : ∀ i' < 1024, pd'.table i' = k.pd.table i' := by
    intro i' hi'
    rw [table, hpde i' hi']
    rfl
  have hmap : ∀ m < 786432, pd'.mapping m = k.pd.mapping m := by
    intro m hm
    have hm' : m / 1024 < 1024 := by omega
    rw [mapping, mapping, hpde _ hm', htab _ hm']
    by_cases hzero : k.pd.pdeAt (m / 1024) = 0
    · rw [if_pos hzero, if_pos hzero]
    · have hother := huser (m / 1024) (by omega) hzero
      have hmaligned := k.pd.table_aligned (m / 1024)
      have hword : pd'.word (k.pd.table (m / 1024) + 4 * (m % 1024)) =
          k.pd.word (k.pd.table (m / 1024) + 4 * (m % 1024)) := by
        rw [hpd']
        exact update_of_ne (by omega) _ _
      rw [if_neg hzero, if_neg hzero, hword]
  have hbase' : pd'.base = k.pd.base := by rw [hpd']; rfl
  refine ⟨⟨ht.intact, ⟨?_, fun i' hi' hne' => ?_, fun i₁ h₁ i₂ h₂ hne₁ hne₂ heq => ?_⟩, ?_,
    fun i' hi' hne' => ?_, fun m hm e he => ?_, fun p hp => ?_, ht.once⟩,
    ⟨⟨fun _ h => h, fun _ h => h, rfl⟩, hbase', fun i' _ hi' => hpde i' hi',
      fun i' hi' hne' => .inl ⟨?_, htab i' (by omega)⟩⟩, hmap⟩
  · rwa [hbase']
  · rw [hpde i' (by omega)] at hne'
    rw [htab i' (by omega), hbase']
    exact ht.separate.apart i' hi' hne'
  · rw [hpde i₁ (by omega)] at hne₁
    rw [hpde i₂ (by omega)] at hne₂
    rw [htab i₁ (by omega), htab i₂ (by omega)] at heq
    exact ht.separate.inj i₁ h₁ i₂ h₂ hne₁ hne₂ heq
  · dsimp only
    rw [hbase']
    exact ht.ownDir
  · dsimp only at hne' ⊢
    rw [hpde i' (by omega)] at hne'
    rw [htab i' (by omega)]
    exact ht.tables i' hi' hne'
  · dsimp only at he
    rw [hmap m hm] at he
    exact ht.frames m hm e he
  · dsimp only
    rw [hbase']
    exact ht.supply p hp
  · dsimp only at hne'
    rwa [hpde i' (by omega)] at hne'

lemma Tables.pagedirClearPage (ht : Tables k) {upage : UInt32} (haligned : pgOfs upage = 0)
    (huser : isUserVaddr upage = true) :
    Tables (k.pagedirClearPage upage) ∧ Grows k (k.pagedirClearPage upage) ∧
      ∀ m < 786432, (k.pagedirClearPage upage).pd.mapping m =
        if m = upage.toNat / 4096 then none else k.pd.mapping m := by
  have hlt := user_page_lt huser
  unfold Paging.pagedirClearPage
  dsimp only
  rw [ensure_of haligned, ensure_of huser, ht.lookupPage_false huser]
  by_cases hzero : k.pd.pdeAt (upage.toNat / 4096 / 1024) = 0
  · rw [if_pos hzero]
    refine ⟨ht, Grows.refl k, fun m hm => ?_⟩
    by_cases hmn : m = upage.toNat / 4096
    · rw [if_pos hmn, hmn, mapping, if_pos hzero]
    · rw [if_neg hmn]
  · rw [if_neg hzero]
    dsimp only
    split
    next hp =>
      have hclear := ht.setWord hlt hzero (w := k.pd.word (k.pd.table (upage.toNat / 4096 / 1024) +
        4 * (upage.toNat / 4096 % 1024)) &&& ~~~ pteP) (by simp [entry_clear])
      rwa [entry_clear] at hclear
    next hp =>
      refine ⟨ht, Grows.refl k, fun m hm => ?_⟩
      by_cases hmn : m = upage.toNat / 4096
      · rw [if_pos hmn, hmn, mapping, if_neg hzero, entry, if_pos (not_not.mp hp)]
      · rw [if_neg hmn]

lemma Tables.setFlag (ht : Tables k) (hk : KernelApart k) {flag : UInt32}
    (hflag : flag = pteD ∨ flag = pteA) (vpage : UInt32) (value : Bool) :
    Tables (k.setFlag flag vpage value) ∧ Grows k (k.setFlag flag vpage value) ∧
      ∀ m < 786432, (k.setFlag flag vpage value).pd.mapping m = k.pd.mapping m := by
  have hva := vpage.toNat_lt
  obtain ⟨n, hn⟩ : ∃ n, n = vpage.toNat / 4096 := ⟨_, rfl⟩
  have hlook : k.lookupPage vpage false = _ := lookupPage_false_eq fun hne => by
    by_cases huser : vpage.toNat / 4096 < 786432
    · exact (ht.tables _ (by omega) hne).1
    · exact (hk _ (by omega) (by omega) hne).1
  rw [← hn] at hlook
  unfold Paging.setFlag
  rw [hlook]
  by_cases hzero : k.pd.pdeAt (n / 1024) = 0
  · rw [if_pos hzero]
    exact ⟨ht, Grows.refl k, fun m _ => rfl⟩
  · rw [if_neg hzero]
    dsimp only
    by_cases huser : n < 786432
    · have hentry := entry_flag hflag value (k.pd.word (k.pd.table (n / 1024) + 4 * (n % 1024)))
      have hmapping : k.pd.mapping n =
          entry (k.pd.word (k.pd.table (n / 1024) + 4 * (n % 1024))) := by
        rw [mapping, if_neg hzero]
      obtain ⟨ht', hgrows, hmap⟩ := ht.setWord huser hzero fun e he => by
        rw [hentry, ← hmapping] at he
        exact ht.frames n huser e he
      refine ⟨ht', hgrows, fun m hm => ?_⟩
      rw [hmap m hm, hentry, ← hmapping]
      split
      next hmn => rw [hmn]
      next => rfl
    · exact ht.setKernelWord hk (by omega) (by omega) (by omega) hzero _

end Paging

/-! ## Sequences of operations -/

/-- The frames of the user pages and whether they are writable, by page number. -/
abbrev UserMap := Nat → Option (Nat × Bool)

inductive PdOp
  | set (upage : UInt32) (kpage : Nat) (writable : Bool)
  | clear (upage : UInt32)
  | dirty (vpage : UInt32) (value : Bool)
  | accessed (vpage : UInt32) (value : Bool)

namespace PdOp

/-- A page that is not present is mapped to a kernel page inside RAM; only user pages are
cleared. -/
def Allowed (k : Paging) (M : UserMap) : PdOp → Prop
  | .set upage kpage _ =>
      pgOfs upage = 0 ∧ isUserVaddr upage = true ∧ k.InRam kpage ∧ M (upage.toNat / 4096) = none
  | .clear upage => pgOfs upage = 0 ∧ isUserVaddr upage = true
  | _ => True

instance (k : Paging) (M : UserMap) : ∀ op : PdOp, Decidable (op.Allowed k M)
  | .set _ _ _ => by unfold Allowed Paging.InRam; infer_instance
  | .clear _ => inferInstanceAs (Decidable (_ ∧ _))
  | .dirty _ _ => isTrue trivial
  | .accessed _ _ => isTrue trivial

/-- The directory after an operation; the flag is the result of `pagedir_set_page`. -/
def run (k : Paging) : PdOp → Bool × Paging
  | .set upage kpage writable => k.pagedirSetPage upage kpage writable
  | .clear upage => (true, k.pagedirClearPage upage)
  | .dirty vpage value => (true, k.pagedirSetDirty vpage value)
  | .accessed vpage value => (true, k.pagedirSetAccessed vpage value)

/-- What an operation does to the map, by its result. -/
def act (M : UserMap) (result : Bool) : PdOp → UserMap
  | .set upage kpage writable =>
      if result then Function.update M (upage.toNat / 4096) (some (kpage, writable)) else M
  | .clear upage => Function.update M (upage.toNat / 4096) none
  | _ => M

end PdOp

/-- A directory made from `init`, with an empty user part and pages that are all different. -/
structure Created (init : PageDir) (k : Paging) : Prop where
  dir : k.pd = init.pagedirCreate k.pd.base
  initDir : k.initPageDir = init.base
  own : k.pd.base ≠ init.base
  aligned : k.pd.base % 4096 = 0
  user : ∀ i < 768, init.pdeAt i = 0
  kernel : ∀ i, 768 ≤ i → i < 1024 → init.pdeAt i ≠ 0 →
    init.table i < 0x40000000 ∧ init.table i ≠ k.pd.base ∧ some (init.table i) ∉ k.answers
  supply : ∀ p, some p ∈ k.answers → k.InRam p ∧ p ≠ k.pd.base
  once : k.answers.Pairwise fun a b => ∀ p, a = some p → b ≠ some p
  intact : k.panicked = false

/-- The directory and the map side by side. -/
def pdMachine (init : PageDir) : Foundation.Machine (Paging × UserMap) PdOp where
  start s := Created init s.1 ∧ s.2 = fun _ => none
  step s op :=
    if op.Allowed s.1 s.2 then
      let r := op.run s.1
      some (r.2, op.act s.2 r.1)
    else none

variable {init : PageDir} {k : Paging}

lemma pdMachine_step {M : UserMap} {op : PdOp} {b : Bool} (hop : op.Allowed k M)
    (hb : (op.run k).1 = b) :
    (pdMachine init).step (k, M) op = some ((op.run k).2, op.act M b) := by
  subst hb
  exact if_pos hop

structure Stands (k : Paging) (M : UserMap) : Prop where
  tables : k.Tables
  kernel : k.KernelApart
  mapping : ∀ n < 786432, k.pd.mapping n = M n

lemma Created.pdeAt (hc : Created init k) {i : Nat} (hi : i < 1024) :
    k.pd.pdeAt i = init.pdeAt i := by
  rw [hc.dir]
  change (if k.pd.base ≤ k.pd.base + 4 * i ∧ k.pd.base + 4 * i < k.pd.base + 4096 then
    init.word (init.base + (k.pd.base + 4 * i - k.pd.base)) else _) = _
  rw [if_pos (by omega), Nat.add_sub_cancel_left]
  rfl

lemma Created.stands (hc : Created init k) : Stands k fun _ => none := by
  have hzero : ∀ i < 768, k.pd.pdeAt i = 0 := fun i hi => by
    rw [hc.pdeAt (by omega), hc.user i hi]
  have hmap : ∀ n < 786432, k.pd.mapping n = none := fun n hn => by
    rw [mapping, if_pos (hzero _ (by omega))]
  refine ⟨⟨hc.intact, ⟨hc.aligned, fun i hi hne => absurd (hzero i hi) hne,
    fun i hi _ _ hne => absurd (hzero i hi) hne⟩, ?_, fun i hi hne => absurd (hzero i hi) hne,
    fun n hn e he => ?_, hc.supply, hc.once⟩, fun i hi hi' hne => ?_, hmap⟩
  · rw [hc.initDir]
    exact hc.own
  · simp [hmap n hn] at he
  · have htable : k.pd.table i = init.table i := by
      rw [table, hc.pdeAt hi']
      rfl
    rw [hc.pdeAt hi'] at hne
    obtain ⟨hram, hbase, hspent⟩ := hc.kernel i hi hi' hne
    rw [htable]
    exact ⟨hram, hbase, hspent, fun j hj hne' => absurd (hzero j hj) hne'⟩

lemma Stands.run {M : UserMap} (hs : Stands k M) {op : PdOp} (hop : op.Allowed k M) :
    Stands (op.run k).2 (op.act M (op.run k).1) ∧ Paging.Grows k (op.run k).2 := by
  cases op with
  | set upage kpage writable =>
    obtain ⟨haligned, huser, hram, hfree⟩ := hop
    have hlt := Paging.user_page_lt huser
    obtain ⟨b, k', heq, ht, hgrows, hmap⟩ := hs.tables.pagedirSetPage haligned huser hram
      writable (by rw [hs.mapping _ hlt]; exact hfree)
    simp only [PdOp.run, heq, PdOp.act]
    refine ⟨⟨ht, hs.kernel.grows hgrows, fun n hn => ?_⟩, hgrows⟩
    rw [hmap n hn, hs.mapping n hn]
    cases b with
    | false => simp
    | true =>
      by_cases hnu : n = upage.toNat / 4096 <;> simp [hnu]
  | clear upage =>
    obtain ⟨haligned, huser⟩ := hop
    obtain ⟨ht, hgrows, hmap⟩ := hs.tables.pagedirClearPage haligned huser
    refine ⟨⟨ht, hs.kernel.grows hgrows, fun n hn => ?_⟩, hgrows⟩
    rw [PdOp.run, hmap n hn, hs.mapping n hn, PdOp.act]
    by_cases hnu : n = upage.toNat / 4096
    · rw [if_pos hnu, hnu, update_self]
    · rw [if_neg hnu, update_of_ne hnu]
  | dirty vpage value =>
    obtain ⟨ht, hgrows, hmap⟩ := hs.tables.setFlag hs.kernel (.inl rfl) vpage value
    exact ⟨⟨ht, hs.kernel.grows hgrows, fun n hn => (hmap n hn).trans (hs.mapping n hn)⟩, hgrows⟩
  | accessed vpage value =>
    obtain ⟨ht, hgrows, hmap⟩ := hs.tables.setFlag hs.kernel (.inr rfl) vpage value
    exact ⟨⟨ht, hs.kernel.grows hgrows, fun n hn => (hmap n hn).trans (hs.mapping n hn)⟩, hgrows⟩

lemma stands_of_reachable {s : Paging × UserMap} (h : (pdMachine init).Reachable s) :
    Stands s.1 s.2 := by
  refine h.invariant (I := fun s => Stands s.1 s.2) ?_ ?_
  · rintro ⟨k, M⟩ ⟨hc, hM⟩
    dsimp only at hc hM
    subst hM
    exact hc.stands
  · intro s op s' hs hstep
    unfold pdMachine at hstep
    dsimp only at hstep
    split at hstep
    next hop =>
      cases hstep
      exact (hs.run hop).1
    next => cases hstep

end Pintos.Userprog
