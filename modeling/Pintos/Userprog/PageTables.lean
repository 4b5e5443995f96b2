import Pintos.Userprog.PageMap

/-!
# Filling page tables (userprog/pagedir.c)

`pagedir_set_page` takes pages for page tables from the page allocator, of which only its
answers are known: a page that is free, or none. Every assertion on the way is checked,
those of `threads/pte.h` and `threads/vaddr.h` included.
-/

namespace Pintos.Userprog

open PageDir

/-- A directory, the answers `palloc_get_page` will give, and the pages it has given. -/
structure Paging where
  pd : PageDir
  answers : List (Option Nat)
  owned : List Nat
  initRamPages : Nat
  initPageDir : Nat
  panicked : Bool

namespace Paging

def ensure (k : Paging) (c : Prop) [Decidable c] : Paging :=
  if c then k else { k with panicked := true }

def pallocGetPage (k : Paging) : Option Nat × Paging :=
  match k.answers with
  | [] => (none, k)
  | none :: l => (none, { k with answers := l })
  | some p :: l => (some p, { k with answers := l, owned := p :: k.owned })

def pallocFreePage (k : Paging) (page : Nat) : Paging :=
  let k := k.ensure (page % 4096 = 0 ∧ page ∈ k.owned)
  { k with owned := k.owned.erase page }

/-- `ptov` asserts that the address is below `PHYS_BASE`. -/
def ptov (k : Paging) (paddr : UInt32) : Nat × Paging :=
  (paddr.toNat, k.ensure (paddr < physBase))

def pdeGetPt (k : Paging) (pde : UInt32) : Nat × Paging :=
  (k.ensure (pde &&& pteP ≠ 0)).ptov (pde &&& pteAddr)

def pteGetPage (k : Paging) (pte : UInt32) : Nat × Paging := k.ptov (pte &&& pteAddr)

def pteOf (k : Paging) (va : UInt32) : Option Nat × Paging :=
  let (pt, k) := k.pdeGetPt (k.pd.pde va)
  (some (pt + 4 * (ptNo va).toNat), k)

def lookupPage (k : Paging) (va : UInt32) (create : Bool) : Option Nat × Paging :=
  let k := k.ensure (create = true → isUserVaddr va = true)
  if k.pd.pde va = 0 then
    if create then
      match k.pallocGetPage with
      | (none, k) => (none, k)
      | (some pt, k) =>
          let k := k.ensure (pt % 4096 = 0)
          { k with pd := k.pd.addTable va pt }.pteOf va
    else (none, k)
  else k.pteOf va

def pagedirGetPage (k : Paging) (uaddr : UInt32) : Option Nat × Paging :=
  let k := k.ensure (isUserVaddr uaddr = true)
  match k.lookupPage uaddr false with
  | (none, k) => (none, k)
  | (some pte, k) =>
      if k.pd.word pte &&& pteP ≠ 0 then
        let (page, k) := k.pteGetPage (k.pd.word pte)
        (some (page + (pgOfs uaddr).toNat), k)
      else (none, k)

def pagedirSetPage (k : Paging) (upage : UInt32) (kpage : Nat) (writable : Bool) :
    Bool × Paging :=
  let k := k.ensure (pgOfs upage = 0)
  let k := k.ensure (kpage % 4096 = 0)
  let k := k.ensure (isUserVaddr upage = true)
  let k := k.ensure (kpage / 4096 < k.initRamPages)
  let k := k.ensure (k.pd.base ≠ k.initPageDir)
  match k.lookupPage upage true with
  | (none, k) => (false, k)
  | (some pte, k) =>
      let k := k.ensure (k.pd.word pte &&& pteP = 0)
      (true, { k with pd := k.pd.setPte pte kpage writable })

/-- A kernel page inside RAM. Its kernel address has 32 bits, of which the highest two
are set. -/
def InRam (k : Paging) (page : Nat) : Prop :=
  page % 4096 = 0 ∧ page / 4096 < k.initRamPages ∧ page < 0x40000000

/-- No assertion has failed, tables are in order, and pages to come are in use nowhere. -/
structure Ok (k : Paging) : Prop where
  intact : k.panicked = false
  separate : k.pd.Separate
  ownDir : k.pd.base ≠ k.initPageDir
  tables : ∀ i < 768, k.pd.pdeAt i ≠ 0 →
    k.pd.table i < 0x40000000 ∧ some (k.pd.table i) ∉ k.answers
  frames : ∀ n < 786432, ∀ e, k.pd.mapping n = some e →
    e.1 < 0x40000000 ∧ e.1 % 4096 = 0 ∧ some e.1 ∉ k.answers
  supply : ∀ p, some p ∈ k.answers → k.InRam p ∧ p ≠ k.pd.base
  once : k.answers.Pairwise fun a b => ∀ p, a = some p → b ≠ some p

/-- The part of `Ok` that does not ask where the frames come from. -/
structure Tables (k : Paging) : Prop where
  intact : k.panicked = false
  separate : k.pd.Separate
  ownDir : k.pd.base ≠ k.initPageDir
  tables : ∀ i < 768, k.pd.pdeAt i ≠ 0 →
    k.pd.table i < 0x40000000 ∧ some (k.pd.table i) ∉ k.answers
  frames : ∀ n < 786432, ∀ e, k.pd.mapping n = some e → e.1 < 0x40000000 ∧ e.1 % 4096 = 0
  supply : ∀ p, some p ∈ k.answers → k.InRam p ∧ p ≠ k.pd.base
  once : k.answers.Pairwise fun a b => ∀ p, a = some p → b ≠ some p

/-- A page just obtained. -/
structure NewPage (k : Paging) (p : Nat) : Prop where
  ram : k.InRam p
  dir : p ≠ k.pd.base
  table : ∀ i < 768, k.pd.pdeAt i ≠ 0 → k.pd.table i ≠ p
  frame : ∀ n < 786432, ∀ e, k.pd.mapping n = some e → e.1 ≠ p
  spent : some p ∉ k.answers
  owned : p ∈ k.owned

/-- A page just obtained that may be the frame of a page. -/
structure NewTable (k : Paging) (p : Nat) : Prop where
  ram : k.InRam p
  dir : p ≠ k.pd.base
  table : ∀ i < 768, k.pd.pdeAt i ≠ 0 → k.pd.table i ≠ p
  spent : some p ∉ k.answers
  owned : p ∈ k.owned

/-- What all operations keep: the page allocator goes on from where it was. -/
structure Later (k k' : Paging) : Prop where
  answers : ∀ a ∈ k'.answers, a ∈ k.answers
  owned : ∀ p ∈ k.owned, p ∈ k'.owned
  initRamPages : k'.initRamPages = k.initRamPages

lemma Later.refl (k : Paging) : Later k k := ⟨fun _ h => h, fun _ h => h, rfl⟩

lemma Later.trans {k₁ k₂ k₃ : Paging} (h : Later k₁ k₂) (h' : Later k₂ k₃) : Later k₁ k₃ :=
  ⟨fun a ha => h.answers a (h'.answers a ha), fun p hp => h'.owned p (h.owned p hp),
    h'.initRamPages.trans h.initRamPages⟩

/-- The kernel's tables stay, and a new one is on a page from the page allocator. -/
structure Grows (k k' : Paging) : Prop extends Later k k' where
  base : k'.pd.base = k.pd.base
  kernel : ∀ i, 768 ≤ i → i < 1024 → k'.pd.pdeAt i = k.pd.pdeAt i
  user : ∀ i < 768, k'.pd.pdeAt i ≠ 0 →
    (k.pd.pdeAt i ≠ 0 ∧ k'.pd.table i = k.pd.table i) ∨ some (k'.pd.table i) ∈ k.answers

lemma Grows.refl (k : Paging) : Grows k k :=
  ⟨Later.refl k, rfl, fun _ _ _ => rfl, fun _ _ h => .inl ⟨h, rfl⟩⟩

lemma Grows.trans {k₁ k₂ k₃ : Paging} (h : Grows k₁ k₂) (h' : Grows k₂ k₃) : Grows k₁ k₃ := by
  refine ⟨h.toLater.trans h'.toLater, h'.base.trans h.base, fun i hi hi' => ?_, fun i hi hne => ?_⟩
  · rw [h'.kernel i hi hi', h.kernel i hi hi']
  · rcases h'.user i hi hne with ⟨hne', htable⟩ | hans
    · rw [htable]
      exact h.user i hi hne'
    · exact .inr (h.answers _ hans)

variable {k : Paging}

lemma ensure_of {c : Prop} [Decidable c] (hc : c) : k.ensure c = k := if_pos hc

lemma Ok.toTables (ok : Ok k) : Tables k :=
  ⟨ok.intact, ok.separate, ok.ownDir, ok.tables,
    fun n hn e he => ⟨(ok.frames n hn e he).1, (ok.frames n hn e he).2.1⟩, ok.supply, ok.once⟩

lemma Tables.ok (ht : Tables k)
    (hspent : ∀ n < 786432, ∀ e, k.pd.mapping n = some e → some e.1 ∉ k.answers) : Ok k :=
  ⟨ht.intact, ht.separate, ht.ownDir, ht.tables,
    fun n hn e he => ⟨(ht.frames n hn e he).1, (ht.frames n hn e he).2, hspent n hn e he⟩,
    ht.supply, ht.once⟩

/-! ## Operations -/

namespace Tables

lemma pallocGetPage (ht : Tables k) :
    ∃ page k', k.pallocGetPage = (page, k') ∧ Tables k' ∧ Later k k' ∧ k'.pd = k.pd ∧
      ∀ p ∈ page, NewTable k' p ∧ some p ∈ k.answers := by
  unfold Paging.pallocGetPage
  cases hl : k.answers with
  | nil => exact ⟨none, k, rfl, ht, Later.refl k, rfl, nofun⟩
  | cons a l =>
    have htail : ∀ a ∈ l, a ∈ k.answers := by
      intro b hb
      rw [hl]
      exact List.mem_cons_of_mem a hb
    have honce := ht.once
    rw [hl, List.pairwise_cons] at honce
    have hok : ∀ owned, Tables { k with answers := l, owned := owned } := fun owned =>
      ⟨ht.intact, ht.separate, ht.ownDir, fun i hi hne => ⟨(ht.tables i hi hne).1,
          fun hmem => (ht.tables i hi hne).2 (htail _ hmem)⟩,
        ht.frames, fun p hp => ht.supply p (htail _ hp), honce.2⟩
    cases a with
    | none => exact ⟨none, _, rfl, hok _, ⟨htail, fun _ h => h, rfl⟩, rfl, nofun⟩
    | some p =>
      have hp : some p ∈ k.answers := by
        rw [hl]
        exact List.mem_cons_self
      refine ⟨some p, _, rfl, hok _, ⟨htail, fun _ h => List.mem_cons_of_mem p h, rfl⟩, rfl,
        fun q hq => ?_⟩
      cases hq
      refine ⟨⟨(ht.supply p hp).1, (ht.supply p hp).2, fun i hi hne heq => ?_,
        fun hmem => honce.1 _ hmem p rfl rfl, List.mem_cons_self⟩, List.mem_cons_self⟩
      exact (ht.tables i hi hne).2 (heq ▸ hp)

end Tables

lemma lt_physBase {w : UInt32} (h : w.toNat < 0x40000000) : w < physBase := by
  rw [UInt32.lt_iff_toNat_lt]
  exact Nat.lt_trans h (by decide)

variable {va : UInt32}

lemma user_page_lt (hva : isUserVaddr va = true) : va.toNat / 4096 < 786432 := by
  have huser := (isUserVaddr_iff va).mp hva
  omega

lemma pde_eq_pdeAt (pd : PageDir) (va : UInt32) :
    pd.pde va = pd.pdeAt (va.toNat / 4096 / 1024) := by
  rw [pde, toNat_pdNo]
  rfl

lemma pteOf_eq {n : Nat} (hn : va.toNat / 4096 = n) (hne : k.pd.pdeAt (n / 1024) ≠ 0)
    (hram : k.pd.table (n / 1024) < 0x40000000) :
    k.pteOf va = (some (k.pd.table (n / 1024) + 4 * (n % 1024)), k) := by
  have hlt : n / 1024 < 1024 := by
    have hva := va.toNat_lt
    omega
  have hpresent := k.pd.present_of_ne_zero hlt hne
  unfold Paging.pteOf pdeGetPt ptov
  rw [pde_eq_pdeAt, hn, ensure_of hpresent, ensure_of (lt_physBase hram), toNat_ptNo, hn]
  rfl

lemma lookupPage_false_eq (hram : k.pd.pdeAt (va.toNat / 4096 / 1024) ≠ 0 →
      k.pd.table (va.toNat / 4096 / 1024) < 0x40000000) :
    k.lookupPage va false = (if k.pd.pdeAt (va.toNat / 4096 / 1024) = 0 then none
        else some (k.pd.table (va.toNat / 4096 / 1024) + 4 * (va.toNat / 4096 % 1024)), k) := by
  have hcreate : k.ensure (false = true → isUserVaddr va = true) = k := ensure_of nofun
  unfold Paging.lookupPage
  dsimp only
  rw [hcreate, pde_eq_pdeAt]
  by_cases hzero : k.pd.pdeAt (va.toNat / 4096 / 1024) = 0
  · rw [if_pos hzero, if_pos hzero]
    rfl
  · rw [if_neg hzero, if_neg hzero]
    exact pteOf_eq rfl hzero (hram hzero)

namespace Tables

variable {va : UInt32}

lemma pteOf (ht : Tables k) {n : Nat} (hn : va.toNat / 4096 = n) (hlt : n < 786432)
    (hne : k.pd.pdeAt (n / 1024) ≠ 0) :
    k.pteOf va = (some (k.pd.table (n / 1024) + 4 * (n % 1024)), k) :=
  pteOf_eq hn hne (ht.tables _ (by omega) hne).1

lemma lookupPage_false (ht : Tables k) (hva : isUserVaddr va = true) :
    k.lookupPage va false =
      (if k.pd.pdeAt (va.toNat / 4096 / 1024) = 0 then none
        else some (k.pd.table (va.toNat / 4096 / 1024) + 4 * (va.toNat / 4096 % 1024)), k) := by
  have hlt := user_page_lt hva
  exact lookupPage_false_eq fun hne => (ht.tables _ (by omega) hne).1

lemma pagedirGetPage (ht : Tables k) (hva : isUserVaddr va = true) :
    k.pagedirGetPage va =
      ((k.pd.mapping (va.toNat / 4096)).map fun e => e.1 + va.toNat % 4096, k) := by
  have hframe := ht.frames (va.toNat / 4096) (user_page_lt hva)
  unfold Paging.pagedirGetPage
  dsimp only
  rw [ensure_of hva, ht.lookupPage_false hva]
  unfold mapping at hframe ⊢
  by_cases hzero : k.pd.pdeAt (va.toNat / 4096 / 1024) = 0
  · rw [if_pos hzero, if_pos hzero]
    rfl
  · rw [if_neg hzero] at hframe
    rw [if_neg hzero, if_neg hzero]
    dsimp only
    generalize k.pd.word (k.pd.table (va.toNat / 4096 / 1024) + 4 * (va.toNat / 4096 % 1024)) = w
      at hframe ⊢
    unfold entry at hframe ⊢
    by_cases hp : w &&& pteP = 0
    · rw [if_neg (not_not.mpr hp), if_pos hp]
      rfl
    · rw [if_neg hp] at hframe
      have hram := (hframe _ rfl).1
      rw [if_pos hp, if_neg hp, pteGetPage, ptov, ensure_of (lt_physBase hram), toNat_pgOfs]
      rfl

lemma addTable (ht : Tables k) (va : UInt32) {pt : Nat} (hpt : NewTable k pt)
    (hzero : k.pd.pdeAt (pdNo va).toNat = 0) :
    Tables { k with pd := k.pd.addTable va pt } ∧
      (k.pd.addTable va pt).pdeAt (pdNo va).toNat ≠ 0 ∧
      (k.pd.addTable va pt).table (pdNo va).toNat = pt ∧
      (∀ j < 1024, j ≠ (pdNo va).toNat → (k.pd.addTable va pt).pdeAt j = k.pd.pdeAt j) ∧
      ∀ m < 786432, (k.pd.addTable va pt).mapping m = k.pd.mapping m := by
  rcases hpt.ram with ⟨haligned, -, hram⟩
  have hlt : pt < 4294967296 := Nat.lt_trans hram (by omega)
  have hword := toNat_pdeCreate haligned hlt
  have hpdeAt : ∀ j < 1024, (k.pd.addTable va pt).pdeAt j =
      if j = (pdNo va).toNat then pdeCreate pt else k.pd.pdeAt j :=
    fun j hj => addTable_pdeAt ht.separate va haligned hpt.dir hj
  have hother : ∀ j < 1024, j ≠ (pdNo va).toNat →
      (k.pd.addTable va pt).pdeAt j = k.pd.pdeAt j := fun j hj hne => by
    rw [hpdeAt j hj, if_neg hne]
  have htable : (k.pd.addTable va pt).table (pdNo va).toNat = pt := by
    rw [table, hpdeAt _ (pdNo_lt va), if_pos rfl, toNat_and_pteAddr, hword]
    omega
  have hmap : ∀ m < 786432, (k.pd.addTable va pt).mapping m = k.pd.mapping m := fun m hm =>
    addTable_mapping ht.separate haligned hlt hpt.dir hzero hpt.table hm
  refine ⟨⟨ht.intact, addTable_separate ht.separate haligned hlt hpt.dir hpt.table,
    ht.ownDir, fun i hi hne => ?_, fun m hm e he => ?_, ht.supply, ht.once⟩, ?_, htable, hother,
    hmap⟩
  · dsimp only at hne ⊢
    by_cases hiv : i = (pdNo va).toNat
    · rw [hiv, htable]
      exact ⟨hram, hpt.spent⟩
    · have hpde := hother i (by omega) hiv
      rw [table, hpde]
      rw [hpde] at hne
      exact ht.tables i hi hne
  · rw [hmap m hm] at he
    exact ht.frames m hm e he
  · rw [hpdeAt _ (pdNo_lt va), if_pos rfl]
    intro h
    rw [h] at hword
    exact absurd hword (by simp)

lemma update (ht : Tables k) {pd' : PageDir} {n : Nat} {w : UInt32} (hn : n < 786432)
    (htable : k.pd.pdeAt (n / 1024) ≠ 0) (hu : Updated k.pd pd' n w)
    (hentry : ∀ e, entry w = some e → e.1 < 0x40000000 ∧ e.1 % 4096 = 0) :
    Tables { k with pd := pd' } ∧ Grows k { k with pd := pd' } ∧
      ∀ m < 786432, pd'.mapping m = if m = n then entry w else k.pd.mapping m := by
  have hmap := fun m hm => hu.mapping (m := m) ht.separate hn htable hm
  have hpde := fun j hj => hu.pdeAt (j := j) ht.separate hn htable hj
  have htab := fun j hj => hu.table (j := j) ht.separate hn htable hj
  refine ⟨⟨ht.intact, hu.separate ht.separate hn htable, ?_, fun i hi hne => ?_,
    fun m hm e he => ?_, fun p hp => ?_, ht.once⟩, ⟨⟨fun _ h => h, fun _ h => h, rfl⟩,
    hu.base, fun i _ hi => hpde i hi, fun i hi hne => .inl ?_⟩, hmap⟩
  · dsimp only
    rw [hu.base]
    exact ht.ownDir
  · dsimp only at hne ⊢
    rw [hpde i (by omega)] at hne
    rw [htab i (by omega)]
    exact ht.tables i hi hne
  · dsimp only at he
    rw [hmap m hm] at he
    by_cases hmn : m = n
    · rw [if_pos hmn] at he
      exact hentry e he
    · rw [if_neg hmn] at he
      exact ht.frames m hm e he
  · dsimp only
    rw [hu.base]
    exact ht.supply p hp
  · dsimp only at hne ⊢
    rw [hpde i (by omega)] at hne
    exact ⟨hne, htab i (by omega)⟩

/-- `lookup_page` with `create`: either there is no page for a table, or the table is
there and the map the same. -/
lemma lookupPage (ht : Tables k) (hva : isUserVaddr va = true) :
    ∃ pte k', k.lookupPage va true = (pte, k') ∧ Tables k' ∧ Grows k k' ∧
      (∀ m < 786432, k'.pd.mapping m = k.pd.mapping m) ∧
      ∀ a ∈ pte, k'.pd.pdeAt (va.toNat / 4096 / 1024) ≠ 0 ∧
        a = k'.pd.table (va.toNat / 4096 / 1024) + 4 * (va.toNat / 4096 % 1024) := by
  have hlt := user_page_lt hva
  have hcreate : k.ensure (true = true → isUserVaddr va = true) = k := ensure_of fun _ => hva
  unfold Paging.lookupPage
  dsimp only
  rw [hcreate, pde_eq_pdeAt]
  by_cases hzero : k.pd.pdeAt (va.toNat / 4096 / 1024) = 0
  · rw [if_pos hzero, if_pos rfl]
    rcases ht.pallocGetPage with ⟨page, k₁, hpalloc, ht₁, hlater, hpd, hpage⟩
    rw [hpalloc]
    have hgrows : Grows k k₁ := ⟨hlater, by rw [hpd], fun i _ _ => by rw [hpd],
      fun i hi hne => .inl ⟨by rwa [hpd] at hne, by rw [hpd]⟩⟩
    cases page with
    | none => exact ⟨none, k₁, rfl, ht₁, hgrows, fun m _ => by rw [hpd], nofun⟩
    | some pt =>
      obtain ⟨hpt, hanswer⟩ := hpage pt rfl
      obtain ⟨ht₂, hne, htable, hother, hmap⟩ :=
        ht₁.addTable va hpt (by rw [hpd, toNat_pdNo]; exact hzero)
      rw [toNat_pdNo] at hne htable hother
      dsimp only
      rw [ensure_of hpt.ram.1, ht₂.pteOf rfl hlt hne]
      refine ⟨_, _, rfl, ht₂, ⟨⟨hlater.answers, hlater.owned, hlater.initRamPages⟩, ?_,
        fun i hi hi' => ?_, fun i hi hne' => ?_⟩, fun m hm => by rw [← hpd]; exact hmap m hm,
        fun a ha => ⟨hne, (Option.some.inj ha).symm⟩⟩
      · rw [← hpd]
        rfl
      · rw [← hpd]
        exact hother i hi' (by omega)
      · dsimp only at hne' ⊢
        by_cases hiv : i = va.toNat / 4096 / 1024
        · rw [hiv, htable]
          exact .inr hanswer
        · have hpde := hother i (by omega) hiv
          rw [table, hpde, hpd]
          rw [hpde, hpd] at hne'
          exact .inl ⟨hne', rfl⟩
  · rw [if_neg hzero, ht.pteOf rfl hlt hzero]
    exact ⟨_, k, rfl, ht, Grows.refl k, fun _ _ => rfl,
      fun a ha => ⟨hzero, (Option.some.inj ha).symm⟩⟩

/-- On an unmapped page no assertion fails; it is mapped, or without a page nothing changes. -/
lemma pagedirSetPage (ht : Tables k) {upage : UInt32} (haligned : pgOfs upage = 0)
    (huser : isUserVaddr upage = true) {kpage : Nat} (hram : k.InRam kpage) (writable : Bool)
    (hfree : k.pd.mapping (upage.toNat / 4096) = none) :
    ∃ b k', k.pagedirSetPage upage kpage writable = (b, k') ∧ Tables k' ∧ Grows k k' ∧
      ∀ m < 786432, k'.pd.mapping m =
        if b = true ∧ m = upage.toNat / 4096 then some (kpage, writable) else k.pd.mapping m := by
  have hlt := user_page_lt huser
  rcases ht.lookupPage huser with ⟨pte, k₁, hlook, ht₁, hgrows, hmap, hpte⟩
  unfold Paging.pagedirSetPage
  dsimp only
  rw [ensure_of haligned, ensure_of hram.1, ensure_of huser, ensure_of hram.2.1,
    ensure_of ht.ownDir, hlook]
  cases pte with
  | none =>
    refine ⟨false, k₁, rfl, ht₁, hgrows, fun m hm => ?_⟩
    rw [hmap m hm, if_neg (by simp)]
  | some a =>
    rcases hpte a rfl with ⟨hne, rfl⟩
    have hentry := entry_pteCreateUser hram.1
      (Nat.lt_trans hram.2.2 (by omega : 0x40000000 < 4294967296)) writable
    have hbounds : ∀ e, entry (pteCreateUser kpage writable) = some e →
        e.1 < 0x40000000 ∧ e.1 % 4096 = 0 := by
      intro e he
      rw [hentry] at he
      cases he
      exact ⟨hram.2.2, hram.1⟩
    obtain ⟨ht₂, hgrows₂, hset⟩ := ht₁.update hlt hne
      (k₁.pd.setPte_updated (upage.toNat / 4096) kpage writable) hbounds
    have habsent : k₁.pd.word (k₁.pd.table (upage.toNat / 4096 / 1024) +
        4 * (upage.toNat / 4096 % 1024)) &&& pteP = 0 := by
      have hold := hmap _ hlt
      rw [hfree, mapping, if_neg hne, entry] at hold
      by_contra hp
      simp [if_neg hp] at hold
    dsimp only
    rw [ensure_of habsent]
    refine ⟨true, _, rfl, ht₂, hgrows.trans hgrows₂, fun m hm => ?_⟩
    dsimp only
    rw [hset m hm, hmap m hm, hentry]
    simp

end Tables

lemma Ok.pallocGetPage (ok : Ok k) :
    ∃ page k', k.pallocGetPage = (page, k') ∧ Ok k' ∧ Later k k' ∧ k'.pd = k.pd ∧
      ∀ p ∈ page, NewPage k' p := by
  obtain ⟨page, k', hpalloc, ht, hlater, hpd, hpage⟩ := ok.toTables.pallocGetPage
  refine ⟨page, k', hpalloc, ht.ok fun n hn e he hmem => ?_, hlater, hpd, fun p hp => ?_⟩
  · rw [hpd] at he
    exact (ok.frames n hn e he).2.2 (hlater.answers _ hmem)
  · obtain ⟨hnew, hanswer⟩ := hpage p hp
    refine ⟨hnew.ram, hnew.dir, hnew.table, fun n hn e he heq => ?_, hnew.spent, hnew.owned⟩
    rw [hpd] at he
    exact (ok.frames n hn e he).2.2 (heq ▸ hanswer)

lemma Ok.pagedirGetPage (ok : Ok k) (hva : isUserVaddr va = true) :
    k.pagedirGetPage va =
      ((k.pd.mapping (va.toNat / 4096)).map fun e => e.1 + va.toNat % 4096, k) :=
  ok.toTables.pagedirGetPage hva

lemma Ok.pagedirSetPage (ok : Ok k) {upage : UInt32} (haligned : pgOfs upage = 0)
    (huser : isUserVaddr upage = true) {kpage : Nat} (hram : k.InRam kpage)
    (hspent : some kpage ∉ k.answers) (writable : Bool)
    (hfree : k.pd.mapping (upage.toNat / 4096) = none) :
    ∃ b k', k.pagedirSetPage upage kpage writable = (b, k') ∧ Ok k' ∧ Later k k' ∧
      ∀ m < 786432, k'.pd.mapping m =
        if b = true ∧ m = upage.toNat / 4096 then some (kpage, writable) else k.pd.mapping m := by
  obtain ⟨b, k', heq, ht, hgrows, hmap⟩ :=
    ok.toTables.pagedirSetPage haligned huser hram writable hfree
  refine ⟨b, k', heq, ht.ok fun n hn e he hmem => ?_, hgrows.toLater, hmap⟩
  have hold := hgrows.answers _ hmem
  rw [hmap n hn] at he
  split at he
  next =>
    cases he
    exact hspent hold
  next => exact (ok.frames n hn e he).2.2 hold

end Paging

end Pintos.Userprog
