import Mathlib
import Pintos.Userprog.PageDirOps

/-!
# Destroying page directories (userprog/pagedir.c)

`pagedir_destroy` walks the user part of a directory and its page tables while
`palloc_free_page` overwrites the pages it is given. The frames that are present, the page
tables and the directory are given back, each once if no two pages share a frame and no
frame is one of the tables.
-/

namespace Pintos.Userprog

open Function List PageDir

/-- Memory and the pages that have been passed to `palloc_free_page`, in order. -/
structure Destroying where
  word : Nat → UInt32
  calls : List Nat
  panicked : Bool

namespace Destroying

def ensure (s : Destroying) (c : Prop) [Decidable c] : Destroying :=
  if c then s else { s with panicked := true }

/-- `palloc_free_page` fills the page with `0xcc` bytes. -/
def pallocFreePage (s : Destroying) (page : Nat) : Destroying :=
  let s := s.ensure (page % 4096 = 0)
  { s with
    word := fun a => if page ≤ a ∧ a < page + 4096 then 0xcccccccc else s.word a
    calls := s.calls ++ [page] }

def freePte (pt : Nat) (s : Destroying) (j : Nat) : Destroying :=
  if s.word (pt + 4 * j) &&& pteP ≠ 0 then
    let s' := s.ensure (s.word (pt + 4 * j) &&& pteAddr < physBase)
    s'.pallocFreePage (s.word (pt + 4 * j) &&& pteAddr).toNat
  else s

def freePde (pd : Nat) (s : Destroying) (i : Nat) : Destroying :=
  if s.word (pd + 4 * i) &&& pteP ≠ 0 then
    let pt := (s.word (pd + 4 * i) &&& pteAddr).toNat
    let s := s.ensure (s.word (pd + 4 * i) &&& pteAddr < physBase)
    ((List.range 1024).foldl (freePte pt) s).pallocFreePage pt
  else s

end Destroying

/-- `pagedir_destroy`; the user part of a directory are its first 768 entries. -/
def Paging.pagedirDestroy (k : Paging) : Destroying :=
  let k := k.ensure (k.pd.base ≠ k.initPageDir)
  ((List.range 768).foldl (Destroying.freePde k.pd.base) ⟨k.pd.word, [], k.panicked⟩).pallocFreePage
    k.pd.base

/-! ## The pages that are freed -/

namespace PageDir

/-- The frames of a table and the table itself. -/
def tableFrees (pd : PageDir) (i : Nat) : List Nat :=
  if pd.pdeAt i = 0 then []
  else (List.range 1024).filterMap (fun j => (pd.mapping (1024 * i + j)).map Prod.fst) ++
    [pd.table i]

def frees (pd : PageDir) : List Nat := (List.range 768).flatMap pd.tableFrees ++ [pd.base]

/-- No page is mapped to the directory or to one of its tables. -/
def Plain (pd : PageDir) : Prop :=
  ∀ n < 786432, ∀ e, pd.mapping n = some e →
    e.1 ≠ pd.base ∧ ∀ i < 1024, pd.pdeAt i ≠ 0 → e.1 ≠ pd.table i

def Injective (pd : PageDir) : Prop :=
  ∀ n < 786432, ∀ m < 786432, ∀ e e', pd.mapping n = some e → pd.mapping m = some e' →
    e.1 = e'.1 → n = m

end PageDir

namespace Destroying

variable {s : Destroying} {page m : Nat} {pd : PageDir} {P : Nat → Prop}

lemma pallocFreePage_eq (hp : page % 4096 = 0) :
    s.pallocFreePage page =
      ⟨fun a => if page ≤ a ∧ a < page + 4096 then 0xcccccccc else s.word a,
        s.calls ++ [page], s.panicked⟩ := by
  unfold pallocFreePage ensure
  rw [if_pos hp]

lemma pallocFreePage_calls (hp : page % 4096 = 0) :
    (s.pallocFreePage page).calls = s.calls ++ [page] := by
  rw [pallocFreePage_eq hp]

lemma pallocFreePage_panicked (hp : page % 4096 = 0) :
    (s.pallocFreePage page).panicked = s.panicked := by
  rw [pallocFreePage_eq hp]

/-- The words of the pages in `P` are those of the directory. -/
def Agrees (s : Destroying) (pd : PageDir) (P : Nat → Prop) : Prop :=
  ∀ a, P (a / 4096 * 4096) → s.word a = pd.word a

lemma Agrees.pallocFreePage (hs : s.Agrees pd P) (hp : page % 4096 = 0) (hnot : ¬ P page) :
    (s.pallocFreePage page).Agrees pd P := by
  intro a ha
  rw [pallocFreePage_eq hp]
  have hout : ¬ (page ≤ a ∧ a < page + 4096) := by
    intro hin
    have hpage : a / 4096 * 4096 = page := by omega
    exact hnot (hpage ▸ ha)
  exact (if_neg hout).trans (hs a ha)

lemma freePtes {i : Nat} (hs : s.Agrees pd P) (hpt : P (pd.table i)) (hne : pd.pdeAt i ≠ 0)
    (hm : m ≤ 1024) (hframes : ∀ j < 1024, ∀ e, pd.mapping (1024 * i + j) = some e →
      e.1 < 0x40000000 ∧ ¬ P e.1) :
    ((range m).foldl (freePte (pd.table i)) s).Agrees pd P ∧
      ((range m).foldl (freePte (pd.table i)) s).panicked = s.panicked ∧
      ((range m).foldl (freePte (pd.table i)) s).calls = s.calls ++
        (range m).filterMap fun j => (pd.mapping (1024 * i + j)).map Prod.fst := by
  induction m with
  | zero => exact ⟨hs, rfl, (append_nil _).symm⟩
  | succ m ih =>
    obtain ⟨hagrees, hpanicked, hcalls⟩ := ih (by omega)
    rw [range_succ, foldl_append, foldl_cons, foldl_nil, filterMap_append]
    generalize (range m).foldl (freePte (pd.table i)) s = t at hagrees hpanicked hcalls ⊢
    have haligned := pd.table_aligned i
    have hword : t.word (pd.table i + 4 * m) = pd.word (pd.table i + 4 * m) := by
      refine hagrees _ ?_
      have hpage : (pd.table i + 4 * m) / 4096 * 4096 = pd.table i := by omega
      rwa [hpage]
    have hmapping : pd.mapping (1024 * i + m) = entry (pd.word (pd.table i + 4 * m)) := by
      have hdiv : (1024 * i + m) / 1024 = i := by omega
      have hmod : (1024 * i + m) % 1024 = m := by omega
      rw [mapping, hdiv, hmod, if_neg hne]
    have hframe := hframes m (by omega)
    rw [hmapping] at hframe
    unfold freePte
    rw [hword]
    simp only [filterMap_cons, filterMap_nil, hmapping]
    unfold entry at hframe ⊢
    by_cases hp : pd.word (pd.table i + 4 * m) &&& pteP = 0
    · rw [if_neg (not_not.mpr hp), if_pos hp]
      refine ⟨hagrees, hpanicked, ?_⟩
      rw [hcalls, Option.map_none, append_nil]
    · rw [if_neg hp] at hframe
      obtain ⟨hram, hnot⟩ := hframe _ rfl
      have hal : (pd.word (pd.table i + 4 * m) &&& pteAddr).toNat % 4096 = 0 := by
        rw [toNat_and_pteAddr]
        omega
      have hensure : t.ensure (pd.word (pd.table i + 4 * m) &&& pteAddr < physBase) = t :=
        if_pos (Paging.lt_physBase hram)
      rw [if_pos hp, if_neg hp, hensure]
      refine ⟨hagrees.pallocFreePage hal hnot, ?_, ?_⟩
      · rw [pallocFreePage_panicked hal, hpanicked]
      · rw [pallocFreePage_calls hal, hcalls, append_assoc]
        rfl

/-- The pages that are still to be read before entry `i`. -/
def Unread (pd : PageDir) (i page : Nat) : Prop :=
  page = pd.base ∨ ∃ j, i ≤ j ∧ j < 768 ∧ pd.pdeAt j ≠ 0 ∧ page = pd.table j

lemma freePdes {k : Paging} (ht : k.Tables) (hplain : k.pd.Plain) (hm : m ≤ 768) :
    ((range m).foldl (freePde k.pd.base) ⟨k.pd.word, [], false⟩).Agrees k.pd
        (Unread k.pd m) ∧
      ((range m).foldl (freePde k.pd.base) ⟨k.pd.word, [], false⟩).panicked = false ∧
      ((range m).foldl (freePde k.pd.base) ⟨k.pd.word, [], false⟩).calls =
        (range m).flatMap k.pd.tableFrees := by
  induction m with
  | zero => exact ⟨fun a _ => rfl, rfl, rfl⟩
  | succ m ih =>
    obtain ⟨hagrees, hpanicked, hcalls⟩ := ih (by omega)
    rw [range_succ, foldl_append, foldl_cons, foldl_nil, flatMap_append, flatMap_singleton]
    generalize (range m).foldl (freePde k.pd.base) ⟨k.pd.word, [], false⟩ = t
      at hagrees hpanicked hcalls ⊢
    have haligned := ht.separate.aligned
    have hweaker : t.Agrees k.pd (Unread k.pd (m + 1)) := fun a ha => hagrees a (by
      rcases ha with hbase | ⟨j, hj, hj', hne, htable⟩
      · exact .inl hbase
      · exact .inr ⟨j, by omega, hj', hne, htable⟩)
    have hword : t.word (k.pd.base + 4 * m) = k.pd.pdeAt m := by
      refine hagrees _ (.inl ?_)
      omega
    rw [tableFrees]
    by_cases hzero : k.pd.pdeAt m = 0
    · have hp : k.pd.pdeAt m &&& pteP = 0 := by
        rw [hzero]
        rfl
      have hstep : freePde k.pd.base t m = t := by
        rw [freePde, hword, if_neg (not_not.mpr hp)]
      rw [hstep, if_pos hzero, append_nil]
      exact ⟨hweaker, hpanicked, hcalls⟩
    · have hp := k.pd.present_of_ne_zero (by omega : m < 1024) hzero
      have hensure : t.ensure (k.pd.pdeAt m &&& pteAddr < physBase) = t :=
        if_pos (Paging.lt_physBase (ht.tables m (by omega) hzero).1)
      have hstep : freePde k.pd.base t m =
          ((range 1024).foldl (freePte (k.pd.table m)) t).pallocFreePage
            (k.pd.table m) := by
        rw [freePde, hword, if_pos hp, hensure]
        rfl
      rw [hstep, if_neg hzero]
      obtain ⟨hagrees', hpanicked', hcalls'⟩ := freePtes hagrees (i := m)
        (.inr ⟨m, Nat.le_refl m, by omega, hzero, rfl⟩) hzero (Nat.le_refl 1024) fun j hj e he => by
          have hn : 1024 * m + j < 786432 := by omega
          refine ⟨(ht.frames _ hn e he).1, ?_⟩
          rintro (hbase | ⟨i, -, hi, hne, htable⟩)
          · exact (hplain _ hn e he).1 hbase
          · exact (hplain _ hn e he).2 i (by omega) hne htable
      have hal := k.pd.table_aligned m
      refine ⟨?_, ?_, ?_⟩
      · refine Agrees.pallocFreePage (fun a ha => hagrees' a ?_) hal ?_
        · rcases ha with hbase | ⟨j, hj, hj', hne, htable⟩
          · exact .inl hbase
          · exact .inr ⟨j, by omega, hj', hne, htable⟩
        · rintro (hbase | ⟨j, hj, hj', hne, htable⟩)
          · exact ht.separate.apart m (by omega) hzero hbase
          · have := ht.separate.inj m (by omega) j hj' hzero hne htable
            omega
      · rw [pallocFreePage_panicked hal, hpanicked', hpanicked]
      · rw [pallocFreePage_calls hal, hcalls', hcalls, append_assoc]

end Destroying

variable {k : Paging} {M : UserMap} {n : Nat} {e : Nat × Bool}

lemma Paging.Tables.pagedirDestroy (ht : k.Tables) (hplain : k.pd.Plain) :
    k.pagedirDestroy.calls = k.pd.frees ∧ k.pagedirDestroy.panicked = false := by
  obtain ⟨-, hpanicked, hcalls⟩ := Destroying.freePdes ht hplain (Nat.le_refl 768)
  unfold Paging.pagedirDestroy
  rw [ensure_of ht.ownDir]
  dsimp only
  rw [ht.intact, Destroying.pallocFreePage_calls ht.separate.aligned,
    Destroying.pallocFreePage_panicked ht.separate.aligned, hcalls, frees]
  exact ⟨rfl, hpanicked⟩

namespace PageDir

variable {pd : PageDir} {p : Nat}

lemma mem_tableFrees {i : Nat} :
    p ∈ pd.tableFrees i ↔ pd.pdeAt i ≠ 0 ∧
      (p = pd.table i ∨ ∃ j < 1024, ∃ w, pd.mapping (1024 * i + j) = some (p, w)) := by
  unfold tableFrees
  by_cases hzero : pd.pdeAt i = 0
  · simp [hzero]
  · rw [if_neg hzero, mem_append, mem_singleton, or_comm, mem_filterMap]
    simp only [mem_range, Option.map_eq_some_iff, Prod.exists, exists_and_right, exists_eq_right]
    exact (and_iff_right hzero).symm

lemma pdeAt_of_mapping {n : Nat} {e : Nat × Bool} (h : pd.mapping n = some e) :
    pd.pdeAt (n / 1024) ≠ 0 := by
  intro hzero
  simp [mapping, if_pos hzero] at h

lemma mem_frees :
    p ∈ pd.frees ↔ p = pd.base ∨ (∃ i < 768, pd.pdeAt i ≠ 0 ∧ p = pd.table i) ∨
      ∃ n < 786432, ∃ w, pd.mapping n = some (p, w) := by
  rw [frees, mem_append, mem_singleton, or_comm, mem_flatMap]
  refine or_congr_right ⟨?_, ?_⟩
  · rintro ⟨i, hi, hmem⟩
    have hi' := mem_range.mp hi
    obtain ⟨hne, htable | ⟨j, hj, w, hmap⟩⟩ := mem_tableFrees.mp hmem
    · exact .inl ⟨i, hi', hne, htable⟩
    · exact .inr ⟨1024 * i + j, by omega, w, hmap⟩
  · rintro (⟨i, hi, hne, htable⟩ | ⟨n, hn, w, hmap⟩)
    · exact ⟨i, mem_range.mpr hi, mem_tableFrees.mpr ⟨hne, .inl htable⟩⟩
    · have hsplit : 1024 * (n / 1024) + n % 1024 = n := Nat.div_add_mod n 1024
      refine ⟨n / 1024, mem_range.mpr (by omega), mem_tableFrees.mpr
        ⟨pdeAt_of_mapping hmap, .inr ⟨n % 1024, by omega, w, ?_⟩⟩⟩
      rw [hsplit, hmap]

/-- With frames of their own, no page is freed twice. -/
lemma frees_nodup (hs : pd.Separate) (hplain : pd.Plain) (hinj : pd.Injective) :
    pd.frees.Nodup := by
  have hframe : ∀ i < 768, ∀ j < 1024, 1024 * i + j < 786432 := by
    intro i hi j hj
    omega
  have htable : ∀ i < 768, (pd.tableFrees i).Nodup := by
    intro i hi
    unfold tableFrees
    by_cases hzero : pd.pdeAt i = 0
    · rw [if_pos hzero]
      exact nodup_nil
    · rw [if_neg hzero, nodup_append]
      refine ⟨?_, nodup_singleton _, ?_⟩
      · refine pairwise_filterMap.mpr (Pairwise.imp_of_mem ?_ nodup_range)
        intro j j' hj hj' hne p hp q hq hpq
        obtain ⟨e, he, rfl⟩ := Option.map_eq_some_iff.mp hp
        obtain ⟨e', he', rfl⟩ := Option.map_eq_some_iff.mp hq
        have heq := hinj _ (hframe i hi j (mem_range.mp hj)) _
          (hframe i hi j' (mem_range.mp hj')) e e' he he' hpq
        omega
      · intro p hp q hq hpq
        rw [mem_singleton] at hq
        obtain ⟨j, hj, hmap⟩ := mem_filterMap.mp hp
        obtain ⟨e, he, rfl⟩ := Option.map_eq_some_iff.mp hmap
        exact (hplain _ (hframe i hi j (mem_range.mp hj)) e he).2 i (by omega) hzero (hpq.trans hq)
  have hpages : ∀ i < 768, ∀ p ∈ pd.tableFrees i, p ≠ pd.base := by
    intro i hi p hp
    obtain ⟨hne, rfl | ⟨j, hj, w, hmap⟩⟩ := mem_tableFrees.mp hp
    · exact hs.apart i hi hne
    · exact (hplain _ (hframe i hi j hj) (p, w) hmap).1
  have happart : ∀ i < 768, ∀ i' < 768, i ≠ i' → ∀ p ∈ pd.tableFrees i, p ∉ pd.tableFrees i' := by
    intro i hi i' hi' hii p hp hp'
    obtain ⟨hne, hcase⟩ := mem_tableFrees.mp hp
    obtain ⟨hne', hcase'⟩ := mem_tableFrees.mp hp'
    rcases hcase with htab | ⟨j, hj, w, hmap⟩
    · rcases hcase' with htab' | ⟨j', hj', w', hmap'⟩
      · exact hii (hs.inj i hi i' hi' hne hne' (htab.symm.trans htab'))
      · exact (hplain _ (hframe i' hi' j' hj') (p, w') hmap').2 i (by omega) hne htab
    · rcases hcase' with htab' | ⟨j', hj', w', hmap'⟩
      · exact (hplain _ (hframe i hi j hj) (p, w) hmap).2 i' (by omega) hne' htab'
      · have heq := hinj _ (hframe i hi j hj) _ (hframe i' hi' j' hj') _ _ hmap hmap' rfl
        omega
  rw [frees, nodup_append, nodup_flatMap]
  refine ⟨⟨fun i hi => htable i (mem_range.mp hi), ?_⟩, nodup_singleton _, ?_⟩
  · refine Pairwise.imp_of_mem ?_ nodup_range
    intro i i' hi hi' hne p hp hp'
    exact happart i (mem_range.mp hi) i' (mem_range.mp hi') hne p hp hp'
  · intro p hp q hq hpq
    obtain ⟨i, hi, hmem⟩ := mem_flatMap.mp hp
    rw [mem_singleton] at hq
    exact hpages i (mem_range.mp hi) p hmem (hpq.trans hq)

end PageDir

/-! ## Reachable directories -/

/-- `pagedir_get_page` finds what is mapped and not cleared since. If no page is mapped to the
directory or a table, `pagedir_destroy` frees frames, user tables and the directory, and none twice
if no two pages share a frame. -/
theorem pagedir_refines {init : PageDir} {s : Paging × UserMap}
    (h : (pdMachine init).Reachable s) :
    s.1.panicked = false ∧
      (∀ va, isUserVaddr va = true → s.1.pagedirGetPage va =
        ((s.2 (va.toNat / 4096)).map fun e => e.1 + va.toNat % 4096, s.1)) ∧
      (s.1.pd.Plain →
        s.1.pagedirDestroy.panicked = false ∧ s.1.pagedirDestroy.calls = s.1.pd.frees ∧
        (∀ p, p ∈ s.1.pagedirDestroy.calls ↔ p = s.1.pd.base ∨
          (∃ i < 768, s.1.pd.pdeAt i ≠ 0 ∧ p = s.1.pd.table i) ∨
          ∃ n < 786432, ∃ w, s.2 n = some (p, w)) ∧
        (∀ i, 768 ≤ i → i < 1024 → s.1.pd.pdeAt i ≠ 0 →
          s.1.pd.table i ∉ s.1.pagedirDestroy.calls) ∧
        (s.1.pd.Injective → s.1.pagedirDestroy.calls.Nodup)) := by
  obtain ⟨ht, hkernel, hmap⟩ := stands_of_reachable h
  refine ⟨ht.intact, fun va hva => ?_, fun hplain => ?_⟩
  · rw [ht.pagedirGetPage hva, hmap _ (Paging.user_page_lt hva)]
  · obtain ⟨hcalls, hok⟩ := ht.pagedirDestroy hplain
    rw [hcalls]
    refine ⟨hok, rfl, fun p => ?_, fun i hi hi' hne hmem => ?_, frees_nodup ht.separate hplain⟩
    · rw [mem_frees]
      refine or_congr_right (or_congr_right (exists_congr fun n => and_congr_right fun hn => ?_))
      rw [hmap n hn]
    · obtain ⟨-, hbase, -, huser⟩ := hkernel i hi hi' hne
      rcases mem_frees.mp hmem with heq | ⟨j, hj, hne', heq⟩ | ⟨n, hn, w, heq⟩
      · exact hbase heq
      · exact huser j hj hne' heq.symm
      · exact (hplain n hn _ heq).2 i hi' hne rfl

lemma zeros_formed : ∀ i < 1024, (0 : UInt32) = 0 ∨ (0 : UInt32) &&& pteP ≠ 0 :=
  fun _ _ => .inl rfl

/-- The kernel's directory of a machine whose directory is one page of zeros. -/
def bareDir : PageDir where
  base := 0x100000
  word := fun _ => 0
  formed := zeros_formed

/-- A directory made from it, with one page left for page tables. -/
def barePaging : Paging where
  pd := bareDir.pagedirCreate 0x101000
  answers := [some 0x102000]
  owned := [0x101000]
  initRamPages := 1024
  initPageDir := 0x100000
  panicked := false

lemma barePaging_created : Created bareDir barePaging := by
  refine ⟨rfl, rfl, by decide, rfl, fun i _ => rfl, fun i _ _ hne => absurd rfl hne, ?_, ?_, rfl⟩
  · intro p hp
    simp only [barePaging, mem_singleton, Option.some.injEq] at hp
    subst hp
    unfold Paging.InRam
    decide
  · exact pairwise_singleton _ _

lemma count_frees {pd : PageDir} {i j j' p : Nat} (hi : i < 768) (hj : j < j')
    (hj' : j' < 1024) {w w' : Bool} (h : pd.mapping (1024 * i + j) = some (p, w))
    (h' : pd.mapping (1024 * i + j') = some (p, w')) : 2 ≤ pd.frees.count p := by
  have hne : pd.pdeAt i ≠ 0 := by
    have hdiv : (1024 * i + j) / 1024 = i := by omega
    have hpde := pdeAt_of_mapping h
    rwa [hdiv] at hpde
  have hrange : [j, j'].Sublist (range 1024) := by
    have hsplit : range 1024 = range j' ++ (range (1024 - j')).map (j' + ·) := by
      rw [← range_add]
      congr 1
      omega
    have hleft : [j].Sublist (range j') := by
      rwa [singleton_sublist, mem_range]
    have hright : [j'].Sublist ((range (1024 - j')).map (j' + ·)) := by
      rw [singleton_sublist, mem_map]
      exact ⟨0, mem_range.mpr (by omega), rfl⟩
    rw [hsplit]
    exact hleft.append hright
  have hframes : [p, p].Sublist (pd.tableFrees i) := by
    have hmapped := hrange.filterMap fun j => (pd.mapping (1024 * i + j)).map Prod.fst
    simp only [filterMap_cons, filterMap_nil, h, h', Option.map_some] at hmapped
    rw [tableFrees, if_neg hne]
    exact hmapped.trans (sublist_append_left _ _)
  have htable : (pd.tableFrees i).Sublist pd.frees := by
    rw [frees, flatMap_def]
    refine (sublist_flatten_of_mem ?_).trans (sublist_append_left _ _)
    exact mem_map_of_mem (mem_range.mpr hi)
  have hcount := (hframes.trans htable).count_le p
  rwa [count_cons_self, count_cons_self, count_nil] at hcount

/-- A directory that comes from the bare one, with the map it stands for. -/
structure FromBare (k : Paging) (M : UserMap) : Prop where
  reachable : (pdMachine bareDir).Reachable (k, M)
  stands : Stands k M
  grows : Paging.Grows barePaging k

lemma fromBare_barePaging : FromBare barePaging fun _ => none :=
  ⟨.start ⟨barePaging_created, rfl⟩, barePaging_created.stands, .refl _⟩

lemma FromBare.run (h : FromBare k M) (op : PdOp) {b : Bool} (hop : op.Allowed k M)
    (hb : (op.run k).1 = b) : FromBare (op.run k).2 (op.act M b) := by
  obtain ⟨hstands, hgrows⟩ := h.stands.run hop
  rw [hb] at hstands
  exact ⟨h.reachable.step (pdMachine_step hop hb), hstands, h.grows.trans hgrows⟩

lemma FromBare.plain (h : FromBare k M) (hframe : ∀ n e, M n = some e → e.1 = 0x103000) :
    k.pd.Plain := by
  have hbare : ∀ i < 1024, barePaging.pd.pdeAt i = 0 := fun i hi => barePaging_created.pdeAt hi
  intro n hn e he
  rw [h.stands.mapping n hn] at he
  rw [hframe n e he, h.grows.base]
  refine ⟨by decide, fun i hi hne heq => ?_⟩
  by_cases huser : i < 768
  · rcases h.grows.user i huser hne with ⟨hold, -⟩ | hanswer
    · exact hold (hbare i hi)
    · rw [← heq] at hanswer
      exact absurd hanswer (by decide)
  · rw [h.grows.kernel i (by omega) hi] at hne
    exact hne (hbare i hi)

def onePage : UserMap := Function.update (fun _ => none) 0x8048 (some (0x103000, true))

def twoPages : UserMap := Function.update onePage 0x8049 (some (0x103000, true))

lemma fromBare_onePage : FromBare ((PdOp.set 0x8048000 0x103000 true).run barePaging).2 onePage :=
  fromBare_barePaging.run (.set 0x8048000 0x103000 true) (by decide +kernel)
    (by decide +kernel : _ = true)

lemma onePage_eq_some (he : onePage n = some e) : n = 0x8048 ∧ e = (0x103000, true) := by
  rw [onePage, update_apply] at he
  split at he
  next heq =>
    cases he
    exact ⟨heq, rfl⟩
  next => cases he

lemma twoPages_eq_some (he : twoPages n = some e) : e = (0x103000, true) := by
  rw [twoPages, update_apply] at he
  split at he
  next =>
    cases he
    rfl
  next => exact (onePage_eq_some he).2

theorem pagedir_refines_barePaging :
    ∃ s, (pdMachine bareDir).Reachable s ∧
      s.1.pagedirGetPage 0x8048010 = (some 0x103010, s.1) ∧
      0x103000 ∈ s.1.pagedirDestroy.calls ∧ s.1.pagedirDestroy.calls.Nodup := by
  have hset := fromBare_onePage
  generalize ((PdOp.set 0x8048000 0x103000 true).run barePaging).2 = k at hset
  have hplain : k.pd.Plain := hset.plain fun n e he => congrArg Prod.fst (onePage_eq_some he).2
  obtain ⟨-, hget, hdestroy⟩ := pagedir_refines hset.reachable
  obtain ⟨-, -, hmem, -, hnodup⟩ := hdestroy hplain
  refine ⟨_, hset.reachable, hget 0x8048010 (by decide),
    (hmem _).mpr (.inr (.inr ⟨0x8048, by decide, true, rfl⟩)), hnodup ?_⟩
  intro n hn m hm e e' he he' _
  rw [hset.stands.mapping n hn] at he
  rw [hset.stands.mapping m hm] at he'
  rw [(onePage_eq_some he).1, (onePage_eq_some he').1]

/-- Two pages are mapped to one frame, which `pagedir_destroy` then frees twice. -/
theorem pagedirDestroy_frees_twice :
    ∃ s, (pdMachine bareDir).Reachable s ∧ s.2 0x8048 = some (0x103000, true) ∧
      2 ≤ s.1.pagedirDestroy.calls.count 0x103000 := by
  have hset : FromBare _ twoPages :=
    fromBare_onePage.run (.set 0x8049000 0x103000 true) (by decide +kernel)
      (by decide +kernel : _ = true)
  generalize (PdOp.run _ _).2 = k at hset
  have hplain : k.pd.Plain := hset.plain fun n e he => congrArg Prod.fst (twoPages_eq_some he)
  have hfirst : k.pd.mapping (1024 * 32 + 72) = some (0x103000, true) :=
    hset.stands.mapping _ (by decide)
  have hsecond : k.pd.mapping (1024 * 32 + 73) = some (0x103000, true) :=
    hset.stands.mapping _ (by decide)
  refine ⟨_, hset.reachable, rfl, ?_⟩
  rw [(hset.stands.tables.pagedirDestroy hplain).1]
  exact count_frees (by decide) (by decide) (by decide) hfirst hsecond

end Pintos.Userprog
