import Pintos.Userprog.Load

/-!
# A segment is loaded

One round of the page loop installs a new frame with its part of the file and zeros; the
loop does so for every page of the segment and takes no more rounds than there are pages.
-/

namespace Pintos.Userprog

/-- What is asked of a call. `install_page` itself finds out whether its page is mapped. -/
def Call.Good : Call → Prop
  | .fileSeek newPos => 0 ≤ newPos
  | .loadSegment ofs upage readBytes zeroBytes =>
      (readBytes + zeroBytes) % 4096 = 0 ∧ pgOfs upage = 0 ∧ ofs % 4096 = 0
  | .installPage upage _ => pgOfs upage = 0 ∧ isUserVaddr upage = true ∧ 4096 ≤ upage
  | .pagedirSetPage upage mapped =>
      pgOfs upage = 0 ∧ isUserVaddr upage = true ∧ 4096 ≤ upage ∧ mapped = false
  | .advance readBytes zeroBytes pageReadBytes pageZeroBytes =>
      pageReadBytes ≤ readBytes ∧ pageZeroBytes ≤ zeroBytes

namespace Loader

/-- No assertion has failed and all calls were good ones. -/
structure Good (s : Loader) : Prop where
  ok : s.paging.Ok
  calls : ∀ c ∈ s.calls, c.Good

/-- The map from user pages to frames. -/
def mapping (s : Loader) (n : Nat) : Option (Nat × Bool) := s.paging.pd.mapping n

/-- User page `n` is mapped and its bytes are as `P` says. -/
def Holds (s : Loader) (n : Nat) (P : Nat → UInt8 → Prop) (writable : Bool) : Prop :=
  ∃ f, s.mapping n = some (f, writable) ∧ ∀ t < 4096, P t (s.byte (f + t))

variable {s : Loader}

lemma Good.call (hs : Good s) {c : Call} (hc : c.Good) : Good (s.call c) := by
  refine ⟨hs.ok, fun c' hc' => ?_⟩
  rcases List.mem_cons.mp hc' with rfl | hc'
  · exact hc
  · exact hs.calls c' hc'

lemma ensure_of {c : Prop} [Decidable c] (hc : c) : s.ensure c = s := by
  rw [ensure, Paging.ensure_of hc]

lemma fileSeek_file (s : Loader) (newPos : Int) : (s.fileSeek newPos).file = s.file := rfl

lemma fileSeek_pos (s : Loader) (newPos : Int) : (s.fileSeek newPos).pos = newPos.toNat := rfl

lemma fileSeek_byte (s : Loader) (newPos : Int) : (s.fileSeek newPos).byte = s.byte := rfl

variable {newPos : Int} {kpage pos x : Nat} {pageRead readBytes zeroBytes : UInt32}
  {P : Nat → UInt8 → Prop} {writable : Bool} {f : Executable} {b : UInt8}

lemma fileSeek_paging (hpos : 0 ≤ newPos) : (s.fileSeek newPos).paging = s.paging := by
  rw [Loader.fileSeek, ensure_of hpos]
  rfl

lemma Good.fileSeek (hs : Good s) (hpos : 0 ≤ newPos) : Good (s.fileSeek newPos) := by
  have hcall : Good (s.call (.fileSeek newPos)) := hs.call hpos
  rw [Loader.fileSeek, ensure_of hpos]
  exact ⟨hcall.ok, hcall.calls⟩

lemma Good.pallocFreePage (hs : Good s) {p : Nat} (haligned : p % 4096 = 0)
    (howned : p ∈ s.paging.owned) : Good (s.pallocFreePage p) := by
  rw [Loader.pallocFreePage, Paging.pallocFreePage, Paging.ensure_of ⟨haligned, howned⟩]
  exact ⟨⟨hs.ok.intact, hs.ok.separate, hs.ok.ownDir, hs.ok.tables, hs.ok.frames, hs.ok.supply,
    hs.ok.once⟩, hs.calls⟩

/-! ## One page -/

/-- `upage` is the address of user page `n`, which is not page 0. -/
structure UserPage (upage : UInt32) (n : Nat) : Prop where
  toNat : upage.toNat = 4096 * n
  pos : 1 ≤ n
  lt : n < 786432

variable {upage : UInt32} {n k : Nat}

lemma UserPage.good (hu : UserPage upage n) :
    pgOfs upage = 0 ∧ isUserVaddr upage = true ∧ 4096 ≤ upage := by
  have hnat := hu.toNat
  have hpos := hu.pos
  have hlt := hu.lt
  refine ⟨?_, ?_, ?_⟩
  · apply UInt32.toNat_inj.mp
    rw [toNat_pgOfs, hnat]
    exact Nat.mul_mod_right 4096 n
  · rw [isUserVaddr_iff, hnat]
    omega
  · rw [UInt32.le_iff_toNat_le, hnat]
    change 4096 ≤ 4096 * n
    omega

lemma UserPage.div (hu : UserPage upage n) : upage.toNat / 4096 = n := by
  rw [hu.toNat]
  omega

lemma Good.installPage (hs : Good s) (hu : UserPage upage n) (hram : s.paging.InRam kpage)
    (hspent : some kpage ∉ s.paging.answers) (writable : Bool) :
    ∃ b s', s.installPage upage kpage writable = (b, s') ∧ Good s' ∧
      Paging.Later s.paging s'.paging ∧ s'.file = s.file ∧ s'.pos = s.pos ∧ s'.byte = s.byte ∧
      (b = true → s.mapping n = none) ∧
      ∀ m < 786432, s'.mapping m =
        if b = true ∧ m = n then some (kpage, writable) else s.mapping m := by
  rcases hu.good with ⟨haligned, huser, hpage⟩
  have hget := hs.ok.pagedirGetPage huser
  rw [hu.div] at hget
  have hs₁ : Good (s.call (.installPage upage (s.mapped upage))) := hs.call ⟨haligned, huser, hpage⟩
  unfold Loader.installPage
  dsimp only
  have hpaging : (s.call (.installPage upage (s.mapped upage))).paging = s.paging := rfl
  rw [hpaging, hget]
  dsimp only
  cases hmap : s.paging.pd.mapping n with
  | some e =>
    refine ⟨false, _, if_neg (by simp), ⟨hs.ok, hs₁.calls⟩, Paging.Later.refl _, rfl, rfl, rfl,
      nofun, fun m _ => ?_⟩
    rw [if_neg (by simp)]
    rfl
  | none =>
    have hnone : s.mapped upage = false := by
      rw [mapped, hu.div, hmap]
      rfl
    rcases hs.ok.pagedirSetPage haligned huser hram hspent writable (by rw [hu.div]; exact hmap)
      with ⟨b, paging, hset, ok, hlater, hmaps⟩
    rw [hu.div] at hmaps
    have hs₂ : Good ((s.call (.installPage upage (s.mapped upage))).call
        (.pagedirSetPage upage (s.mapped upage))) :=
      hs₁.call ⟨haligned, huser, hpage, hnone⟩
    refine ⟨b, { s with
      paging := paging
      calls := .pagedirSetPage upage (s.mapped upage) ::
        .installPage upage (s.mapped upage) :: s.calls }, ?_, ⟨ok, hs₂.calls⟩, hlater, rfl, rfl,
      rfl, fun _ => hmap, hmaps⟩
    refine (if_pos rfl).trans ?_
    dsimp only [Loader.call]
    rw [hset]
    rfl

/-- Byte `x` of a segment that starts at `pos` in the file with `size` bytes from there. -/
def FileByte (file : Executable) (pos size x : Nat) (b : UInt8) : Prop :=
  if x < size then file.bytes[pos + x]? = some b else b = 0

/-- What became of the map and of memory when pages `n` to `n + k - 1` were filled. -/
structure Filled (s s' : Loader) (n k : Nat) (P : Nat → UInt8 → Prop) (writable : Bool) : Prop where
  absent : ∀ m, n ≤ m → m < n + k → s.mapping m = none
  filled : ∀ j < k, s'.Holds (n + j) (fun t => P (4096 * j + t)) writable
  outside : ∀ m < 786432, m < n ∨ n + k ≤ m → s'.mapping m = s.mapping m
  kept : ∀ m < 786432, ∀ Q w, s.Holds m Q w → s'.Holds m Q w

lemma store_zero_byte (s : Loader) (kpage : Nat) {bytes : List UInt8}
    (hlen : bytes.length ≤ 4096) (a : Nat) :
    ((s.store kpage bytes).zero (kpage + bytes.length) (4096 - bytes.length)).byte a =
      if kpage ≤ a ∧ a < kpage + 4096 then bytes.getD (a - kpage) 0 else s.byte a := by
  unfold zero store
  dsimp only
  by_cases hin : kpage ≤ a ∧ a < kpage + 4096
  · rw [if_pos hin]
    by_cases hread : a < kpage + bytes.length
    · rw [if_neg (by omega), if_pos ⟨hin.1, hread⟩]
    · rw [if_pos (by omega), List.getD_eq_default _ _ (by omega)]
  · rw [if_neg hin, if_neg (by omega), if_neg (by omega)]

lemma Good.fillPage (hs : Good s) (hu : UserPage upage n) (hread : pageRead.toNat ≤ 4096)
    (hk : s.paging.NewPage kpage) (bytes : List UInt8) (writable : Bool) :
    ∃ b s', s.fillPage kpage bytes upage pageRead (4096 - pageRead) writable = (b, s') ∧ Good s' ∧
      s'.file = s.file ∧
      (b = true → s'.pos = s.pos ∧ bytes.length = pageRead.toNat ∧
        Filled s s' n 1 (fun x b => b = bytes.getD x 0) writable) := by
  have haligned := hk.ram.1
  have hzero : (4096 - pageRead).toNat = 4096 - pageRead.toNat :=
    UInt32.toNat_sub_of_le _ _ (UInt32.le_iff_toNat_le.mpr hread)
  unfold Loader.fillPage
  dsimp only
  by_cases hlen : bytes.length = pageRead.toNat
  · rw [if_neg (not_not.mpr hlen), hzero, ← hlen]
    -- the frame is filled before it is mapped
    have hbyte := store_zero_byte s kpage (hlen ▸ hread : bytes.length ≤ 4096)
    have hmapping : ∀ m, ((s.store kpage bytes).zero (kpage + bytes.length)
        (4096 - bytes.length)).mapping m = s.mapping m := fun _ => rfl
    have hfill : Good ((s.store kpage bytes).zero (kpage + bytes.length) (4096 - bytes.length)) :=
      ⟨hs.ok, hs.calls⟩
    rcases hfill.installPage hu hk.ram hk.spent writable with
      ⟨b, s', hinstall, hgood, hlater, hfile, hpos, hbyte', habsent, hmap⟩
    rw [hinstall]
    cases b with
    | false =>
      exact ⟨false, _, rfl, hgood.pallocFreePage haligned (hlater.owned kpage hk.owned), hfile,
        nofun⟩
    | true =>
      refine ⟨true, s', rfl, hgood, hfile, fun _ => ⟨hpos, rfl, ?_, ?_, ?_, ?_⟩⟩
      · intro m hm hm'
        have hmn : m = n := by omega
        rw [hmn]
        exact habsent rfl
      · intro j hj
        have hj0 : j = 0 := by omega
        subst hj0
        refine ⟨kpage, (hmap n hu.lt).trans (if_pos ⟨rfl, rfl⟩), fun t ht => ?_⟩
        have hsub : kpage + t - kpage = t := by omega
        dsimp only
        rw [hbyte', hbyte, if_pos (by omega), hsub, Nat.mul_zero, Nat.zero_add]
      · intro m hm hout
        rw [hmap m hm, if_neg (by omega)]
        exact hmapping m
      · rintro m hm Q w ⟨f, hf, hQ⟩
        have hfk : f ≠ kpage := hk.frame m hm (f, w) hf
        have hfaligned : f % 4096 = 0 := (hs.ok.frames m hm (f, w) hf).2.1
        have hmn : m ≠ n := by
          rintro rfl
          have hnone := habsent rfl
          simp [hmapping, hf] at hnone
        refine ⟨f, ?_, fun t ht => ?_⟩
        · rw [hmap m hm, if_neg (by simp [hmn]), hmapping]
          exact hf
        · rw [hbyte', hbyte, if_neg (by omega)]
          exact hQ t ht
  · rw [if_pos hlen]
    have hgood : Good (s.store kpage bytes) := ⟨hs.ok, hs.calls⟩
    exact ⟨false, _, rfl, hgood.pallocFreePage haligned hk.owned, rfl, nofun⟩

lemma Filled.imp {s' : Loader} {Q : Nat → UInt8 → Prop} (hf : Filled s s' n k P writable)
    (h : ∀ x b, x < 4096 * k → P x b → Q x b) : Filled s s' n k Q writable := by
  refine ⟨hf.absent, fun j hj => ?_, hf.outside, hf.kept⟩
  rcases hf.filled j hj with ⟨f, hmap, hP⟩
  exact ⟨f, hmap, fun t ht => h _ _ (by omega) (hP t ht)⟩

lemma Good.loadPage (hs : Good s) (hu : UserPage upage n) (hread : pageRead.toNat ≤ 4096)
    (writable : Bool) :
    ∃ b s', s.loadPage upage pageRead (4096 - pageRead) writable = (b, s') ∧ Good s' ∧
      s'.file = s.file ∧
      (b = true → s'.pos = s.pos + pageRead.toNat ∧
        Filled s s' n 1 (FileByte s.file s.pos pageRead.toNat) writable) := by
  rcases hs.ok.pallocGetPage with ⟨page, paging, hpalloc, ok, hlater, hpd, hnew⟩
  unfold Loader.loadPage
  dsimp only
  rw [hpalloc]
  cases page with
  | none => exact ⟨false, _, rfl, ⟨ok, hs.calls⟩, rfl, nofun⟩
  | some kpage =>
    dsimp only [fileRead]
    generalize hbytes : (s.file.bytes.drop s.pos).take pageRead.toNat = bytes
    have hgood : Good { s with pos := s.pos + bytes.length, paging := paging } := ⟨ok, hs.calls⟩
    rcases hgood.fillPage hu hread (hnew kpage rfl) bytes writable with
      ⟨b, s', hfill, hgood', hfile, hdone⟩
    refine ⟨b, s', hfill, hgood', hfile, fun hb => ?_⟩
    rcases hdone hb with ⟨hpos, hlen, hfilled⟩
    have hmapping : ∀ m, Loader.mapping { s with
        pos := s.pos + bytes.length
        paging := paging } m = s.mapping m := by
      intro m
      change paging.pd.mapping m = s.paging.pd.mapping m
      rw [hpd]
    refine ⟨by rw [hpos, ← hlen], ?_⟩
    have hfilled : Filled s s' n 1 (fun x b => b = bytes.getD x 0) writable := by
      refine ⟨fun m hm hm' => ?_, hfilled.filled, fun m hm hout => ?_, fun m hm Q w hQ => ?_⟩
      · rw [← hmapping]
        exact hfilled.absent m hm hm'
      · rw [← hmapping]
        exact hfilled.outside m hm hout
      · refine hfilled.kept m hm Q w ?_
        rcases hQ with ⟨f, hf, hQ⟩
        exact ⟨f, (hmapping m).trans hf, hQ⟩
    refine hfilled.imp fun x b _ hb => ?_
    rw [hb]
    unfold FileByte
    by_cases hx : x < pageRead.toNat
    · have hget : bytes[x]? = s.file.bytes[s.pos + x]? := by
        rw [← hbytes, List.getElem?_take_of_lt hx, List.getElem?_drop]
      have hlt : x < bytes.length := by omega
      rw [if_pos hx, ← hget, List.getElem?_eq_getElem hlt, List.getD_eq_getElem _ _ hlt]
    · rw [if_neg hx]
      exact List.getD_eq_default _ _ (by omega)

/-! ## The loop -/

lemma Filled.nil (s : Loader) (n : Nat) (P : Nat → UInt8 → Prop) (writable : Bool) :
    Filled s s n 0 P writable :=
  ⟨fun m hm hm' => by omega, fun j hj => by omega, fun _ _ _ => rfl, fun _ _ _ _ h => h⟩

lemma Filled.cons {s₁ s₂ : Loader} (hbound : n + (k + 1) ≤ 786432) (h : Filled s s₁ n 1 P writable)
    (h' : Filled s₁ s₂ (n + 1) k (fun x => P (4096 + x)) writable) :
    Filled s s₂ n (k + 1) P writable := by
  constructor
  · intro m hm hm'
    by_cases hmn : m = n
    · exact h.absent m hm (by omega)
    · rw [← h.outside m (by omega) (by omega)]
      exact h'.absent m (by omega) (by omega)
  · intro j hj
    cases j with
    | zero => exact h'.kept n (by omega) _ _ (h.filled 0 Nat.one_pos)
    | succ j =>
      rcases h'.filled j (by omega) with ⟨f, hmap, hP⟩
      have hpage : n + 1 + j = n + (j + 1) := by omega
      rw [hpage] at hmap
      refine ⟨f, hmap, fun t ht => ?_⟩
      have hx : 4096 * (j + 1) + t = 4096 + (4096 * j + t) := by omega
      dsimp only
      rw [hx]
      exact hP t ht
  · intro m hm hout
    rw [h'.outside m hm (by omega), h.outside m hm (by omega)]
  · intro m hm Q w hQ
    exact h'.kept m hm Q w (h.kept m hm Q w hQ)

/-- What one round of the page loop counts, with `k` pages after it. -/
structure Round (readBytes zeroBytes pageRead : UInt32) (k : Nat) : Prop where
  read : pageRead.toNat = min readBytes.toNat 4096
  leRead : pageRead ≤ readBytes
  leZero : 4096 - pageRead ≤ zeroBytes
  restRead : (readBytes - pageRead).toNat = readBytes.toNat - pageRead.toNat
  rest : (readBytes - pageRead).toNat + (zeroBytes - (4096 - pageRead)).toNat = 4096 * k

lemma round_of_sum (hsum : readBytes.toNat + zeroBytes.toNat = 4096 * (k + 1)) :
    Round readBytes zeroBytes (if readBytes < 4096 then readBytes else 4096) k := by
  have hpage : (4096 : UInt32).toNat = 4096 := rfl
  generalize hpr : (if readBytes < 4096 then readBytes else 4096) = pageRead
  have hread : pageRead.toNat = min readBytes.toNat 4096 := by
    rw [← hpr]
    split
    next hlt =>
      rw [UInt32.lt_iff_toNat_lt, hpage] at hlt
      omega
    next hge =>
      rw [UInt32.lt_iff_toNat_lt, hpage] at hge
      omega
  have hzero : (4096 - pageRead).toNat = 4096 - pageRead.toNat :=
    UInt32.toNat_sub_of_le _ _ (UInt32.le_iff_toNat_le.mpr (by omega))
  have hleRead : pageRead ≤ readBytes := UInt32.le_iff_toNat_le.mpr (by omega)
  -- with less than a page to read, the rest of the page is still to be zeroed
  have hleZero : 4096 - pageRead ≤ zeroBytes := UInt32.le_iff_toNat_le.mpr (by omega)
  refine ⟨hread, hleRead, hleZero, UInt32.toNat_sub_of_le _ _ hleRead, ?_⟩
  rw [UInt32.toNat_sub_of_le _ _ hleRead, UInt32.toNat_sub_of_le _ _ hleZero, hzero]
  omega

lemma pos_of_sum (hsum : readBytes.toNat + zeroBytes.toNat = 4096 * (k + 1)) :
    readBytes > 0 ∨ zeroBytes > 0 := by
  rcases Nat.eq_zero_or_pos readBytes.toNat with hr | hr
  · right
    rw [gt_iff_lt, UInt32.lt_iff_toNat_lt]
    change 0 < zeroBytes.toNat
    omega
  · left
    rwa [gt_iff_lt, UInt32.lt_iff_toNat_lt]

lemma FileByte.first (hx : x < 4096) (hb : FileByte f pos (min n 4096) x b) :
    FileByte f pos n x b := by
  unfold FileByte at hb ⊢
  by_cases hxn : x < n
  · rwa [if_pos (by omega)] at hb ⊢
  · rwa [if_neg (by omega)] at hb ⊢

lemma FileByte.after (hb : FileByte f (pos + min n 4096) (n - min n 4096) x b) :
    FileByte f pos n (4096 + x) b := by
  unfold FileByte at hb ⊢
  by_cases hxn : 4096 + x < n
  · rw [if_pos (by omega)] at hb
    have hplace : pos + (4096 + x) = pos + min n 4096 + x := by omega
    rwa [if_pos hxn, hplace]
  · rw [if_neg (by omega)] at hb
    rwa [if_neg hxn]

lemma Good.loadPages (writable : Bool) :
    ∀ {s : Loader} {upage readBytes zeroBytes : UInt32} {n : Nat}, Good s →
      upage.toNat = 4096 * n → 1 ≤ n → n + k ≤ 786432 →
      readBytes.toNat + zeroBytes.toNat = 4096 * k →
      ∃ b s', (∀ fuel, k < fuel →
          loadPages writable fuel s upage readBytes zeroBytes = some (b, s')) ∧
        Good s' ∧ s'.file = s.file ∧
        (b = true → Filled s s' n k (FileByte s.file s.pos readBytes.toNat) writable) := by
  induction k with
  | zero =>
    intro s upage readBytes zeroBytes n hs hupage hpos hbound hsum
    have hread : readBytes = 0 := UInt32.toNat_inj.mp (by change readBytes.toNat = 0; omega)
    have hzero : zeroBytes = 0 := UInt32.toNat_inj.mp (by change zeroBytes.toNat = 0; omega)
    refine ⟨true, s, fun fuel hfuel => ?_, hs, rfl, fun _ => Filled.nil s n _ writable⟩
    cases fuel with
    | zero => omega
    | succ fuel =>
      rw [Loader.loadPages, hread, hzero, if_neg (by decide)]
  | succ k ih =>
    intro s upage readBytes zeroBytes n hs hupage hpos hbound hsum
    have hmore := pos_of_sum hsum
    have hcount := round_of_sum hsum
    generalize hpr : (if readBytes < 4096 then readBytes else 4096) = pageRead at hcount
    have hread := hcount.read
    rcases hs.loadPage ⟨hupage, hpos, by omega⟩ (by omega : pageRead.toNat ≤ 4096) writable with
      ⟨b, s₁, hround, hs₁, hfile, hdone⟩
    cases b with
    | false =>
      refine ⟨false, s₁, fun fuel hfuel => ?_, hs₁, hfile, nofun⟩
      cases fuel with
      | zero => omega
      | succ fuel =>
        rw [Loader.loadPages, if_pos hmore]
        dsimp only
        rw [hpr, hround]
        rfl
    | true =>
      rcases hdone rfl with ⟨hpos₁, hfilled⟩
      have hs₂ : Good (s₁.call (.advance readBytes zeroBytes pageRead (4096 - pageRead))) :=
        hs₁.call ⟨hcount.leRead, hcount.leZero⟩
      have hupage' : (upage + 4096).toNat = 4096 * (n + 1) := by
        have hpage : (4096 : UInt32).toNat = 4096 := rfl
        rw [UInt32.toNat_add, hupage, hpage]
        omega
      rcases ih hs₂ hupage' (by omega) (by omega) hcount.rest with
        ⟨b, s', hrest, hs', hfile', hdone'⟩
      refine ⟨b, s', fun fuel hfuel => ?_, hs', hfile'.trans hfile, fun hb => ?_⟩
      · cases fuel with
        | zero => omega
        | succ fuel =>
          rw [Loader.loadPages, if_pos hmore]
          dsimp only
          rw [hpr, hround]
          exact (if_pos rfl).trans (hrest fuel (by omega))
      · have hrest' := hdone' hb
        rw [hread] at hfilled
        refine (hfilled.imp fun x b hx hb => hb.first (by omega)).cons (by omega) ?_
        have hshift : Filled s₁ s' (n + 1) k
            (FileByte s₁.file s₁.pos (readBytes - pageRead).toNat) writable :=
          ⟨hrest'.absent, hrest'.filled, hrest'.outside, hrest'.kept⟩
        rw [hfile, hpos₁, hcount.restRead, hread] at hshift
        exact hshift.imp fun x b _ hb => hb.after

end Loader

end Pintos.Userprog
