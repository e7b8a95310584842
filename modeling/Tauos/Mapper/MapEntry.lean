import Tauos.Mapper.MapEffect

/-!
# One turn of the loop of `map_offset`

`mapEntry_effect`: the body of the loop has the effect `Effect` on the entry it
stands at, given that the call for the level below has its effect. The two
branches of the body are `Effect.leaf` and `Effect.enter`.
-/

namespace Tauos.Mapper

open Tauos.Rust Tauos.Amd64

/-! ## Entries -/

/-- What the safety comment asks of the flags: no address, and a branch is no huge page. -/
structure Flags (branches leaves : PTE) : Prop where
  branch_addr : branches &&& PTE.BASE_MASK = 0
  branch_ps : branches.testBit 7 = false
  leaf_addr : leaves &&& PTE.BASE_MASK = 0

/-- The bits that a leaf has besides its address and its flags are below its page size. -/
theorem leafEntry_eq (leaves : PTE) {l p : Nat} (h1 : 1 ≤ l) (hal : PTE_SIZE ∣ p)
    (hlt : p < 2 ^ 52) :
    ∃ extra, leafEntry leaves l p = .ok (PTE.P ||| p ||| leaves ||| extra) ∧
      (∀ i, extra.testBit i = true → i < l * 9 + 3) ∧
      (l ≠ 1 → (PTE.P ||| p ||| leaves ||| extra).testBit 7 = true) := by
  unfold leafEntry
  rw [fromPaddr_of hal hlt, ok_bind]
  by_cases hl : l = PT_LVL
  · rw [if_neg (by simp [hl])]
    refine ⟨0, by rw [Nat.or_zero]; rfl, ?_, fun h => absurd hl h⟩
    intro i hi
    rw [Nat.zero_testBit] at hi
    cases hi
  · rw [if_pos hl]
    have hl2 : 2 ≤ l := by unfold PT_LVL at hl; omega
    by_cases hpat : PTE.contains (PTE.P ||| p ||| leaves) PTE.PAT = true
    · refine ⟨PTE.PAT_PS, by rw [if_pos hpat]; rfl, ?_, ?_⟩
      · intro i hi
        have : 12 = i := by simpa [PTE.PAT_PS, Nat.testBit_two_pow (n := 12)] using hi
        omega
      · intro _
        have h7 : (PTE.P ||| p ||| leaves).testBit 7 = true := contains_PS ▸ hpat
        rw [Nat.testBit_or, h7]
        rfl
    · refine ⟨PTE.PS, by rw [if_neg hpat]; rfl, ?_, ?_⟩
      · intro i hi
        have : 7 = i := by simpa [PTE.PS, Nat.testBit_two_pow (n := 7)] using hi
        omega
      · intro _
        rw [Nat.testBit_or, show PTE.PS.testBit 7 = true by decide, Bool.or_true]

/-- The entry of a leaf has its page and flags. -/
theorem leafEntry_spec {leaves l p : Nat} (h1 : 1 ≤ l) (h3 : l ≤ 3) (hal : pageSize l ∣ p)
    (hlt : p < 2 ^ 52) (hleaves : leaves &&& PTE.BASE_MASK = 0) :
    ∃ e, leafEntry leaves l p = .ok e ∧ e.contains PTE.P = true ∧ e.contains leaves = true ∧
      ¬ IsBranch l e ∧ e.getPaddr / pageSize l * pageSize l = p := by
  have hpage : PTE_SIZE ∣ p := by
    refine dvd_trans ?_ hal
    rw [pageSize_eq, show PTE_SIZE = 2 ^ 12 from rfl]
    exact pow_dvd_pow 2 (by omega)
  obtain ⟨extra, he, hextra, hps⟩ := leafEntry_eq leaves h1 hpage hlt
  refine ⟨_, he, ?_, ?_, ?_, ?_⟩
  · rw [contains_P]
    simp [PTE.P]
  · rw [contains_iff]
    intro i hi
    simp [Nat.testBit_or, hi]
  · intro hb
    obtain ⟨_, hl, hn⟩ := hb
    exact hn ⟨by rw [contains_PS]; exact hps hl, by omega⟩
  · apply Nat.eq_of_testBit_eq
    intro i
    rw [pageSize_eq, Nat.testBit_mul_two_pow, Nat.testBit_div_two_pow]
    unfold PTE.getPaddr
    have hflags := testBit_flags hleaves i
    by_cases hi : l * 9 + 3 ≤ i
    · -- the address bits of the page size and above come from `p` alone
      have h0 : PTE.P.testBit i = false := by
        rw [testBit_P, decide_eq_false_iff_not]
        omega
      have hx : extra.testBit i = false := by
        by_contra hc
        have := hextra i (by simpa using hc)
        omega
      rw [Nat.sub_add_cancel hi, Nat.testBit_and, Nat.testBit_or, Nat.testBit_or, Nat.testBit_or,
        h0, hx]
      cases hp : p.testBit i with
      | true =>
        rw [testBit_BASE_MASK]
        simp [hi, paddr_testBit hpage hlt hp]
      | false => simpa [hi] using hflags
    · obtain ⟨c, rfl⟩ := hal
      rw [pageSize_eq, Nat.testBit_two_pow_mul]
      simp [hi]

/-! ## Pages from `page_getter` -/

section Supply

variable {γ : Type}

/-- `page_getter` returns pages that are aligned to their size, addressable and fresh:
`Avail g x` says that `x` has not been handed out in state `g`, nor is it in use. -/
structure Supply (pageGetter : γ → Nat → Except Fault (Nat × γ)) (Avail : γ → Nat → Prop) :
    Prop where
  page : ∀ g l p g', 1 ≤ l → l ≤ 3 → pageGetter g (pageSize l) = .ok (p, g') →
    pageSize l ∣ p ∧ p + pageSize l ≤ 2 ^ 52 ∧
    (∀ x, p ≤ x → x < p + pageSize l → Avail g x) ∧
    ∀ x, Avail g' x → Avail g x ∧ ¬ (p ≤ x ∧ x < p + pageSize l)

variable {pageGetter : γ → Nat → Except Fault (Nat × γ)} {Avail : γ → Nat → Prop}

/-- The smallest page. -/
theorem pageSize_one : pageSize 1 = PTE_SIZE := by decide

/-- A page ends in physical memory, so it starts there. -/
theorem page_lt {l p : Nat} (h : p + pageSize l ≤ 2 ^ 52) : p < 2 ^ 52 := by
  have := pageSize_pos l
  omega

/-- A page that was obtained is from `page_getter`. -/
theorem Machine.getPage_ok {s s' : Machine γ} {n p : Nat}
    (h : s.getPage pageGetter n = .ok (p, s')) :
    ∃ g, pageGetter s.pages n = .ok (p, g) ∧
      s' = { s with pages := g, trace := s.trace ++ [.got n p] } := by
  obtain ⟨⟨q, g⟩, hg, hret⟩ := bind_ok h
  cases hret
  exact ⟨g, hg, rfl⟩

/-- A page that a machine gets. -/
theorem Supply.getPage (hsup : Supply pageGetter Avail) {s s' : Machine γ} {l p : Nat} (h1 : 1 ≤ l)
    (h3 : l ≤ 3) (h : s.getPage pageGetter (pageSize l) = .ok (p, s')) :
    pageSize l ∣ p ∧ p < 2 ^ 52 ∧ Avail s.pages p := by
  obtain ⟨g, hg, _⟩ := Machine.getPage_ok h
  obtain ⟨hal, hlt, hav, _⟩ := hsup.page _ _ _ _ h1 h3 hg
  exact ⟨hal, page_lt hlt, hav p (Nat.le_refl _) (Nat.lt_add_of_pos_right (pageSize_pos l))⟩

/-- A page that it gets for a table. -/
theorem Supply.getTable (hsup : Supply pageGetter Avail) {s s' : Machine γ} {p : Nat}
    (h : s.getPage pageGetter PTE_SIZE = .ok (p, s')) :
    PTE_SIZE ∣ p ∧ p < 2 ^ 52 ∧ Avail s.pages p := by
  rw [← pageSize_one] at h ⊢
  exact hsup.getPage (Nat.le_refl 1) (by omega) h

/-- A page goes into an entry. -/
theorem Change.install (hsup : Supply pageGetter Avail) {s s' : Machine γ} {l p table i : Nat}
    {g : γ} {e : PTE} {tr : List Event} (h1 : 1 ≤ l) (h3 : l ≤ 3)
    (hget : pageGetter s.pages (pageSize l) = .ok (p, g))
    (he : Installs (pageSize l, p) ((table, i), e)) (hpages : s'.pages = g)
    (htrace : s'.trace = s.trace ++ tr) (hgots : gots tr = [(pageSize l, p)])
    (hslots : slots tr = [((table, i), e)])
    (hnew : ∀ f, NewTable tr f → f = p ∧ pageSize l = PTE_SIZE) (hmem : s'.mem table i = e)
    (honly : ∀ f j, ¬ (f = table ∧ j = i) → s'.mem f j ≠ s.mem f j →
      NewTable tr f ∧ s'.mem f j = 0) :
    Change Avail (fun f j => f = table ∧ j = i) s tr s' := by
  obtain ⟨_, _, hav, hrest⟩ := hsup.page _ _ _ _ h1 h3 hget
  have htaken : ∀ x, Taken tr x ↔ p ≤ x ∧ x < p + pageSize l := by
    intro x
    simp [Taken, hgots]
  refine ⟨htrace, ?_, ?_, ?_, ?_, ?_, ?_, ?_, ?_⟩
  · intro f j hne
    by_cases hfj : f = table ∧ j = i
    · obtain ⟨rfl, rfl⟩ := hfj
      exact .inl ⟨e, by rw [hslots]; exact List.mem_singleton.mpr rfl⟩
    · exact .inr (honly f j hfj hne)
  · intro x hx
    rw [hpages] at hx
    rw [htaken]
    exact hrest x hx
  · intro x ht
    rw [htaken] at ht
    exact hav x ht.1 ht.2
  · rw [hgots]
    exact List.pairwise_singleton _ _
  · intro f hf
    obtain ⟨rfl, hl⟩ := hnew f hf
    rw [hgots, hl]
    exact List.mem_singleton.mpr rfl
  · intro w hw
    rw [hslots] at hw
    cases List.mem_singleton.mp hw
    exact ⟨.inl ⟨rfl, rfl⟩, hmem⟩
  · rw [hslots]
    exact List.pairwise_singleton _ _
  · rw [hgots, hslots]
    exact .cons he .nil

/-- A leaf goes into an entry. -/
theorem Change.leaf (hsup : Supply pageGetter Avail)
    {s s₁ : Machine γ} {l p table i : Nat} {e : PTE}
    (h1 : 1 ≤ l) (h3 : l ≤ 3) (hget : s.getPage pageGetter (pageSize l) = .ok (p, s₁))
    (he : Installs (pageSize l, p) ((table, i), e)) :
    Change Avail (fun f j => f = table ∧ j = i) s [.got (pageSize l) p, .wrote table i e]
      (s₁.write table i e) := by
  obtain ⟨g, hg, rfl⟩ := Machine.getPage_ok hget
  refine Change.install hsup h1 h3 hg he rfl (List.append_assoc _ _ _) rfl rfl ?_
    (if_pos ⟨rfl, rfl⟩) ?_
  · intro f hf
    simp [NewTable] at hf
  · intro f j hfj hne
    exact absurd (if_neg hfj) hne

/-- A new table goes into an entry. -/
theorem Change.table (hsup : Supply pageGetter Avail) {s s₁ : Machine γ} {p table i : Nat} {e : PTE}
    (hget : s.getPage pageGetter PTE_SIZE = .ok (p, s₁))
    (he : Installs (PTE_SIZE, p) ((table, i), e)) :
    Change Avail (fun f j => f = table ∧ j = i) s [.got PTE_SIZE p, .zeroed p, .wrote table i e]
      ((s₁.zero p).write table i e) := by
  obtain ⟨g, hg, rfl⟩ := Machine.getPage_ok hget
  rw [← pageSize_one] at hg he
  refine Change.install hsup (Nat.le_refl 1) (by omega) hg he rfl ?_ rfl rfl ?_
    (if_pos ⟨rfl, rfl⟩) ?_
  · simp [Machine.write, Machine.zero]
  · intro f hf
    exact ⟨by simpa [NewTable] using hf, pageSize_one⟩
  · intro f j hfj hne
    simp only [Machine.write, Machine.zero, if_neg hfj] at hne ⊢
    by_cases hf : f = p
    · subst hf
      exact ⟨by simp [NewTable], if_pos rfl⟩
    · exact absurd (if_neg hf) hne

/-- Following an entry changes nothing. -/
theorem Change.follow (s : Machine γ) (lvl : Nat) (e : PTE) (R : Nat → Nat → Prop) :
    Change Avail R s [.followed lvl e] (s.follow lvl e) := by
  refine ⟨rfl, fun f i h => absurd rfl h, ?_, ?_, List.Pairwise.nil, ?_, ?_, List.nodup_nil, .nil⟩
  · intro x hx
    refine ⟨hx, ?_⟩
    intro ht
    obtain ⟨q, hq, _⟩ := ht
    cases hq
  · intro x ht
    obtain ⟨q, hq, _⟩ := ht
    cases hq
  · intro f hf
    simp [NewTable] at hf
  · intro w hw
    cases hw

end Supply

/-! ## The two branches -/

section Entry

/-- What the entry at `base` has hit. -/
def HitEntry (acme : Int) (lvl : Nat) (base a : Int) : Prop :=
  a / pageSize (lvl + 1) = base / pageSize (lvl + 1) ∧
    (LeafAt acme (lvl + 1) base ∨ Hit acme lvl base a)

/-- The entry of the base is visited at the base. -/
theorem visit_eq {lvl : Nat} {base a : Int} (h : a / pageSize lvl = base / pageSize lvl) :
    visit lvl base a = base := by
  unfold visit
  rw [h, sub_self, zero_mul, add_zero]

variable {γ : Type} {pageGetter : γ → Nat → Except Fault (Nat × γ)} {Avail : γ → Nat → Prop}
  {acme base : Int} {branches leaves : PTE} {lvl table : Nat} {s s₁ s₂ : Machine γ}
  {t₀ t : List Event}

/-- The entry becomes a leaf. -/
theorem Effect.leaf (hsup : Supply pageGetter Avail) (hflags : Flags branches leaves)
    (htree : Tree s.mem (lvl + 1) table)
    (hused : ∀ f, Uses s.mem (lvl + 1) table f → ¬ Avail s.pages f) (hl : lvl + 1 ≤ 3)
    (hleaf : LeafAt acme (lvl + 1) base) {p : Nat}
    (hget : s.getPage pageGetter (pageSize (lvl + 1)) = .ok (p, s₁)) {e : PTE}
    (he : leafEntry leaves (lvl + 1) p = .ok e) :
    ∃ tr, Effect Avail leaves (Region s.mem lvl table (· = tableIndex base (lvl + 1)))
      (HitEntry acme lvl base) (placeLvl acme (lvl + 1) base) (lvl + 1) table base s tr
      (s₁.write table (tableIndex base (lvl + 1)) e) := by
  obtain ⟨hal, hlt, _⟩ := hsup.getPage (by omega) hl hget
  obtain ⟨e', he', hP, _, hb, hframe⟩ := leafEntry_spec (by omega) hl hal hlt hflags.leaf_addr
  cases he.symm.trans he'
  have hinst : Installs (pageSize (lvl + 1), p) ((table, tableIndex base (lvl + 1)), e) :=
    ⟨hP, hframe⟩
  have hchange : Change Avail (Region s.mem lvl table (· = tableIndex base (lvl + 1))) s _ _ :=
    (Change.leaf hsup (by omega) hl hget hinst).mono fun f i h => .inl h
  have hentry : (s₁.write table (tableIndex base (lvl + 1)) e).mem table
      (tableIndex base (lvl + 1)) = e := if_pos ⟨rfl, rfl⟩
  have hkept : ∀ j, j < 512 → j ≠ tableIndex base (lvl + 1) →
      Kept s.mem (s₁.write table (tableIndex base (lvl + 1)) e).mem lvl table j :=
    fun j hj hne => hchange.kept htree hused hj hne
  -- the walk of an address in the entry ends in the leaf
  have hwalk : ∀ a, a / pageSize (lvl + 1) = base / pageSize (lvl + 1) →
      SameTable (lvl + 1) base a →
      walk (s₁.write table (tableIndex base (lvl + 1)) e).mem (lvl + 1) table a =
        some ⟨lvl + 1, e, []⟩ := by
    intro a hq hs
    have hidx := (SameTable.index_eq_iff hs).mpr hq.symm
    exact walk_leaf (by rw [← hidx]; exact hentry) hP hb
  refine ⟨_, hchange, ?_, ?_, ?_, ?_, ?_, ?_, ?_⟩
  · refine htree.update hkept ?_ ?_
    · intro hc
      rw [hentry] at hc
      exact absurd hc hb
    · intro hc
      rw [hentry] at hc
      exact absurd hc hb
  · intro f hf
    obtain hf | ⟨hc, _⟩ := Uses.update hkept hf
    · exact .inl hf
    · rw [hentry] at hc
      exact absurd hc hb
  · intro w hw
    cases List.mem_singleton.mp hw
    exact uses_self _ _ _
  · intro a hs ha
    have hl : placeLvl acme (lvl + 1) base a = lvl + 1 := by
      rw [placeLvl, visit_eq ha.1, if_pos hleaf]
    rw [hl]
    exact ⟨⟨lvl + 1, e, []⟩, p, hwalk a ha.1 hs, rfl, he, hframe, List.mem_singleton.mpr rfl,
      by simp [NewTable]⟩
  · intro a hs ha
    have hne : tableIndex a (lvl + 1) ≠ tableIndex base (lvl + 1) := by
      intro hi
      exact ha ⟨((SameTable.index_eq_iff hs).mp hi.symm).symm, .inl hleaf⟩
    exact (hkept _ (tableIndex_lt a _) hne).walk_eq
  · intro a a' hs hs' ha ha' heq
    unfold Amd64.translate at heq
    rw [hwalk a ha.1 hs, hwalk a' ha'.1 hs'] at heq
    have hmod : a % pageSize (lvl + 1) = a' % pageSize (lvl + 1) := by
      have h0 := Int.emod_nonneg a (cast_pageSize_pos (lvl + 1)).ne'
      have h0' := Int.emod_nonneg a' (cast_pageSize_pos (lvl + 1)).ne'
      simp only [Option.map_some, Option.some.injEq] at heq
      omega
    have hd := Int.mul_ediv_add_emod a (pageSize (lvl + 1))
    have hd' := Int.mul_ediv_add_emod a' (pageSize (lvl + 1))
    rw [← hd, ← hd', ha.1, ha'.1, hmod]
  · intro k e' hk
    simp at hk

/-- The call goes on in the table `child` of the entry, which holds what was there before or
is a new, empty table. -/
theorem Effect.enter (htree : Tree s.mem (lvl + 1) table)
    (hused : ∀ f, Uses s.mem (lvl + 1) table f → ¬ Avail s.pages f)
    (hbranch : ¬ LeafAt acme (lvl + 1) base) {e : PTE} {R₀ Rc : Nat → Nat → Prop}
    (h₀ : Change Avail R₀ s t₀ s₁) (hslots : ∀ w ∈ slots t₀, w.1.1 = table)
    (hfollowed : ∀ k e', .followed k e' ∈ t₀ → IsBranch k e')
    (he : s₂.mem table (tableIndex base (lvl + 1)) = e) (hb : IsBranch (lvl + 1) e)
    (hchange : Change Avail (Region s.mem lvl table (· = tableIndex base (lvl + 1))) s (t₀ ++ t) s₂)
    (h : Effect Avail leaves Rc (Hit acme lvl base) (placeLvl acme lvl base) lvl e.getPaddr base
      s₁ t s₂)
    (hchild : ∀ f, Uses s₁.mem lvl e.getPaddr f →
      (IsBranch (lvl + 1) (s.mem table (tableIndex base (lvl + 1))) ∧
        Uses s.mem lvl (s.mem table (tableIndex base (lvl + 1))).getPaddr f) ∨ NewTable t₀ f)
    (hprev : ∀ a, tableIndex a (lvl + 1) = tableIndex base (lvl + 1) →
      walk s.mem (lvl + 1) table a = (walk s₁.mem lvl e.getPaddr a).map
        fun leaf => { leaf with above := e :: leaf.above }) :
    Effect Avail leaves (Region s.mem lvl table (· = tableIndex base (lvl + 1)))
      (HitEntry acme lvl base) (placeLvl acme (lvl + 1) base)
      (lvl + 1) table base s (t₀ ++ t) s₂ := by
  have hi := tableIndex_lt base (lvl + 1)
  have hkept : ∀ j, j < 512 → j ≠ tableIndex base (lvl + 1) →
      Kept s.mem s₂.mem lvl table j := fun j hj hne => hchange.kept htree hused hj hne
  have hnew : ∀ f, NewTable (t₀ ++ t) f → ¬ Uses s.mem (lvl + 1) table f :=
    fun f hf hu => hused f hu (hchange.new_avail hf)
  -- tables below the entry: what was there before, and new ones
  have hbelow : ∀ f, Uses s₂.mem lvl e.getPaddr f →
      (IsBranch (lvl + 1) (s.mem table (tableIndex base (lvl + 1))) ∧
        Uses s.mem lvl (s.mem table (tableIndex base (lvl + 1))).getPaddr f) ∨
      NewTable (t₀ ++ t) f := by
    intro f hf
    rw [newTable_append]
    obtain hf | hf := h.uses f hf
    · exact (hchild f hf).imp_right .inl
    · exact .inr (.inr hf)
  have hwalk : ∀ a, SameTable (lvl + 1) base a →
      a / pageSize (lvl + 1) = base / pageSize (lvl + 1) →
      s₂.mem table (tableIndex a (lvl + 1)) = e := by
    intro a hs hq
    rw [← (SameTable.index_eq_iff hs).mpr hq.symm]
    exact he
  refine ⟨hchange, ?_, ?_, ?_, ?_, ?_, ?_, ?_⟩
  · refine htree.update hkept ?_ ?_
    · intro _
      rw [he]
      exact h.tree
    · intro _ f hf
      rw [he] at hf
      obtain ⟨hb', hf⟩ | hf := hbelow f hf
      · obtain ⟨_, hself, hdisj⟩ := htree _ hi hb'
        refine ⟨?_, fun j hj hne hbj => hdisj j hj hne hbj f hf⟩
        intro hft
        exact hself (hft ▸ hf)
      · refine ⟨?_, fun j hj _ hbj hu => hnew f hf (Uses.below hj hbj hu)⟩
        intro hft
        exact hnew f hf (hft ▸ uses_self _ _ _)
  · intro f hf
    obtain hf | ⟨_, hf⟩ := Uses.update hkept hf
    · exact .inl hf
    · rw [he] at hf
      obtain ⟨hb', hf⟩ | hf := hbelow f hf
      · exact .inl (Uses.below hi hb' hf)
      · exact .inr hf
  · intro w hw
    rw [slots_append, List.mem_append] at hw
    obtain hw | hw := hw
    · rw [hslots w hw]
      exact uses_self _ _ _
    · refine Uses.below hi (by rw [he]; exact hb) ?_
      rw [he]
      exact h.live w hw
  · intro a hs ha
    obtain ⟨hq, hH⟩ := ha
    have hH := hH.resolve_left hbranch
    obtain ⟨leaf, p, hw, hl, hpte, hframe, hgot, hn⟩ := h.hit a hq.symm hH
    have hlvl : placeLvl acme (lvl + 1) base a = placeLvl acme lvl base a := by
      rw [placeLvl, visit_eq hq, if_neg hbranch]
    rw [hlvl]
    refine ⟨{ leaf with above := e :: leaf.above }, p, ?_, hl, hpte, hframe, ?_, ?_⟩
    · rw [walk_branch (hwalk a hs hq) hb, hw]
      rfl
    · rw [gots_append]
      exact List.mem_append_right _ hgot
    · rw [newTable_append]
      intro hc
      obtain hc | hc := hc
      · exact (h₀.avail p (h.change.taken p (mem_gots_taken hgot))).2 (h₀.new_taken hc)
      · exact hn hc
  · intro a hs ha
    by_cases hidx : tableIndex a (lvl + 1) = tableIndex base (lvl + 1)
    · have hq := ((SameTable.index_eq_iff hs).mp hidx.symm).symm
      rw [walk_branch (hwalk a hs hq) hb, hprev a hidx, h.miss a hq.symm]
      exact fun hH => ha ⟨hq, .inr hH⟩
    · exact (hkept _ (tableIndex_lt a _) hidx).walk_eq
  · intro a a' hs hs' ha ha' heq
    rw [translate_branch (hwalk a hs ha.1) hb, translate_branch (hwalk a' hs' ha'.1) hb] at heq
    exact h.inj a a' ha.1.symm ha'.1.symm (ha.2.resolve_left hbranch)
      (ha'.2.resolve_left hbranch) heq
  · intro k e' hk
    exact (List.mem_append.mp hk).elim (hfollowed k e') (h.followed k e')

end Entry

/-! ## The body of the loop -/

/-- Nothing is in the way in an empty table. -/
theorem open_empty {acme : Int} {mem : Frames} {table : Nat} (h : ∀ i, mem table i = 0) (lvl : Nat)
    (base : Int) : Open acme mem lvl table base := by
  cases lvl with
  | zero => trivial
  | succ lvl =>
    intro c _ _ _ _ _ hP
    rw [h, contains_zero] at hP
    cases hP

section Body

variable {γ : Type} {pageGetter : γ → Nat → Except Fault (Nat × γ)} {Avail : γ → Nat → Prop}
  {acme base : Int} {branches leaves : PTE} {lvl table : Nat} {s s' : Machine γ}
  {lower : Int → Nat → Machine γ → Except Fault (Machine γ)}

/-- The span is canonical, and the loop is not past its end. -/
structure InSpan (acme base : Int) : Prop where
  low : -2 ^ 47 ≤ base
  lt : base < acme
  high : acme ≤ 2 ^ 47

/-- The test for alignment. -/
theorem psAligned_iff (hl : lvl ≤ 4) :
    (asUsize base &&& (pageSize lvl - 1) == 0) = true ↔ (pageSize lvl : Int) ∣ base := by
  have hmod := asUsize_emod (x := base) (k := lvl * 9 + 3) (by omega)
  rw [beq_iff_eq, pageSize_eq, Nat.and_two_pow_sub_one_eq_mod, Int.dvd_iff_emod_eq_zero]
  push_cast
  rw [← hmod]
  exact_mod_cast Iff.rfl

/-- The test for a leaf. -/
theorem leafAt_iff (h : InSpan acme base) (hl : lvl ≤ 4) :
    (lvl = PT_LVL ∨ (pageSize lvl ≤ (acme - base).toNat + PTE_SIZE - 1 ∧
      (asUsize base &&& (pageSize lvl - 1) == 0) = true ∧ lvl < 4)) ↔ LeafAt acme lvl base := by
  obtain ⟨h1, h2, h3⟩ := h
  unfold LeafAt
  rw [psAligned_iff hl]
  refine or_congr_right (and_congr_left fun _ => ?_)
  have hP : PTE_SIZE = 4096 := rfl
  omega

/-- There are no leaves at level 4. -/
theorem LeafAt.le_three (h : LeafAt acme lvl base) : lvl ≤ 3 := by
  obtain h1 | ⟨_, _, h4⟩ := h
  · rw [h1]
    decide
  · omega

/-- One pass of the loop, by the kind of entry. -/
theorem mapEntry_eq (h : InSpan acme base) (hl : lvl ≤ 4) :
    mapEntry pageGetter acme branches leaves lower lvl base table s =
      (if LeafAt acme lvl base then do
        let (page, s) ← s.getPage pageGetter (pageSize lvl)
        return s.write table (tableIndex base lvl) (← leafEntry leaves lvl page)
      else do
        let s ← if (s.mem table (tableIndex base lvl)).contains PTE.P then pure s
          else newTable pageGetter branches table (tableIndex base lvl) s
        lower base (s.mem table (tableIndex base lvl)).getPaddr
          (s.follow lvl (s.mem table (tableIndex base lvl)))) := by
  obtain ⟨h1, h2, h3⟩ := h
  have hP : PTE_SIZE = 4096 := rfl
  unfold mapEntry
  rw [isizeSub_of_inIsize ⟨by omega, by omega⟩, ok_bind,
    asUsize_of_nonneg (by omega) (by omega), usizeAdd_of_lt (by omega), ok_bind,
    usizeSub_of_le (by omega), ok_bind]
  simp only [leafAt_iff ⟨h1, h2, h3⟩ hl]

/-- All that the body of the loop can do. -/
theorem mapEntry_cases (hspan : InSpan acme base) (hl : lvl ≤ 4)
    (h : mapEntry pageGetter acme branches leaves lower lvl base table s = .ok s') :
    (LeafAt acme lvl base ∧ ∃ p s₁ e, s.getPage pageGetter (pageSize lvl) = .ok (p, s₁) ∧
      leafEntry leaves lvl p = .ok e ∧ s' = s₁.write table (tableIndex base lvl) e) ∨
    (¬ LeafAt acme lvl base ∧ (s.mem table (tableIndex base lvl)).contains PTE.P = true ∧
      lower base (s.mem table (tableIndex base lvl)).getPaddr
        (s.follow lvl (s.mem table (tableIndex base lvl))) = .ok s') ∨
    (¬ LeafAt acme lvl base ∧ (s.mem table (tableIndex base lvl)).contains PTE.P = false ∧
      ∃ p s₁, s.getPage pageGetter PTE_SIZE = .ok (p, s₁) ∧
        lower base (PTE.P ||| p ||| branches).getPaddr
          (((s₁.zero p).write table (tableIndex base lvl) (PTE.P ||| p ||| branches)).follow lvl
            (PTE.P ||| p ||| branches)) = .ok s') := by
  rw [mapEntry_eq hspan hl] at h
  by_cases hleaf : LeafAt acme lvl base
  · rw [if_pos hleaf] at h
    obtain ⟨⟨p, s₁⟩, hget, h⟩ := bind_ok h
    obtain ⟨e, he, hret⟩ := bind_ok h
    cases hret
    exact .inl ⟨hleaf, p, s₁, e, hget, he, rfl⟩
  · rw [if_neg hleaf] at h
    cases hP : (s.mem table (tableIndex base lvl)).contains PTE.P with
    | true =>
      simp only [hP, if_true, pure_bind] at h
      exact .inr (.inl ⟨hleaf, rfl, h⟩)
    | false =>
      simp only [hP, Bool.false_eq_true, if_false] at h
      obtain ⟨s₂, hnew, h⟩ := bind_ok h
      obtain ⟨⟨p, s₁⟩, hget, hnew⟩ := bind_ok hnew
      obtain ⟨q, hq, hret⟩ := bind_ok hnew
      have hqp : q = p := by
        obtain ⟨_, _, hret'⟩ := bind_ok hq
        cases hret'
        rfl
      subst hqp
      cases hret
      have hentry : ((s₁.zero q).write table (tableIndex base lvl) (PTE.P ||| q ||| branches)).mem
          table (tableIndex base lvl) = PTE.P ||| q ||| branches := if_pos ⟨rfl, rfl⟩
      rw [hentry] at h
      exact .inr (.inr ⟨hleaf, rfl, q, s₁, hget, h⟩)

/-- The entry at `base` is not a huge page that the call would follow. -/
def OpenAt (acme : Int) (mem : Frames) (lvl table : Nat) (base : Int) : Prop :=
  ¬ LeafAt acme (lvl + 1) base →
    (mem table (tableIndex base (lvl + 1))).contains PTE.P = true →
    IsBranch (lvl + 1) (mem table (tableIndex base (lvl + 1))) ∧
      Open acme mem lvl (mem table (tableIndex base (lvl + 1))).getPaddr base

/-- What the call for the level below does, when it returns. -/
def Lower (Avail : γ → Nat → Prop) (acme : Int) (leaves : PTE) (lvl : Nat)
    (lower : Int → Nat → Machine γ → Except Fault (Machine γ)) (base : Int) : Prop :=
  ∀ table s s', Tree s.mem lvl table → (∀ f, Uses s.mem lvl table f → ¬ Avail s.pages f) →
    Open acme s.mem lvl table base → lower base table s = .ok s' →
    ∃ tr, Effect Avail leaves (fun f _ => Uses s.mem lvl table f) (Hit acme lvl base)
      (placeLvl acme lvl base) lvl table base s tr s'

section Enter

variable (htree : Tree s.mem (lvl + 1) table)
  (hused : ∀ f, Uses s.mem (lvl + 1) table f → ¬ Avail s.pages f)
  (hbranch : ¬ LeafAt acme (lvl + 1) base) (hlower : Lower Avail acme leaves lvl lower base)
include htree hused hbranch hlower

/-- The entry has a table. -/
theorem enter_present (hb : IsBranch (lvl + 1) (s.mem table (tableIndex base (lvl + 1))))
    (hopen : Open acme s.mem lvl (s.mem table (tableIndex base (lvl + 1))).getPaddr base)
    (h : lower base (s.mem table (tableIndex base (lvl + 1))).getPaddr
      (s.follow (lvl + 1) (s.mem table (tableIndex base (lvl + 1)))) = .ok s') :
    ∃ tr, Effect Avail leaves (Region s.mem lvl table (· = tableIndex base (lvl + 1)))
      (HitEntry acme lvl base) (placeLvl acme (lvl + 1) base) (lvl + 1) table base s tr s' := by
  generalize he : s.mem table (tableIndex base (lvl + 1)) = e at hb hopen h
  have hi := tableIndex_lt base (lvl + 1)
  obtain ⟨hsub, hself, _⟩ := htree _ hi (he ▸ hb)
  rw [he] at hsub hself
  have hbelow : ∀ f, Uses s.mem lvl e.getPaddr f → Uses s.mem (lvl + 1) table f := by
    intro f hf
    refine Uses.below hi (he ▸ hb) ?_
    rw [he]
    exact hf
  -- the level below works on the tree behind the entry, which does not get back here
  obtain ⟨t, hc⟩ := hlower e.getPaddr (s.follow (lvl + 1) e) s' hsub
    (fun f hf => hused f (hbelow f hf)) hopen h
  have h₀ : Change Avail (fun _ _ => False) s [.followed (lvl + 1) e] (s.follow (lvl + 1) e) :=
    Change.follow s (lvl + 1) e _
  have hentry : s'.mem table (tableIndex base (lvl + 1)) = e := by
    rw [hc.change.frame hself (hused table (uses_self _ _ _))]
    exact he
  have hchange : Change Avail (Region s.mem lvl table (· = tableIndex base (lvl + 1))) s
      ([.followed (lvl + 1) e] ++ t) s' := by
    refine h₀.comp hc.change (fun f i hf => hf.elim) ?_ (fun f i hf => hf.elim) ?_
    · intro f i hf
      refine .inl (.inr ⟨_, hi, rfl, he ▸ hb, ?_⟩)
      rw [he]
      exact hf
    · intro w hw
      cases hw
  refine ⟨_, Effect.enter htree hused hbranch h₀ ?_ ?_ hentry hb hchange hc ?_ ?_⟩
  · intro w hw
    cases hw
  · intro k e' hk
    have : k = lvl + 1 ∧ e' = e := by simpa using hk
    obtain ⟨rfl, rfl⟩ := this
    exact hb
  · intro f hf
    refine .inl ⟨he ▸ hb, ?_⟩
    rw [he]
    exact hf
  · intro a hidx
    exact walk_branch (by rw [hidx]; exact he) hb

/-- A table is made for the entry. -/
theorem enter_absent (hsup : Supply pageGetter Avail) (hflags : Flags branches leaves)
    (hP : (s.mem table (tableIndex base (lvl + 1))).contains PTE.P = false) {p : Nat}
    {s₁ : Machine γ} (hget : s.getPage pageGetter PTE_SIZE = .ok (p, s₁))
    (h : lower base p (((s₁.zero p).write table (tableIndex base (lvl + 1))
      (PTE.P ||| p ||| branches)).follow (lvl + 1) (PTE.P ||| p ||| branches)) = .ok s') :
    ∃ tr, Effect Avail leaves (Region s.mem lvl table (· = tableIndex base (lvl + 1)))
      (HitEntry acme lvl base) (placeLvl acme (lvl + 1) base) (lvl + 1) table base s tr s' := by
  have hpage := hsup.getTable hget
  have hl : 1 < lvl + 1 := by
    have : lvl + 1 ≠ PT_LVL := fun hc => hbranch (.inl hc)
    unfold PT_LVL at this
    omega
  obtain ⟨hb, hpaddr⟩ :=
    branch_entry hl hpage.1 hpage.2.1 hflags.branch_addr hflags.branch_ps
  have hinst : Installs (PTE_SIZE, p)
      ((table, tableIndex base (lvl + 1)), PTE.P ||| p ||| branches) := by
    refine ⟨hb.1, ?_⟩
    show PTE.getPaddr (PTE.P ||| p ||| branches) / PTE_SIZE * PTE_SIZE = p
    rw [hpaddr]
    exact Nat.div_mul_cancel hpage.1
  -- the new table is zeroed and installed
  have htab := Change.table hsup hget hinst
  generalize hs₂ : ((s₁.zero p).write table (tableIndex base (lvl + 1)) (PTE.P ||| p ||| branches))
    = s₂ at h htab
  generalize PTE.P ||| p ||| branches = e at hb hpaddr h htab hs₂
  -- it is a page that no table of the tree has
  have hne : p ≠ table := fun hc => hused table (uses_self _ _ _) (hc ▸ hpage.2.2)
  have h₀ : Change Avail (fun f j => f = table ∧ j = tableIndex base (lvl + 1)) s
      ([.got PTE_SIZE p, .zeroed p, .wrote table (tableIndex base (lvl + 1)) e] ++
        [.followed (lvl + 1) e]) (s₂.follow (lvl + 1) e) :=
    htab.comp (Change.follow s₂ (lvl + 1) e (fun _ _ => False)) (fun f i hf => hf)
      (fun f i hf => hf.elim) (fun f i hf => hf.1 ▸ hused table (uses_self _ _ _))
      (fun w _ hf => hf)
  have hempty : ∀ i, (s₂.follow (lvl + 1) e).mem p i = 0 := by
    intro i
    subst hs₂
    show (if p = table ∧ i = _ then e else if p = p then 0 else s₁.mem p i) = 0
    rw [if_neg (fun hc => hne hc.1), if_pos rfl]
  have hnew : NewTable ([.got PTE_SIZE p, .zeroed p,
      .wrote table (tableIndex base (lvl + 1)) e] ++ [.followed (lvl + 1) e]) p := by
    simp [NewTable]
  -- the level below starts from an empty tree
  obtain ⟨t, hc⟩ := hlower p (s₂.follow (lvl + 1) e) s' (tree_empty hempty lvl)
    (by
      intro f hf
      rw [uses_empty hempty hf]
      exact fun hav => (h₀.avail p hav).2 (h₀.new_taken hnew))
    (open_empty hempty lvl base) h
  -- and does not get back to this table, so the entry stays
  have hself : ¬ Uses (s₂.follow (lvl + 1) e).mem lvl p table :=
    fun hu => hne (uses_empty hempty hu).symm
  have hentry : s'.mem table (tableIndex base (lvl + 1)) = e := by
    have hav : ¬ Avail (s₂.follow (lvl + 1) e).pages table :=
      fun hc => hused table (uses_self _ _ _) (h₀.avail table hc).1
    rw [hc.change.frame hself hav]
    subst hs₂
    exact if_pos ⟨rfl, rfl⟩
  have hchange := h₀.comp (R := Region s.mem lvl table (· = tableIndex base (lvl + 1)))
    hc.change (fun f i hf => .inl hf)
      (fun f i hf => .inr (by rw [uses_empty hempty hf]; exact hnew))
    (fun f i hf => hf.1 ▸ hused table (uses_self _ _ _))
    (by
      intro w hw hf
      cases List.mem_singleton.mp hw
      exact hself hf)
  refine ⟨_, Effect.enter htree hused hbranch h₀ ?_ ?_ hentry hb hchange (hpaddr ▸ hc) ?_ ?_⟩
  · intro w hw
    cases List.mem_singleton.mp hw
    rfl
  · intro k e' hk
    have : k = lvl + 1 ∧ e' = e := by simpa using hk
    obtain ⟨rfl, rfl⟩ := this
    exact hb
  · intro f hf
    rw [hpaddr] at hf
    rw [uses_empty hempty hf]
    exact .inr hnew
  · intro a hidx
    rw [hpaddr, walk_empty hempty]
    simp only [walk]
    rw [hidx, if_pos (by simp [hP])]
    rfl

end Enter

/-- The body of the loop has its effect on one entry. -/
theorem mapEntry_effect (hsup : Supply pageGetter Avail) (hflags : Flags branches leaves)
    (hspan : InSpan acme base) (hl : lvl + 1 ≤ 4) (htree : Tree s.mem (lvl + 1) table)
    (hused : ∀ f, Uses s.mem (lvl + 1) table f → ¬ Avail s.pages f)
    (hopen : OpenAt acme s.mem lvl table base) (hlower : Lower Avail acme leaves lvl lower base)
    (h : mapEntry pageGetter acme branches leaves lower (lvl + 1) base table s = .ok s') :
    ∃ tr, Effect Avail leaves (Region s.mem lvl table (· = tableIndex base (lvl + 1)))
      (HitEntry acme lvl base) (placeLvl acme (lvl + 1) base) (lvl + 1) table base s tr s' := by
  obtain ⟨hleaf, p, s₁, e, hget, he, rfl⟩ | ⟨hleaf, hP, h⟩ | ⟨hleaf, hP, p, s₁, hget, h⟩ :=
    mapEntry_cases hspan hl h
  · exact Effect.leaf hsup hflags htree hused hleaf.le_three hleaf hget he
  · obtain ⟨hb, hop⟩ := hopen hleaf hP
    exact enter_present htree hused hleaf hlower hb hop h
  · obtain ⟨hal, hlt, _⟩ := hsup.getTable hget
    rw [getPaddr_entry hal hlt hflags.branch_addr] at h
    exact enter_absent htree hused hleaf hlower hsup hflags hP hget h

end Body

end Tauos.Mapper
