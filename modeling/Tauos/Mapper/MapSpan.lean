import Tauos.Mapper.MapEntry

/-!
# `map_offset` over a span

`mapOffset_effect`: a call that returns has its effect on all pages that are
hit, by induction over the levels and along the loop of each level.
-/

namespace Tauos.Mapper

open Tauos.Rust Tauos.Amd64

/-! ## The pages of one entry and those of the rest -/

section Hit

variable {acme base a : Int} {lvl : Nat}

/-- From the next entry on, the same entries are visited. -/
theorem visit_add : visit lvl (base + pageSize lvl) a = visit lvl base a := by
  unfold visit
  rw [add_pageSize_ediv]
  ring

/-- No entry is visited in front of the base. -/
theorem le_visit (h : base / pageSize lvl ≤ a / pageSize lvl) : base ≤ visit lvl base a := by
  unfold visit
  have := mul_nonneg (sub_nonneg.mpr h) (cast_pageSize_pos lvl).le
  linarith

/-- The level of a page does not depend on where the loop is. -/
theorem placeLvl_add : placeLvl acme (lvl + 1) (base + pageSize (lvl + 1)) a =
    placeLvl acme (lvl + 1) base a := by
  simp only [placeLvl, visit_add]

/-- The loop meets the entry it stands at and those after it. -/
theorem hit_step (hlt : base < acme) : Hit acme (lvl + 1) base a ↔
    HitEntry acme lvl base a ∨ Hit acme (lvl + 1) (base + pageSize (lvl + 1)) a := by
  unfold HitEntry
  simp only [Hit]
  rw [visit_add, add_pageSize_ediv]
  by_cases hq : a / pageSize (lvl + 1) = base / pageSize (lvl + 1)
  · rw [visit_eq hq]
    constructor
    · intro h
      exact .inl ⟨hq, h.2.2⟩
    · intro h
      obtain h | h := h
      · exact ⟨hq.ge, hlt, h.2⟩
      · omega
  · constructor
    · intro h
      exact .inr ⟨by omega, h.2⟩
    · intro h
      obtain h | h := h
      · exact absurd h.1 hq
      · exact ⟨by omega, h.2⟩

/-- An entry is hit once. -/
theorem hitEntry_not_rest (h : HitEntry acme lvl base a) :
    ¬ Hit acme (lvl + 1) (base + pageSize (lvl + 1)) a := by
  intro hr
  have := hr.1
  rw [add_pageSize_ediv, h.1] at this
  omega

/-- Past the end of the span or of the table there is no further page. -/
theorem not_hit_of_le (hle : acme ≤ base) : ¬ Hit acme (lvl + 1) base a := by
  intro h
  have := le_visit h.1
  have := h.2.1
  omega

/-- Behind the last entry of a table nothing is hit. -/
theorem not_hit_of_last (hlast : tableIndex base (lvl + 1) = 511)
    (hs : SameTable (lvl + 1) base a) : ¬ Hit acme (lvl + 1) (base + pageSize (lvl + 1)) a := by
  intro h
  have hle := h.1
  rw [add_pageSize_ediv] at hle
  have := hs.last hlast (by omega)
  omega

end Hit

/-! ## Frames of the loop -/

/-- Whether something is in the way depends on the tables alone. -/
theorem open_congr {acme : Int} {mem mem' : Frames} : ∀ (lvl : Nat) {table : Nat} {base : Int},
    Agree mem mem' lvl table → (Open acme mem' lvl table base ↔ Open acme mem lvl table base) := by
  intro lvl
  induction lvl with
  | zero => intro table base _; exact Iff.rfl
  | succ lvl ih =>
    intro table base h
    simp only [Open]
    refine forall_congr' fun c => imp_congr_right fun _ => imp_congr_right fun _ =>
      imp_congr_right fun _ => imp_congr_right fun _ => imp_congr_right fun _ => ?_
    rw [h.entry]
    refine imp_congr_right fun _ => and_congr_right fun hb => ?_
    exact ih (h.below (tableIndex_lt c _) hb)

/-- What is open further on in the loop is so after the entry at `base` was changed. -/
theorem open_rest {acme base : Int} {mem mem' : Frames} {lvl table : Nat}
    (hkept : ∀ j, j < 512 → j ≠ tableIndex base (lvl + 1) → Kept mem mem' lvl table j)
    (hlast : tableIndex base (lvl + 1) ≠ 511) :
    Open acme mem' (lvl + 1) table (base + pageSize (lvl + 1)) ↔
      Open acme mem (lvl + 1) table (base + pageSize (lvl + 1)) := by
  obtain ⟨hsame, _⟩ := tableIndex_add hlast
  simp only [Open]
  refine forall_congr' fun c => imp_congr_right fun hle => imp_congr_right fun _ =>
    imp_congr_right fun _ => imp_congr_right fun hs => imp_congr_right fun _ => ?_
  have hne : tableIndex c (lvl + 1) ≠ tableIndex base (lvl + 1) := by
    intro hi
    have hq := (SameTable.index_eq_iff (hsame.trans hs)).mp hi.symm
    have hmono := Int.ediv_le_ediv (cast_pageSize_pos (lvl + 1)) hle
    rw [add_pageSize_ediv] at hmono
    omega
  obtain ⟨heq, hagree⟩ := hkept _ (tableIndex_lt c _) hne
  rw [heq]
  exact imp_congr_right fun _ => and_congr_right fun hb => open_congr lvl (hagree hb)

/-- In particular at the base. -/
theorem Open.at {acme base : Int} {mem : Frames} {lvl table : Nat}
    (h : Open acme mem (lvl + 1) table base) (hlt : base < acme) :
    OpenAt acme mem lvl table base := fun hleaf hP => h base (le_refl _) (by simp) hlt rfl hleaf hP

/-- An open table is open further on. -/
theorem Open.rest {acme base : Int} {mem : Frames} {lvl table : Nat}
    (h : Open acme mem (lvl + 1) table base) (hlast : tableIndex base (lvl + 1) ≠ 511) :
    Open acme mem (lvl + 1) table (base + pageSize (lvl + 1)) := by
  obtain ⟨hsame, _⟩ := tableIndex_add hlast
  intro c hle hdvd hlt hs
  have hP := cast_pageSize_pos (lvl + 1)
  refine h c (by omega) ?_ hlt (hsame.trans hs)
  have := Int.dvd_add hdvd (dvd_refl (pageSize (lvl + 1) : Int))
  rwa [show c - (base + pageSize (lvl + 1)) + pageSize (lvl + 1) = c - base by ring] at this

/-- In a tree, what lies below one entry does not lie below another. -/
theorem Region.disjoint {mem : Frames} {lvl table f i : Nat} {I J : Nat → Prop}
    (htree : Tree mem (lvl + 1) table) (hIJ : ∀ k, I k → ¬ J k)
    (h : Region mem lvl table I f i) : ¬ Region mem lvl table J f i := by
  intro h'
  obtain ⟨rfl, hi⟩ | ⟨k, hk, hI, hb, hu⟩ := h
  · obtain ⟨_, hj⟩ | ⟨k', hk', _, hb', hu'⟩ := h'
    · exact hIJ i hi hj
    · exact (htree k' hk' hb').2.1 hu'
  · obtain ⟨rfl, _⟩ | ⟨k', hk', hJ, hb', hu'⟩ := h'
    · exact (htree k hk hb).2.1 hu
    · have hne : k' ≠ k := fun he => hIJ k hI (he ▸ hJ)
      exact (htree k hk hb).2.2 k' hk' hne hb' f hu hu'

/-- The next entry is in the span. -/
theorem InSpan.next {acme base : Int} {lvl : Nat} (h : InSpan acme base)
    (hlt : base + pageSize lvl < acme) : InSpan acme (base + pageSize lvl) :=
  ⟨by have := h.low; have := cast_pageSize_pos lvl; omega, hlt, h.high⟩

/-- Its address does not wrap around. -/
theorem InSpan.wrap {acme base : Int} {lvl : Nat} (h : InSpan acme base) (hl : lvl ≤ 4) :
    wrappingAdd base (pageSize lvl) = base + pageSize lvl := by
  have hP : pageSize lvl ≤ 2 ^ 39 := by
    rw [pageSize_eq]
    exact Nat.pow_le_pow_right (by norm_num) (by omega)
  obtain ⟨h1, h2, h3⟩ := h
  exact wrappingAdd_of_inIsize ⟨by omega, by omega⟩

section Loop

variable {γ : Type} {pageGetter : γ → Nat → Except Fault (Nat × γ)} {Avail : γ → Nat → Prop}
  {acme base : Int} {branches leaves : PTE} {lvl table : Nat} {s s₁ s₂ s' : Machine γ}
  {lower : Int → Nat → Machine γ → Except Fault (Machine γ)} {tr t₁ t₂ : List Event}

/-- The effect depends on the pages of the region alone. -/
theorem Effect.congr {R R' : Nat → Nat → Prop} {H H' : Int → Prop} {l l' : Int → Nat} {r r' : Int}
    (h : Effect Avail leaves R H l lvl table r s tr s') (hR : ∀ f i, R f i → R' f i)
    (hr : SameTable lvl r r') (hH : ∀ a, SameTable lvl r a → (H' a ↔ H a))
    (hl : ∀ a, l' a = l a) : Effect Avail leaves R' H' l' lvl table r' s tr s' where
  change := h.change.mono hR
  tree := h.tree
  uses := h.uses
  live := h.live
  hit a hs ha := by
    rw [hl]
    exact h.hit a (hr.trans hs) ((hH a (hr.trans hs)).mp ha)
  miss a hs ha := h.miss a (hr.trans hs) fun hc => ha ((hH a (hr.trans hs)).mpr hc)
  inj a a' hs hs' ha ha' := h.inj a a' (hr.trans hs) (hr.trans hs')
    ((hH a (hr.trans hs)).mp ha) ((hH a' (hr.trans hs')).mp ha')
  followed := h.followed

/-- Tables in use stay out of reach of `page_getter`. -/
theorem Effect.used {R : Nat → Nat → Prop} {H : Int → Prop} {l : Int → Nat} {r : Int}
    (h : Effect Avail leaves R H l lvl table r s tr s')
    (hused : ∀ f, Uses s.mem lvl table f → ¬ Avail s.pages f) :
    ∀ f, Uses s'.mem lvl table f → ¬ Avail s'.pages f := by
  intro f hf hav
  obtain hf | hf := h.uses f hf
  · exact hused f hf (h.change.avail f hav).1
  · exact (h.change.avail f hav).2 (h.change.new_taken hf)

/-- The entry at `base`, then the rest of the loop. -/
theorem Effect.loop (hlt : base < acme) (htree : Tree s.mem (lvl + 1) table)
    (hused : ∀ f, Uses s.mem (lvl + 1) table f → ¬ Avail s.pages f)
    (hlast : tableIndex base (lvl + 1) ≠ 511)
    (h₁ : Effect Avail leaves (Region s.mem lvl table (· = tableIndex base (lvl + 1)))
      (HitEntry acme lvl base) (placeLvl acme (lvl + 1) base) (lvl + 1) table base s t₁ s₁)
    (h₂ : Effect Avail leaves
      (Region s₁.mem lvl table (tableIndex (base + pageSize (lvl + 1)) (lvl + 1) ≤ ·))
      (Hit acme (lvl + 1) (base + pageSize (lvl + 1)))
      (placeLvl acme (lvl + 1) (base + pageSize (lvl + 1))) (lvl + 1) table
      (base + pageSize (lvl + 1)) s₁ t₂ s₂) :
    Effect Avail leaves (Region s.mem lvl table (tableIndex base (lvl + 1) ≤ ·))
      (Hit acme (lvl + 1) base) (placeLvl acme (lvl + 1) base) (lvl + 1) table base s
      (t₁ ++ t₂) s₂ := by
  obtain ⟨hsame, hidx⟩ := tableIndex_add hlast
  rw [hidx] at h₂
  have hkept : ∀ j, j < 512 → j ≠ tableIndex base (lvl + 1) → Kept s.mem s₁.mem lvl table j :=
    fun j hj hne => h₁.change.kept htree hused hj hne
  -- the region of the rest is the same before the entry was changed
  have hregion : ∀ f i, Region s₁.mem lvl table (tableIndex base (lvl + 1) + 1 ≤ ·) f i →
      Region s.mem lvl table (tableIndex base (lvl + 1) + 1 ≤ ·) f i := by
    intro f i hf
    exact hf.congr fun k hk hI => hkept k hk (by omega)
  have hown : ∀ w ∈ slots t₁,
      ¬ Region s₁.mem lvl table (tableIndex base (lvl + 1) + 1 ≤ ·) w.1.1 w.1.2 := by
    intro w hw hf
    have hf := hregion _ _ hf
    obtain hin | hnew := (h₁.change.slot w hw).1
    · refine hin.disjoint htree ?_ hf
      intro k hk hk'
      omega
    · exact hused _ hf.uses (h₁.change.new_avail hnew)
  have hchange : Change Avail (Region s.mem lvl table (tableIndex base (lvl + 1) ≤ ·)) s
      (t₁ ++ t₂) s₂ := by
    refine h₁.change.comp h₂.change ?_ ?_ (fun f i hf => hused f hf.uses) hown
    · intro f i hf
      exact hf.mono fun k hk => hk ▸ Nat.le_refl _
    · intro f i hf
      exact .inl ((hregion f i hf).mono fun k hk => by omega)
  have hrest : Effect Avail leaves _ _ (placeLvl acme (lvl + 1) base)
      (lvl + 1) table base s₁ t₂ s₂ :=
    h₂.congr (fun _ _ h => h) hsame.symm (fun _ _ => Iff.rfl) (fun a => placeLvl_add.symm)
  refine h₁.comp hrest hchange (fun a _ => hit_step hlt) (fun a ha => hitEntry_not_rest ha) ?_
  -- a table written for the entry is still below the entry
  intro w hw
  have hkept₂ : Kept s₁.mem s₂.mem lvl table (tableIndex base (lvl + 1)) :=
    h₂.change.kept h₁.tree (h₁.used hused) (tableIndex_lt _ _) (by omega)
  obtain hf | ⟨k, hk, hb, hu⟩ := h₁.live w hw
  · rw [hf]
    exact uses_self _ _ _
  by_cases hki : k = tableIndex base (lvl + 1)
  · subst hki
    refine Uses.below hk (by rw [hkept₂.1]; exact hb) ?_
    rw [hkept₂.1]
    exact (uses_congr lvl (hkept₂.2 hb) _).mpr hu
  · obtain ⟨heq, hagree⟩ := hkept k hk hki
    rw [heq] at hb hu
    have hu := (uses_congr lvl (hagree hb) _).mp hu
    exfalso
    obtain hin | hnew := (h₁.change.slot w hw).1
    · refine hin.disjoint (J := (· = k)) htree ?_ (.inr ⟨k, hk, rfl, hb, hu⟩)
      intro k' hk' hkk
      exact hki (hkk ▸ hk')
    · exact hused _ (Uses.below hk hb hu) (h₁.change.new_avail hnew)

/-- The loop has its effect on all entries from `base` on. -/
theorem mapLoop_effect (hsup : Supply pageGetter Avail) (hflags : Flags branches leaves)
    (hl : lvl + 1 ≤ 4)
    (hlower : ∀ b, InSpan acme b → Lower Avail acme leaves lvl lower b) :
    ∀ (fuel : Nat) {base : Int} {s s' : Machine γ}, InSpan acme base →
      Tree s.mem (lvl + 1) table →
      (∀ f, Uses s.mem (lvl + 1) table f → ¬ Avail s.pages f) →
      Open acme s.mem (lvl + 1) table base →
      mapLoop pageGetter acme branches leaves lower (lvl + 1) table fuel base s = .ok s' →
      ∃ tr, Effect Avail leaves (Region s.mem lvl table (tableIndex base (lvl + 1) ≤ ·))
        (Hit acme (lvl + 1) base) (placeLvl acme (lvl + 1) base) (lvl + 1) table base s tr s' := by
  intro fuel
  induction fuel with
  | zero =>
    intro base s s' _ _ _ _ h
    cases h
  | succ fuel ih =>
    intro base s s' hspan htree hused hopen h
    rw [mapLoop, if_pos hspan.lt] at h
    obtain ⟨s₁, hentry, h⟩ := bind_ok h
    obtain ⟨t₁, h₁⟩ := mapEntry_effect hsup hflags hspan hl htree hused (hopen.at hspan.lt)
      (hlower base hspan) hentry
    -- if nothing follows, the first entry is all there is
    have hstop : (∀ a, SameTable (lvl + 1) base a →
        ¬ Hit acme (lvl + 1) (base + pageSize (lvl + 1)) a) →
        Effect Avail leaves (Region s.mem lvl table (tableIndex base (lvl + 1) ≤ ·))
          (Hit acme (lvl + 1) base) (placeLvl acme (lvl + 1) base)
            (lvl + 1) table base s t₁ s₁ := by
      intro hno
      refine h₁.congr ?_ rfl ?_ (fun _ => rfl)
      · intro f i hf
        exact hf.mono fun k hk => hk ▸ Nat.le_refl _
      · intro a hs
        rw [hit_step hspan.lt, or_iff_left (hno a hs)]
    by_cases hlast : tableIndex base (lvl + 1) = 511
    · rw [if_pos hlast] at h
      cases h
      exact ⟨t₁, hstop fun a hs => not_hit_of_last hlast hs⟩
    · rw [if_neg hlast, hspan.wrap hl] at h
      by_cases hlt : base + pageSize (lvl + 1) < acme
      -- the rest of the loop starts in memory whose other entries are as before
      · have hkept : ∀ j, j < 512 → j ≠ tableIndex base (lvl + 1) →
            Kept s.mem s₁.mem lvl table j :=
          fun j hj hne => h₁.change.kept htree hused hj hne
        obtain ⟨t₂, h₂⟩ := ih (hspan.next hlt) h₁.tree (h₁.used hused)
          ((open_rest hkept hlast).mpr (hopen.rest hlast)) h
        exact ⟨t₁ ++ t₂, Effect.loop hspan.lt htree hused hlast h₁ h₂⟩
      · cases fuel with
        | zero => cases h
        | succ fuel =>
          rw [mapLoop, if_neg hlt] at h
          cases h
          exact ⟨t₁, hstop fun a _ => not_hit_of_le (by omega)⟩

/-- A call of `map_offset` that returns has its effect on the tree of its table. -/
theorem mapOffset_effect (hsup : Supply pageGetter Avail) (hflags : Flags branches leaves) :
    ∀ (lvl : Nat) {base : Int}, InSpan acme base →
      Lower Avail acme leaves lvl (mapOffset pageGetter acme branches leaves lvl) base := by
  intro lvl
  induction lvl with
  | zero =>
    intro base _ table s s' _ _ _ h
    cases h
  | succ lvl ih =>
    intro base hspan table s s' htree hused hopen h
    rw [mapOffset] at h
    by_cases hl : PML4_LVL < lvl + 1
    · rw [if_pos hl] at h
      cases h
    · rw [if_neg hl] at h
      unfold PML4_LVL at hl
      obtain ⟨tr, heff⟩ := mapLoop_effect hsup hflags (by omega) (fun b hb => ih hb) 512 hspan
        htree hused hopen h
      exact ⟨tr, heff.congr (fun f i hf => hf.uses) rfl (fun _ _ => Iff.rfl) (fun _ => rfl)⟩

end Loop

/-! ## What the trace says of the tables -/

section Followed

/-- Nothing is in the way at the base, nor behind. -/
theorem open_of {acme base : Int} {mem : Frames} {lvl table : Nat}
    (hat : OpenAt acme mem lvl table base)
    (hrest : ∀ c, base + pageSize (lvl + 1) ≤ c → (pageSize (lvl + 1) : Int) ∣ c - base → c < acme →
      SameTable (lvl + 1) base c → OpenAt acme mem lvl table c) :
    Open acme mem (lvl + 1) table base := by
  intro c hle hdvd hlt hs
  by_cases hc : c = base
  · subst hc
    exact hat
  · refine hrest c ?_ hdvd hlt hs
    have := Int.le_of_dvd (by omega) hdvd
    omega

variable {γ : Type} {pageGetter : γ → Nat → Except Fault (Nat × γ)} {Avail : γ → Nat → Prop}
  {acme base : Int} {branches leaves : PTE} {lvl table : Nat} {s s' : Machine γ}
  {lower : Int → Nat → Machine γ → Except Fault (Machine γ)} {tr : List Event}

/-- The trace grows. -/
def Grows (s s' : Machine γ) : Prop := ∃ tr, s'.trace = s.trace ++ tr

/-- Two traces, one after the other. -/
theorem Grows.trans {s₁ s₂ s₃ : Machine γ} (h : Grows s₁ s₂) (h' : Grows s₂ s₃) : Grows s₁ s₃ := by
  obtain ⟨t, ht⟩ := h
  obtain ⟨t', ht'⟩ := h'
  exact ⟨t ++ t', by rw [ht', ht, List.append_assoc]⟩

/-- A page that was obtained is in the trace. -/
theorem getPage_grows {s₁ : Machine γ} {n p : Nat}
    (h : s.getPage pageGetter n = .ok (p, s₁)) : Grows s s₁ := by
  obtain ⟨g, _, rfl⟩ := Machine.getPage_ok h
  exact ⟨_, rfl⟩

/-- A pass adds to the trace. -/
theorem mapEntry_grows (hspan : InSpan acme base) (hl : lvl ≤ 4)
    (hlower : ∀ table s s', lower base table s = .ok s' → Grows s s')
    (h : mapEntry pageGetter acme branches leaves lower lvl base table s = .ok s') :
    Grows s s' := by
  obtain ⟨_, p, s₁, e, hget, _, rfl⟩ | ⟨_, _, h⟩ | ⟨_, _, p, s₁, hget, h⟩ :=
    mapEntry_cases hspan hl h
  · exact (getPage_grows hget).trans ⟨_, rfl⟩
  · exact Grows.trans ⟨_, rfl⟩ (hlower _ _ _ h)
  · refine (getPage_grows hget).trans (Grows.trans ?_ (hlower _ _ _ h))
    exact ⟨_, (List.append_assoc _ _ _).trans (List.append_assoc _ _ _)⟩

/-- So does the loop. -/
theorem mapLoop_grows (hl : lvl ≤ 4)
    (hlower : ∀ b, InSpan acme b → ∀ table s s', lower b table s = .ok s' → Grows s s') :
    ∀ (fuel : Nat) {base : Int} {s s' : Machine γ}, -2 ^ 47 ≤ base → acme ≤ 2 ^ 47 →
      mapLoop pageGetter acme branches leaves lower lvl table fuel base s = .ok s' →
        Grows s s' := by
  intro fuel
  induction fuel with
  | zero =>
    intro base s s' _ _ h
    cases h
  | succ fuel ih =>
    intro base s s' hlow hhigh h
    rw [mapLoop] at h
    by_cases hlt : base < acme
    · have hspan : InSpan acme base := ⟨hlow, hlt, hhigh⟩
      rw [if_pos hlt] at h
      obtain ⟨s₁, hentry, h⟩ := bind_ok h
      have h₁ := mapEntry_grows hspan hl (hlower base hspan) hentry
      by_cases hlast : tableIndex base lvl = 511
      · rw [if_pos hlast] at h
        cases h
        exact h₁
      · rw [if_neg hlast, hspan.wrap hl] at h
        have := cast_pageSize_pos lvl
        exact h₁.trans (ih (by omega) hhigh h)
    · rw [if_neg hlt] at h
      cases h
      exact ⟨[], (List.append_nil _).symm⟩

/-- So does `map_offset`. -/
theorem mapOffset_grows : ∀ (lvl : Nat) {base : Int}, InSpan acme base → ∀ (table : Nat)
    (s s' : Machine γ), mapOffset pageGetter acme branches leaves lvl base table s = .ok s' →
    Grows s s' := by
  intro lvl
  induction lvl with
  | zero =>
    intro base _ table s s' h
    cases h
  | succ lvl ih =>
    intro base hspan table s s' h
    rw [mapOffset] at h
    by_cases hl : PML4_LVL < lvl + 1
    · rw [if_pos hl] at h
      cases h
    · rw [if_neg hl] at h
      unfold PML4_LVL at hl
      exact mapLoop_grows (by omega) (fun b hb => ih hb) 512 hspan.low hspan.high h

/-- The call for the level below followed no huge page only if none was in its way. -/
def Tells (pageGetter : γ → Nat → Except Fault (Nat × γ)) (Avail : γ → Nat → Prop) (acme : Int)
    (branches leaves : PTE) (lvl : Nat) (base : Int) : Prop :=
  ∀ table s s' tr, Tree s.mem lvl table → (∀ f, Uses s.mem lvl table f → ¬ Avail s.pages f) →
    mapOffset pageGetter acme branches leaves lvl base table s = .ok s' →
    s'.trace = s.trace ++ tr → (∀ k e, .followed k e ∈ tr → IsBranch k e) →
    Open acme s.mem lvl table base

/-- A pass that followed no leaf found none in its way. -/
theorem mapEntry_openAt (hspan : InSpan acme base) (hl : lvl + 1 ≤ 4)
    (htree : Tree s.mem (lvl + 1) table)
    (hused : ∀ f, Uses s.mem (lvl + 1) table f → ¬ Avail s.pages f)
    (htells : Tells pageGetter Avail acme branches leaves lvl base)
    (h : mapEntry pageGetter acme branches leaves
      (mapOffset pageGetter acme branches leaves lvl) (lvl + 1) base table s = .ok s')
    (htr : s'.trace = s.trace ++ tr) (hall : ∀ k e, .followed k e ∈ tr → IsBranch k e) :
    OpenAt acme s.mem lvl table base := by
  intro hleaf hP
  obtain ⟨hleaf', _⟩ | ⟨_, _, h⟩ | ⟨_, hP', _⟩ := mapEntry_cases hspan hl h
  · exact absurd hleaf' hleaf
  · generalize he : s.mem table (tableIndex base (lvl + 1)) = e at h ⊢
    obtain ⟨t, ht⟩ := mapOffset_grows lvl hspan _ _ _ h
    have htr' : tr = [.followed (lvl + 1) e] ++ t := by
      rw [htr, Machine.follow, List.append_assoc] at ht
      exact List.append_cancel_left ht
    subst htr'
    have hb : IsBranch (lvl + 1) e := hall _ _ (List.mem_append_left _ (List.mem_singleton.mpr rfl))
    have hi := tableIndex_lt base (lvl + 1)
    have hsub := (htree _ hi (he ▸ hb)).1
    rw [he] at hsub
    refine ⟨hb, htells e.getPaddr (s.follow (lvl + 1) e) s' t hsub ?_ h ht
      fun k e' hk => hall k e' (List.mem_append_right _ hk)⟩
    intro f hf
    refine hused f (Uses.below hi (he ▸ hb) ?_)
    rw [he]
    exact hf
  · rw [hP] at hP'
    cases hP'

/-- So did the loop. -/
theorem mapLoop_open (hsup : Supply pageGetter Avail) (hflags : Flags branches leaves)
    (hl : lvl + 1 ≤ 4)
    (htells : ∀ b, InSpan acme b → Tells pageGetter Avail acme branches leaves lvl b) :
    ∀ (fuel : Nat) {base : Int} {s s' : Machine γ} {tr : List Event}, InSpan acme base →
      Tree s.mem (lvl + 1) table →
      (∀ f, Uses s.mem (lvl + 1) table f → ¬ Avail s.pages f) →
      mapLoop pageGetter acme branches leaves (mapOffset pageGetter acme branches leaves lvl)
        (lvl + 1) table fuel base s = .ok s' →
      s'.trace = s.trace ++ tr → (∀ k e, .followed k e ∈ tr → IsBranch k e) →
      Open acme s.mem (lvl + 1) table base := by
  intro fuel
  induction fuel with
  | zero =>
    intro base s s' tr _ _ _ h
    cases h
  | succ fuel ih =>
    intro base s s' tr hspan htree hused h htr hall
    rw [mapLoop, if_pos hspan.lt] at h
    obtain ⟨s₁, hentry, h⟩ := bind_ok h
    obtain ⟨t₁, ht₁⟩ := mapEntry_grows hspan hl
      (fun table s s' => mapOffset_grows lvl hspan table s s') hentry
    -- the first entry says it of its part of the span
    have hat : (∀ k e, .followed k e ∈ t₁ → IsBranch k e) → OpenAt acme s.mem lvl table base :=
      mapEntry_openAt hspan hl htree hused (htells base hspan) hentry ht₁
    -- the last entry of the table ends the loop
    by_cases hlast : tableIndex base (lvl + 1) = 511
    · rw [if_pos hlast] at h
      cases h
      have : tr = t₁ := List.append_cancel_left (htr.symm.trans ht₁)
      subst this
      refine open_of (hat hall) ?_
      intro c hle _ _ hs
      have hmono := Int.ediv_le_ediv (cast_pageSize_pos (lvl + 1)) hle
      rw [add_pageSize_ediv] at hmono
      have := hs.last hlast (by omega)
      omega
    · rw [if_neg hlast, hspan.wrap hl] at h
      obtain ⟨t₂, ht₂⟩ := mapLoop_grows hl (fun b hb => mapOffset_grows lvl hb) fuel
        (by have := hspan.low; have := cast_pageSize_pos (lvl + 1); omega) hspan.high h
      have : tr = t₁ ++ t₂ := by
        rw [ht₂, ht₁, List.append_assoc] at htr
        exact (List.append_cancel_left htr).symm
      subst this
      have hat := hat fun k e hk => hall k e (List.mem_append_left _ hk)
      refine open_of hat ?_
      by_cases hlt : base + pageSize (lvl + 1) < acme
      · -- the rest of the loop says so of the memory it starts in
        obtain ⟨t, h₁⟩ := mapEntry_effect hsup hflags hspan hl htree hused hat
          (mapOffset_effect hsup hflags lvl hspan) hentry
        have hopen := ih (hspan.next hlt) h₁.tree (h₁.used hused) h ht₂
          fun k e hk => hall k e (List.mem_append_right _ hk)
        rw [open_rest (fun j hj hne => h₁.change.kept htree hused hj hne) hlast] at hopen
        intro c hle hdvd hc hs
        refine hopen c hle ?_ hc ((tableIndex_add hlast).1.symm.trans hs)
        have := Int.dvd_sub hdvd (dvd_refl (pageSize (lvl + 1) : Int))
        rwa [show c - base - pageSize (lvl + 1) = c - (base + pageSize (lvl + 1)) by ring] at this
      · intro c hle _ hc _
        omega

/-- So did `map_offset`. -/
theorem mapOffset_open (hsup : Supply pageGetter Avail) (hflags : Flags branches leaves) :
    ∀ (lvl : Nat) {base : Int}, InSpan acme base →
      Tells pageGetter Avail acme branches leaves lvl base := by
  intro lvl
  induction lvl with
  | zero =>
    intro base _ table s s' tr _ _ h
    cases h
  | succ lvl ih =>
    intro base hspan table s s' tr htree hused h htr hall
    rw [mapOffset] at h
    by_cases hl : PML4_LVL < lvl + 1
    · rw [if_pos hl] at h
      cases h
    · rw [if_neg hl] at h
      unfold PML4_LVL at hl
      exact mapLoop_open hsup hflags (by omega) (fun b hb => ih hb) 512 hspan htree hused h htr hall

end Followed

/-! ## How a call can fail -/

section Fails

variable {γ : Type} {pageGetter : γ → Nat → Except Fault (Nat × γ)} {Avail : γ → Nat → Prop}
  {acme base : Int} {branches leaves : PTE} {lvl table : Nat} {s : Machine γ}
  {lower : Int → Nat → Machine γ → Except Fault (Machine γ)}

/-- The computation fails only where `page_getter` does. -/
def ByGetter (pageGetter : γ → Nat → Except Fault (Nat × γ)) {α : Type} (x : Except Fault α) :
    Prop :=
  ∀ e, x = .error e → ∃ g n, pageGetter g n = .error e

/-- A result is no fault. -/
theorem ByGetter.ok {α : Type} (a : α) : ByGetter pageGetter (.ok a) := by
  intro e h
  cases h

/-- A sequence fails by `page_getter` alone if its parts do. -/
theorem ByGetter.bind {α β : Type} {x : Except Fault α} {f : α → Except Fault β}
    (hx : ByGetter pageGetter x) (hf : ∀ a, x = .ok a → ByGetter pageGetter (f a)) :
    ByGetter pageGetter (x >>= f) := by
  cases x with
  | error e => intro e' h; cases h; exact hx e rfl
  | ok a => exact hf a rfl

/-- Getting a page fails by `page_getter` alone. -/
theorem Machine.getPage_byGetter (s : Machine γ) (n : Nat) :
    ByGetter pageGetter (s.getPage pageGetter n) := by
  refine ByGetter.bind ?_ fun a _ => ByGetter.ok _
  intro e h
  exact ⟨_, _, h⟩

/-- So does a pass. -/
theorem mapEntry_byGetter (hsup : Supply pageGetter Avail) (hflags : Flags branches leaves)
    (hspan : InSpan acme base) (hl : lvl + 1 ≤ 4)
    (hlower : lvl ≠ 0 → ∀ table s, ByGetter pageGetter (lower base table s)) :
    ByGetter pageGetter
      (mapEntry pageGetter acme branches leaves lower (lvl + 1) base table s) := by
  rw [mapEntry_eq hspan hl]
  by_cases hleaf : LeafAt acme (lvl + 1) base
  · rw [if_pos hleaf]
    refine ByGetter.bind (s.getPage_byGetter _) ?_
    intro ⟨p, s₁⟩ hget
    have h3 := hleaf.le_three
    obtain ⟨hal, hlt, _⟩ := hsup.getPage (by omega) h3 hget
    obtain ⟨e, he, _⟩ := leafEntry_spec (by omega) h3 hal hlt hflags.leaf_addr
    simp only [he, ok_bind]
    exact ByGetter.ok _
  · rw [if_neg hleaf]
    have hl0 : lvl ≠ 0 := fun h0 => hleaf (.inl (by rw [h0]; rfl))
    cases (s.mem table (tableIndex base (lvl + 1))).contains PTE.P with
    | true => exact hlower hl0 _ _
    | false =>
      refine ByGetter.bind ?_ fun s₁ _ => hlower hl0 _ _
      refine ByGetter.bind (s.getPage_byGetter _) ?_
      intro ⟨p, s₁⟩ hget
      obtain ⟨hal, hlt, _⟩ := hsup.getTable hget
      simp only [fromPaddr_of hal hlt, ok_bind]
      exact ByGetter.ok _

/-- The table ends before the fuel does. -/
theorem mapLoop_byGetter (hsup : Supply pageGetter Avail) (hflags : Flags branches leaves)
    (hl : lvl + 1 ≤ 4)
    (hlower : lvl ≠ 0 → ∀ b, InSpan acme b → ∀ table s, ByGetter pageGetter (lower b table s)) :
    ∀ (fuel : Nat) {base : Int} (s : Machine γ), InSpan acme base →
      512 ≤ fuel + tableIndex base (lvl + 1) →
      ByGetter pageGetter
        (mapLoop pageGetter acme branches leaves lower (lvl + 1) table fuel base s) := by
  intro fuel
  induction fuel with
  | zero =>
    intro base s _ hfuel
    have := tableIndex_lt base (lvl + 1)
    omega
  | succ fuel ih =>
    intro base s hspan hfuel
    rw [mapLoop, if_pos hspan.lt]
    refine ByGetter.bind (mapEntry_byGetter hsup hflags hspan hl fun h0 => hlower h0 base hspan) ?_
    intro s₁ _
    by_cases hlast : tableIndex base (lvl + 1) = 511
    · rw [if_pos hlast]
      exact ByGetter.ok _
    · rw [if_neg hlast, hspan.wrap hl]
      obtain ⟨_, hidx⟩ := tableIndex_add hlast
      by_cases hlt : base + pageSize (lvl + 1) < acme
      · exact ih s₁ (hspan.next hlt) (by omega)
      · have := tableIndex_lt base (lvl + 1)
        cases fuel with
        | zero => omega
        | succ fuel =>
          rw [mapLoop, if_neg hlt]
          exact ByGetter.ok _

/-- So does `map_offset`. -/
theorem mapOffset_byGetter (hsup : Supply pageGetter Avail) (hflags : Flags branches leaves) :
    ∀ (lvl : Nat), 1 ≤ lvl → lvl ≤ 4 → ∀ {base : Int}, InSpan acme base → ∀ (table : Nat)
      (s : Machine γ), ByGetter pageGetter
        (mapOffset pageGetter acme branches leaves lvl base table s) := by
  intro lvl
  induction lvl with
  | zero =>
    intro h1
    omega
  | succ lvl ih =>
    intro _ h4 base hspan table s
    rw [mapOffset, if_neg (by unfold PML4_LVL; omega)]
    exact mapLoop_byGetter hsup hflags h4
      (fun h0 b hb table s => ih (by omega) (by omega) hb table s) 512 s hspan (by omega)

end Fails

end Tauos.Mapper
