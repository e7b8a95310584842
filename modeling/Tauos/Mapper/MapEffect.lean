import Mathlib.Data.List.Forall2
import Tauos.Mapper.MapOffset

/-!
# What a call of `map_offset` does

`Change Avail R s tr s'` is the part of the effect that has nothing to do with
addresses: the call took pages from `page_getter`, each of them goes into one
entry, and only entries of `R` and of new tables are written. `Effect` adds
what that makes of the walk: a page that is hit gets a leaf on a page of its
own, and every other page keeps its translation.

Both compose along the loop (`Change.comp`, `Effect.comp`). That a part of a
call cannot disturb another is in the shape of the tables: the parts write
below different entries of a tree.
-/

namespace Tauos.Mapper

open Tauos.Rust Tauos.Amd64

/-! ## Reading a trace -/

/-- The pages obtained from `page_getter`, with their sizes. -/
def gots (tr : List Event) : List (Nat × Nat) :=
  tr.filterMap fun
    | .got n p => some (n, p)
    | _ => none

/-- The entries written. -/
def slots (tr : List Event) : List ((Nat × Nat) × PTE) :=
  tr.filterMap fun
    | .wrote f i e => some ((f, i), e)
    | _ => none

/-- The address is in a page that the call obtained. -/
def Taken (tr : List Event) (x : Nat) : Prop := ∃ g ∈ gots tr, g.2 ≤ x ∧ x < g.2 + g.1

/-- The call made a table of the frame. -/
def NewTable (tr : List Event) (f : Nat) : Prop := .zeroed f ∈ tr

/-- No address is in both pages. -/
def Apart (g g' : Nat × Nat) : Prop := ∀ x, g.2 ≤ x → x < g.2 + g.1 → ¬ (g'.2 ≤ x ∧ x < g'.2 + g'.1)

/-- The entry has the page for its frame. -/
def Installs (g : Nat × Nat) (slot : (Nat × Nat) × PTE) : Prop :=
  slot.2.contains PTE.P = true ∧ slot.2.getPaddr / g.1 * g.1 = g.2

@[simp] theorem gots_append (t₁ t₂ : List Event) : gots (t₁ ++ t₂) = gots t₁ ++ gots t₂ :=
  List.filterMap_append

@[simp] theorem slots_append (t₁ t₂ : List Event) : slots (t₁ ++ t₂) = slots t₁ ++ slots t₂ :=
  List.filterMap_append

@[simp] theorem taken_append {t₁ t₂ : List Event} {x : Nat} :
    Taken (t₁ ++ t₂) x ↔ Taken t₁ x ∨ Taken t₂ x := by
  simp only [Taken, gots_append, List.mem_append, or_and_right, exists_or]

@[simp] theorem newTable_append {t₁ t₂ : List Event} {f : Nat} :
    NewTable (t₁ ++ t₂) f ↔ NewTable t₁ f ∨ NewTable t₂ f := List.mem_append

/-! ## Writes -/

section Change

variable {γ : Type} (Avail : γ → Nat → Prop)

/-- The call took pages that were available and wrote them to entries of `R` or of new
tables. -/
structure Change (R : Nat → Nat → Prop) (s : Machine γ) (tr : List Event) (s' : Machine γ) :
    Prop where
  trace : s'.trace = s.trace ++ tr
  only : ∀ f i, s'.mem f i ≠ s.mem f i →
    (∃ e, ((f, i), e) ∈ slots tr) ∨ (NewTable tr f ∧ s'.mem f i = 0)
  avail : ∀ x, Avail s'.pages x → Avail s.pages x ∧ ¬ Taken tr x
  taken : ∀ x, Taken tr x → Avail s.pages x
  apart : (gots tr).Pairwise Apart
  new : ∀ f, NewTable tr f → (PTE_SIZE, f) ∈ gots tr
  slot : ∀ w ∈ slots tr, (R w.1.1 w.1.2 ∨ NewTable tr w.1.1) ∧ s'.mem w.1.1 w.1.2 = w.2
  once : ((slots tr).map Prod.fst).Nodup
  paired : List.Forall₂ Installs (gots tr) (slots tr)

variable {Avail} {R R₁ R₂ : Nat → Nat → Prop} {s s₁ s₂ : Machine γ} {tr t₁ t₂ : List Event}

/-- A new table is on memory that was taken. -/
theorem Change.new_taken (h : Change Avail R s tr s₁) {f : Nat} (hf : NewTable tr f) : Taken tr f :=
  ⟨_, h.new f hf, Nat.le_refl _, Nat.lt_add_of_pos_right (show 0 < PTE_SIZE by decide)⟩

/-- Which was available. -/
theorem Change.new_avail (h : Change Avail R s tr s₁) {f : Nat} (hf : NewTable tr f) :
    Avail s.pages f := h.taken f (h.new_taken hf)

/-- An entry outside of `R`, in a frame that was not available, is as before. -/
theorem Change.frame (h : Change Avail R s tr s₁) {f i : Nat} (hR : ¬ R f i)
    (hf : ¬ Avail s.pages f) : s₁.mem f i = s.mem f i := by
  by_contra hne
  obtain ⟨e, he⟩ | ⟨hnew, _⟩ := h.only f i hne
  · obtain hin | hnew := (h.slot _ he).1
    · exact hR hin
    · exact hf (h.new_avail hnew)
  · exact hf (h.new_avail hnew)

/-- A change is one of a larger region. -/
theorem Change.mono (h : Change Avail R₁ s tr s₁) (hsub : ∀ f i, R₁ f i → R₂ f i) :
    Change Avail R₂ s tr s₁ where
  trace := h.trace
  only := h.only
  avail := h.avail
  taken := h.taken
  apart := h.apart
  new := h.new
  slot w hw := ⟨(h.slot w hw).1.imp_left (hsub _ _), (h.slot w hw).2⟩
  once := h.once
  paired := h.paired

/-- One part of the call after another, with entries of its own. -/
theorem Change.comp (h₁ : Change Avail R₁ s t₁ s₁) (h₂ : Change Avail R₂ s₁ t₂ s₂)
    (hR₁ : ∀ f i, R₁ f i → R f i) (hR₂ : ∀ f i, R₂ f i → R f i ∨ NewTable t₁ f)
    (hused : ∀ f i, R₁ f i → ¬ Avail s.pages f) (hown : ∀ w ∈ slots t₁, ¬ R₂ w.1.1 w.1.2) :
    Change Avail R s (t₁ ++ t₂) s₂ := by
  -- the tables of the first part are out of reach for `page_getter` in the second
  have hslot : ∀ w ∈ slots t₁, ¬ Avail s₁.pages w.1.1 := by
    intro w hw hav
    obtain hin | hnew := (h₁.slot w hw).1
    · exact hused _ _ hin (h₁.avail _ hav).1
    · exact (h₁.avail _ hav).2 (h₁.new_taken hnew)
  have hkeep : ∀ w ∈ slots t₁, ∀ w' ∈ slots t₂, w.1 ≠ w'.1 := by
    intro w hw w' hw' heq
    obtain hin | hnew := (h₂.slot w' hw').1
    · exact hown w hw (heq ▸ hin)
    · exact hslot w hw (heq ▸ h₂.new_avail hnew)
  refine ⟨?_, ?_, ?_, ?_, ?_, ?_, ?_, ?_, ?_⟩
  · rw [h₂.trace, h₁.trace, List.append_assoc]
  · intro f i hne
    simp only [slots_append, List.mem_append, newTable_append]
    by_cases h2 : s₂.mem f i = s₁.mem f i
    · rw [h2] at hne ⊢
      obtain ⟨e, he⟩ | ⟨hnew, h0⟩ := h₁.only f i hne
      · exact .inl ⟨e, .inl he⟩
      · exact .inr ⟨.inl hnew, h0⟩
    · obtain ⟨e, he⟩ | ⟨hnew, h0⟩ := h₂.only f i h2
      · exact .inl ⟨e, .inr he⟩
      · exact .inr ⟨.inr hnew, h0⟩
  · intro x hx
    obtain ⟨hx1, hn2⟩ := h₂.avail x hx
    obtain ⟨hx0, hn1⟩ := h₁.avail x hx1
    refine ⟨hx0, ?_⟩
    rw [taken_append]
    exact fun h => h.elim hn1 hn2
  · intro x hx
    obtain hx | hx := taken_append.mp hx
    · exact h₁.taken x hx
    · exact (h₁.avail x (h₂.taken x hx)).1
  · rw [gots_append, List.pairwise_append]
    refine ⟨h₁.apart, h₂.apart, ?_⟩
    intro g hg g' hg' x hx1 hx2 hx'
    exact (h₁.avail x (h₂.taken x ⟨g', hg', hx'⟩)).2 ⟨g, hg, hx1, hx2⟩
  · intro f hf
    rw [gots_append, List.mem_append]
    exact (newTable_append.mp hf).imp (h₁.new f) (h₂.new f)
  · intro w hw
    simp only [newTable_append]
    rw [slots_append, List.mem_append] at hw
    obtain hw | hw := hw
    · refine ⟨(h₁.slot w hw).1.imp (hR₁ _ _) .inl, ?_⟩
      rw [h₂.frame (hown w hw) (hslot w hw), (h₁.slot w hw).2]
    · refine ⟨?_, (h₂.slot w hw).2⟩
      obtain hin | hnew := (h₂.slot w hw).1
      · exact (hR₂ _ _ hin).imp_right .inl
      · exact .inr (.inr hnew)
  · rw [slots_append, List.map_append, List.nodup_append]
    refine ⟨h₁.once, h₂.once, ?_⟩
    intro a ha b hb
    obtain ⟨w, hw, rfl⟩ := List.mem_map.mp ha
    obtain ⟨w', hw', rfl⟩ := List.mem_map.mp hb
    exact hkeep w hw w' hw'
  · rw [gots_append, slots_append]
    exact List.rel_append h₁.paired h₂.paired

end Change

/-! ## Regions of a table -/

section Region

/-- The entries of `table` with an index in `I`, and the tables below them. -/
def Region (mem : Frames) (lvl table : Nat) (I : Nat → Prop) (f i : Nat) : Prop :=
  (f = table ∧ I i) ∨ ∃ k, k < 512 ∧ I k ∧ IsBranch (lvl + 1) (mem table k) ∧
    Uses mem lvl (mem table k).getPaddr f

/-- The region is in tables that are used. -/
theorem Region.uses {mem : Frames} {lvl table f i : Nat} {I : Nat → Prop}
    (h : Region mem lvl table I f i) : Uses mem (lvl + 1) table f := by
  obtain ⟨rfl, _⟩ | ⟨k, hk, _, hb, hu⟩ := h
  · exact uses_self mem lvl f
  · exact Uses.below hk hb hu

/-- More entries make a larger region. -/
theorem Region.mono {mem : Frames} {lvl table f i : Nat} {I J : Nat → Prop}
    (h : Region mem lvl table I f i) (hIJ : ∀ k, I k → J k) : Region mem lvl table J f i := by
  obtain ⟨hf, hi⟩ | ⟨k, hk, hI, hb, hu⟩ := h
  · exact .inl ⟨hf, hIJ i hi⟩
  · exact .inr ⟨k, hk, hIJ k hI, hb, hu⟩

/-- A region is the same after a change elsewhere. -/
theorem Region.congr {mem mem' : Frames} {lvl table f i : Nat} {I : Nat → Prop}
    (hkept : ∀ k, k < 512 → I k → Kept mem mem' lvl table k)
    (h : Region mem' lvl table I f i) : Region mem lvl table I f i := by
  obtain ⟨hf, hi⟩ | ⟨k, hk, hI, hb, hu⟩ := h
  · exact .inl ⟨hf, hi⟩
  · obtain ⟨heq, hagree⟩ := hkept k hk hI
    rw [heq] at hb hu
    exact .inr ⟨k, hk, hI, hb, (uses_congr lvl (hagree hb) f).mp hu⟩

variable {γ : Type} {Avail : γ → Nat → Prop} {s s' : Machine γ} {tr : List Event}
  {lvl table : Nat} {I : Nat → Prop}

/-- In a tree, a change in a region keeps all other entries with what is below them. -/
theorem Change.kept (h : Change Avail (Region s.mem lvl table I) s tr s')
    (htree : Tree s.mem (lvl + 1) table)
    (hused : ∀ f, Uses s.mem (lvl + 1) table f → ¬ Avail s.pages f) {j : Nat} (hj : j < 512)
    (hI : ¬ I j) : Kept s.mem s'.mem lvl table j := by
  constructor
  · apply h.frame
    · rintro (⟨_, hin⟩ | ⟨k, hk, _, hb, hu⟩)
      · exact hI hin
      · exact (htree k hk hb).2.1 hu
    · exact hused table (uses_self _ _ _)
  · intro hb f hf i
    apply h.frame
    · rintro (⟨rfl, _⟩ | ⟨k, hk, hIk, hbk, hu⟩)
      · exact (htree j hj hb).2.1 hf
      · have hkj : k ≠ j := fun he => hI (he ▸ hIk)
        exact (htree j hj hb).2.2 k hk hkj hbk f hf hu
    · exact hused f (Uses.below hj hb hf)

end Region

/-! ## Translations -/

section Effect

/-- `a` has a leaf of level `l` with the flags `leaves`, on a page that the call obtained and
did not make a table of. -/
def Placed (leaves : PTE) (l : Nat) (tr : List Event) (mem : Frames) (lvl table : Nat) (a : Int) :
    Prop :=
  ∃ leaf p, walk mem lvl table a = some leaf ∧ leaf.lvl = l ∧
    leafEntry leaves l p = .ok leaf.pte ∧ leaf.frame = p ∧ (pageSize l, p) ∈ gots tr ∧
    ¬ NewTable tr p

variable {γ : Type} (Avail : γ → Nat → Prop) (leaves : PTE)

/-- The effect on the tree of `table`: `H` are the addresses that are hit, in the region of
the address `r`, and `l a` is the level of the leaf of `a`. -/
structure Effect (R : Nat → Nat → Prop) (H : Int → Prop) (l : Int → Nat) (lvl table : Nat) (r : Int)
    (s : Machine γ) (tr : List Event) (s' : Machine γ) : Prop where
  change : Change Avail R s tr s'
  tree : Tree s'.mem lvl table
  uses : ∀ f, Uses s'.mem lvl table f → Uses s.mem lvl table f ∨ NewTable tr f
  live : ∀ w ∈ slots tr, Uses s'.mem lvl table w.1.1
  hit : ∀ a, SameTable lvl r a → H a → Placed leaves (l a) tr s'.mem lvl table a
  miss : ∀ a, SameTable lvl r a → ¬ H a → walk s'.mem lvl table a = walk s.mem lvl table a
  inj : ∀ a a', SameTable lvl r a → SameTable lvl r a' → H a → H a' →
    translate s'.mem lvl table a = translate s'.mem lvl table a' → a = a'
  followed : ∀ k e, .followed k e ∈ tr → IsBranch k e

variable {Avail leaves}

/-- The physical address of a page that was placed is in the page obtained for it. -/
theorem Placed.page {l lvl table : Nat} {tr : List Event} {mem : Frames} {a : Int}
    (h : Placed leaves l tr mem lvl table a) :
    ∃ x, Amd64.translate mem lvl table a = some x ∧
      ∃ g ∈ gots tr, g.2 ≤ x ∧ x < g.2 + g.1 ∧ ¬ NewTable tr g.2 := by
  obtain ⟨leaf, p, hw, hl, _, hframe, hgot, hnew⟩ := h
  subst hl
  unfold Amd64.translate
  rw [hw, Option.map_some, hframe]
  have h0 := Int.emod_nonneg a (cast_pageSize_pos leaf.lvl).ne'
  have h1 := Int.emod_lt_of_pos a (cast_pageSize_pos leaf.lvl)
  exact ⟨_, rfl, (pageSize leaf.lvl, p), hgot, Nat.le_add_right _ _, by omega, hnew⟩

/-- A page that was placed is translated to memory that was taken. -/
theorem Placed.translate {l lvl table : Nat} {tr : List Event} {mem : Frames} {a : Int}
    (h : Placed leaves l tr mem lvl table a) :
    ∃ x, Amd64.translate mem lvl table a = some x ∧ Taken tr x := by
  obtain ⟨x, hx, g, hg, h1, h2, _⟩ := h.page
  exact ⟨x, hx, g, hg, h1, h2⟩

/-- A translation depends on the walk. -/
theorem translate_congr {lvl table : Nat} {mem mem' : Frames} {a : Int}
    (h : walk mem' lvl table a = walk mem lvl table a) :
    Amd64.translate mem' lvl table a = Amd64.translate mem lvl table a := by
  unfold Amd64.translate
  rw [h]

/-- A page that was obtained is taken. -/
theorem mem_gots_taken {tr : List Event} {l p : Nat} (h : (pageSize l, p) ∈ gots tr) : Taken tr p :=
  ⟨_, h, Nat.le_refl _, Nat.lt_add_of_pos_right (pageSize_pos l)⟩

variable {R R₁ R₂ : Nat → Nat → Prop} {H H₁ H₂ : Int → Prop} {l : Int → Nat} {lvl table : Nat}
  {r : Int} {s s₁ s₂ : Machine γ} {t₁ t₂ : List Event}

/-- One part of the call after another, for pages of its own. -/
theorem Effect.comp (h₁ : Effect Avail leaves R₁ H₁ l lvl table r s t₁ s₁)
    (h₂ : Effect Avail leaves R₂ H₂ l lvl table r s₁ t₂ s₂)
    (hchange : Change Avail R s (t₁ ++ t₂) s₂) (hH : ∀ a, SameTable lvl r a → (H a ↔ H₁ a ∨ H₂ a))
    (hdisj : ∀ a, H₁ a → ¬ H₂ a) (hlive : ∀ w ∈ slots t₁, Uses s₂.mem lvl table w.1.1) :
    Effect Avail leaves R H l lvl table r s (t₁ ++ t₂) s₂ := by
  -- the second part leaves the pages of the first alone
  have hwalk : ∀ a, SameTable lvl r a → H₁ a → walk s₂.mem lvl table a = walk s₁.mem lvl table a :=
    fun a hs h => h₂.miss a hs (hdisj a h)
  have hcross : ∀ a a', SameTable lvl r a → SameTable lvl r a' → H₁ a → H₂ a' →
      translate s₂.mem lvl table a ≠ translate s₂.mem lvl table a' := by
    intro a a' hs hs' h h' heq
    obtain ⟨x, hx, ht⟩ := (h₁.hit a hs h).translate
    obtain ⟨y, hy, ht'⟩ := (h₂.hit a' hs' h').translate
    rw [translate_congr (hwalk a hs h), hx, hy] at heq
    cases heq
    exact (h₁.change.avail x (h₂.change.taken x ht')).2 ht
  refine ⟨hchange, h₂.tree, ?_, ?_, ?_, ?_, ?_, ?_⟩
  · intro f hf
    rw [newTable_append]
    obtain hf | hf := h₂.uses f hf
    · exact (h₁.uses f hf).imp_right .inl
    · exact .inr (.inr hf)
  · intro w hw
    rw [slots_append, List.mem_append] at hw
    exact hw.elim (hlive w) (h₂.live w)
  · intro a hs ha
    obtain ha | ha := (hH a hs).mp ha
    · obtain ⟨leaf, p, hw, hl, he, hframe, hgot, hnew⟩ := h₁.hit a hs ha
      refine ⟨leaf, p, (hwalk a hs ha).trans hw, hl, he, hframe, ?_, ?_⟩
      · rw [gots_append]
        exact List.mem_append_left _ hgot
      · rw [newTable_append]
        intro h
        obtain h | h := h
        · exact hnew h
        · exact (h₁.change.avail p (h₂.change.new_avail h)).2 (mem_gots_taken hgot)
    · obtain ⟨leaf, p, hw, hl, he, hframe, hgot, hnew⟩ := h₂.hit a hs ha
      refine ⟨leaf, p, hw, hl, he, hframe, ?_, ?_⟩
      · rw [gots_append]
        exact List.mem_append_right _ hgot
      · rw [newTable_append]
        intro h
        obtain h | h := h
        · exact (h₁.change.avail p (h₂.change.taken p (mem_gots_taken hgot))).2
            (h₁.change.new_taken h)
        · exact hnew h
  · intro a hs ha
    rw [hH a hs] at ha
    rw [h₂.miss a hs (fun h => ha (.inr h)), h₁.miss a hs (fun h => ha (.inl h))]
  · intro a a' hs hs' ha ha' heq
    obtain ha | ha := (hH a hs).mp ha <;> obtain ha' | ha' := (hH a' hs').mp ha'
    · rw [translate_congr (hwalk a hs ha), translate_congr (hwalk a' hs' ha')] at heq
      exact h₁.inj a a' hs hs' ha ha' heq
    · exact absurd heq (hcross a a' hs hs' ha ha')
    · exact absurd heq.symm (hcross a' a hs' hs ha' ha)
    · exact h₂.inj a a' hs hs' ha ha' heq
  · intro k e he
    exact (List.mem_append.mp he).elim (h₁.followed k e) (h₂.followed k e)

end Effect

end Tauos.Mapper
