import Mathlib.Data.List.Cycle
import Mathlib.Data.List.Chain

/-!
# Circular doubly linked lists

Nodes of any type, linked by two functions `next` and `prev`. A ring is a cycle of nodes on
which the two are mutually inverse (`IsRing`), and `Rings m C` says that the cycles of `C` are
rings and share no node. A list of nodes stands for the cycle that begins with its head, so
the two nodes between which a cycle is cut are the last one and the head.

Links change in two ways. `unlink` takes a chain out of its ring and `splice` puts a chain
between two neighbours:

> `Rings.unlink`: what is left of the ring, and the chain, which is in no ring any more.
> `Rings.splice`: the ring with the chain behind its last node.

Both write the outer links of the chain and of the place it is taken from or put to. A path
keeps its inner links whatever happens to the `next` of its last node and the `prev` of its
head (`Path.congr`), and that is all that is needed.
-/

namespace Tauos.Circular

variable {α : Type*}

/-- The links of all nodes. -/
@[ext]
structure Links (α : Type*) where
  next : α → α
  prev : α → α

namespace Links

variable [DecidableEq α]

/-- The pointer of one node is written. -/
def setNext (m : Links α) (x y : α) : Links α :=
  { m with next := fun z => if z = x then y else m.next z }

/-- So is the one back. -/
def setPrev (m : Links α) (x y : α) : Links α :=
  { m with prev := fun z => if z = x then y else m.prev z }

@[simp] theorem next_setPrev (m : Links α) (x y : α) : (m.setPrev x y).next = m.next := rfl

@[simp] theorem prev_setNext (m : Links α) (x y : α) : (m.setNext x y).prev = m.prev := rfl

@[simp] theorem next_setNext (m : Links α) (x y : α) : (m.setNext x y).next x = y := if_pos rfl

@[simp] theorem prev_setPrev (m : Links α) (x y : α) : (m.setPrev x y).prev x = y := if_pos rfl

theorem next_setNext_ne {z x : α} (h : z ≠ x) (m : Links α) (y : α) :
    (m.setNext x y).next z = m.next z := if_neg h

theorem prev_setPrev_ne {z x : α} (h : z ≠ x) (m : Links α) (y : α) :
    (m.setPrev x y).prev z = m.prev z := if_neg h

/-- The neighbours of a chain are linked with each other. -/
def unlink (m : Links α) (first last : α) : Links α :=
  (m.setNext (m.prev first) (m.next last)).setPrev (m.next last) (m.prev first)

/-- The chain is linked with two nodes. -/
def splice (m : Links α) (first last p n : α) : Links α :=
  (((m.setPrev first p).setNext last n).setNext p first).setPrev n last

/-- The neighbours of `x` are linked with `y`, and `y` gets the links of `x`, which may be its
own neighbour. -/
def move (m : Links α) (x y : α) : Links α :=
  let m' := (m.setNext (m.prev x) y).setPrev (m.next x) y
  (m'.setNext y (m'.next x)).setPrev y (m'.prev x)

end Links

/-! ## Rings and paths -/

/-- `y` comes after `x`, and `x` before `y`. -/
def Linked (m : Links α) (x y : α) : Prop := m.next x = y ∧ m.prev y = x

/-- The links inside of a list of nodes. -/
def Path (m : Links α) (l : List α) : Prop := l.IsChain (Linked m)

/-- A well-formed circular list. -/
structure IsRing (m : Links α) (c : Cycle α) : Prop where
  nonempty : c ≠ Cycle.nil
  nodup : c.Nodup
  chain : c.Chain (Linked m)

/-- Rings that share no node. -/
structure Rings (m : Links α) (C : Set (Cycle α)) : Prop where
  ring : ∀ {c}, c ∈ C → IsRing m c
  apart : ∀ {c c' x}, c ∈ C → c' ∈ C → x ∈ c → x ∈ c' → c = c'

section Paths

variable {m m' : Links α} {l l' : List α} {x y z : α}

/-- A path depends on the pointers between its nodes alone. -/
theorem Path.congr (h : Path m l) (hnext : ∀ x ∈ l.dropLast, m'.next x = m.next x)
    (hprev : ∀ x ∈ l.tail, m'.prev x = m.prev x) : Path m' l := by
  induction l with
  | nil => exact List.IsChain.nil
  | cons a l ih =>
    cases l with
    | nil => exact List.IsChain.singleton a
    | cons b l =>
      obtain ⟨⟨h1, h2⟩, htail⟩ := List.isChain_cons_cons.mp h
      refine List.isChain_cons_cons.mpr ⟨⟨?_, ?_⟩, ih htail (fun x hx => ?_) fun x hx => ?_⟩
      · rw [hnext a (List.mem_cons_self ..), h1]
      · rw [hprev b (List.mem_cons_self ..), h2]
      · exact hnext x (List.mem_cons_of_mem _ hx)
      · exact hprev x (List.mem_cons_of_mem _ hx)

/-- A path in two parts, linked in the middle. -/
theorem path_append_iff : Path m (l ++ l') ↔ Path m l ∧ Path m l' ∧
    ∀ z ∈ l.getLast?, ∀ x ∈ l'.head?, Linked m z x := List.isChain_append

/-- A path behind its first node. -/
theorem path_cons_iff : Path m (x :: l) ↔ (∀ y ∈ l.head?, Linked m x y) ∧ Path m l :=
  List.isChain_cons

/-- The last node is not before itself. -/
theorem not_mem_dropLast (h : l.Nodup) (hz : l.getLast? = some z) : z ∉ l.dropLast := by
  rw [← List.dropLast_append_getLast? z hz] at h
  intro hmem
  exact (List.nodup_append.mp h).2.2 z hmem z (List.mem_singleton_self z) rfl

/-- The first node is not behind itself. -/
theorem not_mem_tail (h : l.Nodup) (hx : l.head? = some x) : x ∉ l.tail := by
  cases l with
  | nil => cases hx
  | cons a l =>
    cases hx
    exact (List.nodup_cons.mp h).1

/-- A ring is a path that ends where it begins. -/
theorem isRing_iff (hx : l.head? = some x) (hz : l.getLast? = some z) :
    IsRing m (l : Cycle α) ↔ l.Nodup ∧ Path m l ∧ Linked m z x := by
  cases l with
  | nil => cases hx
  | cons a l =>
    cases hx
    have hchain : ((x :: l : List α) : Cycle α).Chain (Linked m) ↔
        Path m (x :: l) ∧ Linked m z x := by
      rw [Cycle.chain_coe_cons, ← List.cons_append, List.isChain_append, hz]
      simp [Path]
    rw [← hchain, ← Cycle.nodup_coe_iff]
    exact ⟨fun h => ⟨h.nodup, h.chain⟩, fun h => ⟨by simp, h.1, h.2⟩⟩

/-- A node alone is linked to itself. -/
theorem isRing_singleton : IsRing m (([x] : List α) : Cycle α) ↔ Linked m x x := by
  rw [isRing_iff (z := x) rfl rfl]
  exact ⟨fun h => h.2.2, fun h => ⟨List.nodup_singleton x, List.IsChain.singleton x, h⟩⟩

/-- A ring has a node. -/
theorem IsRing.ne_nil (h : IsRing m (l : Cycle α)) : l ≠ [] := by
  rintro rfl
  exact h.nonempty rfl

/-- Every ring has a head and a last node. -/
theorem IsRing.ends (h : IsRing m (l : Cycle α)) : ∃ x z, l.head? = some x ∧ l.getLast? = some z :=
  ⟨l.head h.ne_nil, l.getLast h.ne_nil, List.head?_eq_some_head _, List.getLast?_eq_some_getLast _⟩

/-- Any run of a ring is a path. -/
theorem IsRing.path {l₁ l₂ l₃ : List α} (h : IsRing m ((l₁ ++ l₂ ++ l₃ : List α) : Cycle α)) :
    Path m l₂ := by
  obtain ⟨x, z, hx, hz⟩ := h.ends
  have hpath := ((isRing_iff hx hz).mp h).2.1
  exact (path_append_iff.mp (path_append_iff.mp hpath).1).2.1

/-- A cycle can be cut in front of any of its nodes. -/
theorem coe_rotate (l l' : List α) :
    ((l ++ l' : List α) : Cycle α) = ((l' ++ l : List α) : Cycle α) :=
  Cycle.coe_eq_coe.mpr List.isRotated_append

/-- A ring can be read from any of its nodes. -/
theorem exists_cons {c : Cycle α} (hx : x ∈ c) : ∃ t :
    List α, c = ((x :: t : List α) : Cycle α) := by
  induction c using Quotient.inductionOn' with
  | h l =>
    obtain ⟨l₁, l₂, rfl⟩ := List.append_of_mem (show x ∈ l from hx)
    exact ⟨l₂ ++ l₁, coe_rotate l₁ (x :: l₂)⟩

/-- The pointers of a node of a ring. -/
theorem IsRing.at_head {t : List α} (h : IsRing m ((x :: t : List α) : Cycle α)) :
    m.next x = t.head?.getD x ∧ m.prev x = t.getLast?.getD x := by
  cases ht : t.getLast? with
  | none =>
    rw [List.getLast?_eq_none_iff] at ht
    subst ht
    exact isRing_singleton.mp h
  | some z =>
    have hne : t ≠ [] := by
      rintro rfl
      cases ht
    have hz : (x :: t).getLast? = some z := by
      rw [List.getLast?_cons, ht]
      rfl
    have hn := List.head?_eq_some_head hne
    obtain ⟨_, hpath, hclose⟩ := (isRing_iff rfl hz).mp h
    rw [hn]
    exact ⟨((path_cons_iff.mp hpath).1 _ hn).1, hclose.2⟩

/-- The cycle tells the links. -/
theorem IsRing.links_eq {c : Cycle α} (h : IsRing m c) (h' : IsRing m' c) (hx : x ∈ c) :
    m'.next x = m.next x ∧ m'.prev x = m.prev x := by
  obtain ⟨t, rfl⟩ := exists_cons hx
  rw [h.at_head.1, h.at_head.2]
  exact h'.at_head

/-- The links of a ring are those of its own nodes. -/
theorem IsRing.congr {c : Cycle α} (h : IsRing m c)
    (hsame : ∀ x ∈ c, m'.next x = m.next x ∧ m'.prev x = m.prev x) : IsRing m' c := by
  induction c using Quotient.inductionOn' with
  | h l =>
    have hring : IsRing m (l : Cycle α) := h
    obtain ⟨x, z, hx, hz⟩ := hring.ends
    obtain ⟨hnodup, hpath, hlink⟩ := (isRing_iff hx hz).mp hring
    refine (isRing_iff hx hz).mpr ⟨hnodup, hpath.congr (fun y hy => ?_) fun y hy => ?_, ?_, ?_⟩
    · exact (hsame y (List.mem_of_mem_dropLast hy)).1
    · exact (hsame y (List.mem_of_mem_tail hy)).2
    · rw [(hsame z (List.mem_of_getLast? hz)).1]
      exact hlink.1
    · rw [(hsame x (List.mem_of_head? hx)).2]
      exact hlink.2

end Paths

/-! ## Sets of rings -/

section Sets

variable {m m' : Links α} {C : Set (Cycle α)} {l chain rest : List α} {first last p n x y : α}

/-- One ring is a family of rings. -/
theorem IsRing.rings {c : Cycle α} (h : IsRing m c) : Rings m {c} := by
  refine ⟨fun hc => ?_, fun hc hc' _ _ => hc.trans hc'.symm⟩
  rw [Set.mem_singleton_iff.mp hc]
  exact h

/-- Rings do not see other nodes. -/
theorem Rings.congr (h : Rings m C)
    (hsame : ∀ c ∈ C, ∀ x ∈ c, m'.next x = m.next x ∧ m'.prev x = m.prev x) : Rings m' C :=
  ⟨fun {c} hc => (h.ring hc).congr (hsame c hc), h.apart⟩

/-- The links of a node that is in no ring can be anything. -/
theorem Rings.write_apart [DecidableEq α] (h : Rings m C) (hx : ∀ c ∈ C, x ∉ c) (y n : α) :
    Rings ((m.setPrev x y).setNext x n) C := by
  refine h.congr fun c hc a ha => ?_
  have hne : a ≠ x := fun he => hx c hc (he ▸ ha)
  rw [Links.next_setNext_ne hne, Links.next_setPrev, Links.prev_setNext, Links.prev_setPrev_ne hne]
  exact ⟨rfl, rfl⟩

/-- The rings that stay when the nodes of one change. -/
theorem Rings.erase (h : Rings m C) (hl : (l : Cycle α) ∈ C)
    (hsame : ∀ x, x ∉ l → m'.next x = m.next x ∧ m'.prev x = m.prev x) :
    Rings m' (C \ {(l : Cycle α)}) := by
  refine ⟨fun {c} hc => (h.ring hc.1).congr fun x hx => hsame x fun hxl => ?_,
    fun hc hc' => h.apart hc.1 hc'.1⟩
  exact hc.2 (h.apart hc.1 hl hx hxl)

/-- One more ring, of nodes that are in no other. -/
theorem Rings.insert (h : Rings m C) (hring : IsRing m (l : Cycle α))
    (hnew : ∀ x ∈ l, ∀ c ∈ C, x ∉ c) : Rings m (C ∪ {(l : Cycle α)}) := by
  refine ⟨fun {c} hc => ?_, fun {c c' x} hc hc' hx hx' => ?_⟩
  · rcases hc with hc | rfl
    · exact h.ring hc
    · exact hring
  · rcases hc with hc | rfl
    · rcases hc' with hc' | rfl
      · exact h.apart hc hc' hx hx'
      · exact absurd hx (hnew x hx' c hc)
    · rcases hc' with hc' | rfl
      · exact absurd hx' (hnew x hx c' hc')
      · rfl

/-- A node of a ring is in no other. -/
theorem Rings.not_mem (h : Rings m C) (hl : (l : Cycle α) ∈ C) (hx : x ∈ l) {c : Cycle α}
    (hc : c ∈ C \ {(l : Cycle α)}) : x ∉ c :=
  fun hxc => hc.2 (h.apart hc.1 hl hxc hx)

/-- A ring with `y` in the place of `x`. -/
theorem Rings.substitute (h : Rings m C) (hc : ((x :: rest : List α) : Cycle α) ∈ C)
    (hring : IsRing m' ((y :: rest : List α) : Cycle α))
    (hother : ∀ a, a ∉ x :: rest → a ≠ y → m'.next a = m.next a ∧ m'.prev a = m.prev a)
    (hy : ∀ c ∈ C, y ∉ c) :
    Rings m' (C \ {((x :: rest : List α) : Cycle α)} ∪ {((y :: rest : List α) : Cycle α)}) := by
  have hstay : Rings m' (C \ {((x :: rest : List α) : Cycle α)}) := by
    refine ⟨fun {c} hc' => (h.ring hc'.1).congr fun a ha => ?_, fun hc hc' => h.apart hc.1 hc'.1⟩
    exact hother a (fun hmem => h.not_mem hc hmem hc' ha) fun he => hy c hc'.1 (he ▸ ha)
  refine hstay.insert hring fun a ha c hc' => ?_
  rcases List.mem_cons.mp ha with rfl | ha
  · exact hy c hc'.1
  · exact h.not_mem hc (List.mem_cons_of_mem _ ha) hc'

/-- The ring of the nodes that are left, if any. -/
def remains (rest : List α) : Set (Cycle α) := {c | c = rest ∧ c ≠ Cycle.nil}

/-- Nothing remains of a ring without nodes. -/
theorem remains_nil : remains ([] : List α) = ∅ := by
  ext c
  simp only [remains, Set.mem_ofPred_eq, Set.mem_empty_iff_false, iff_false]
  intro h
  exact h.2 h.1

/-- A ring with nodes remains. -/
theorem remains_of_ne_nil (h : rest ≠ []) : remains rest = {(rest : Cycle α)} := by
  ext c
  simp only [remains, Set.mem_ofPred_eq, Set.mem_singleton_iff]
  refine ⟨fun hc => hc.1, fun hc => ⟨hc, ?_⟩⟩
  rw [hc, ne_eq, Cycle.coe_eq_nil]
  exact h

/-- When a chain is taken out of its ring, none of its nodes is in a ring any more. -/
theorem Rings.unlink_apart (h : Rings m C) (hc : ((chain ++ rest : List α) : Cycle α) ∈ C)
    (hx : x ∈ chain) {c : Cycle α}
    (hcr : c ∈ C \ {((chain ++ rest : List α) : Cycle α)} ∪ remains rest) : x ∉ c := by
  rcases hcr with hcr | ⟨rfl, _⟩
  · exact h.not_mem hc (List.mem_append_left _ hx) hcr
  · have hnodup := Cycle.nodup_coe_iff.mp (h.ring hc).nodup
    exact fun hxr => (List.nodup_append.mp hnodup).2.2 x hx x hxr rfl

variable [DecidableEq α]

/-- A chain that is the whole ring stays as it is. -/
theorem Rings.unlink_whole (h : Rings m C) (hc : (chain : Cycle α) ∈ C)
    (hfirst : chain.head? = some first) (hlast : chain.getLast? = some last) :
    Rings (m.unlink first last) (C \ {(chain : Cycle α)}) ∧ Path (m.unlink first last) chain := by
  obtain ⟨_, hpath, hlink⟩ := (isRing_iff hfirst hlast).mp (h.ring hc)
  have hsame : ∀ x, (m.unlink first last).next x = m.next x ∧
      (m.unlink first last).prev x = m.prev x := by
    intro x
    unfold Links.unlink
    rw [hlink.1, hlink.2]
    constructor
    · by_cases hx : x = last
      · rw [hx, Links.next_setPrev, Links.next_setNext, hlink.1]
      · rw [Links.next_setPrev, Links.next_setNext_ne hx]
    · by_cases hx : x = first
      · rw [hx, Links.prev_setPrev, hlink.2]
      · rw [Links.prev_setPrev_ne hx, Links.prev_setNext]
  exact ⟨h.erase hc fun x _ => hsame x, hpath.congr (fun x _ => (hsame x).1) fun x _ => (hsame x).2⟩

/-- A chain is taken out of its ring. -/
theorem Rings.unlink (h : Rings m C) (hc : ((chain ++ rest : List α) : Cycle α) ∈ C)
    (hfirst : chain.head? = some first) (hlast : chain.getLast? = some last) :
    Rings (m.unlink first last) (C \ {((chain ++ rest : List α) : Cycle α)} ∪ remains rest) ∧
      Path (m.unlink first last) chain := by
  have hring := h.ring hc
  have hhead : (chain ++ rest).head? = some first := by
    rw [List.head?_append, hfirst]
    rfl
  -- nothing is left if the chain is the whole ring
  cases hrest : rest.getLast? with
  | none =>
    rw [List.getLast?_eq_none_iff] at hrest
    subst hrest
    rw [List.append_nil] at hc ⊢
    rw [remains_nil, Set.union_empty]
    exact h.unlink_whole hc hfirst hlast
  | some z =>
    have hne : rest ≠ [] := by
      rintro rfl
      cases hrest
    have hn := List.head?_eq_some_head hne
    have hz : (chain ++ rest).getLast? = some z := by
      rw [List.getLast?_append, hrest]
      rfl
    obtain ⟨hnodup, hpath, hclose⟩ := (isRing_iff hhead hz).mp hring
    obtain ⟨hchain, hpath', hlink⟩ := path_append_iff.mp hpath
    obtain ⟨_, hnodup', hdisj⟩ := List.nodup_append.mp hnodup
    have hmid := hlink last hlast (rest.head hne) hn
    have hzr := List.mem_of_getLast? hrest
    have hnr := List.head_mem hne
    -- the two ends of the rest are linked
    have heq : m.unlink first last = (m.setNext z (rest.head hne)).setPrev (rest.head hne) z := by
      unfold Links.unlink
      rw [hclose.2, hmid.1]
    have hnext : ∀ x, x ≠ z → (m.unlink first last).next x = m.next x := by
      intro x hx
      rw [heq, Links.next_setPrev, Links.next_setNext_ne hx]
    have hprev : ∀ x, x ≠ rest.head hne → (m.unlink first last).prev x = m.prev x := by
      intro x hx
      rw [heq, Links.prev_setPrev_ne hx, Links.prev_setNext]
    have hringRest : IsRing (m.unlink first last) (rest : Cycle α) := by
      refine (isRing_iff hn hrest).mpr ⟨hnodup', hpath'.congr (fun x hx => hnext x ?_)
        (fun x hx => hprev x ?_), ?_, ?_⟩
      · exact ne_of_mem_of_not_mem hx (not_mem_dropLast hnodup' hrest)
      · exact ne_of_mem_of_not_mem hx (not_mem_tail hnodup' hn)
      · rw [heq, Links.next_setPrev, Links.next_setNext]
      · rw [heq, Links.prev_setPrev]
    have herase : Rings (m.unlink first last) (C \ {((chain ++ rest : List α) : Cycle α)}) := by
      refine h.erase hc fun x hx => ?_
      rw [List.mem_append, not_or] at hx
      exact ⟨hnext x fun he => hx.2 (he ▸ hzr), hprev x fun he => hx.2 (he ▸ hnr)⟩
    refine ⟨?_, hchain.congr (fun x hx => hnext x ?_) fun x hx => hprev x ?_⟩
    · rw [remains_of_ne_nil hne]
      exact herase.insert hringRest fun x hx c => h.not_mem hc (List.mem_append_right _ hx)
    · exact hdisj x (List.mem_of_mem_dropLast hx) z hzr
    · exact hdisj x (List.mem_of_mem_tail hx) _ hnr

/-- A splice changes two pointers. -/
theorem Links.next_splice_ne {p : α} (hx : x ≠ last) (hxp : x ≠ p) (n : α) :
    (m.splice first last p n).next x = m.next x := by
  show ((m.setNext last n).setNext p first).next x = m.next x
  rw [Links.next_setNext_ne hxp, Links.next_setNext_ne hx]

/-- And two back. -/
theorem Links.prev_splice_ne {n : α} (hx : x ≠ first) (hxn : x ≠ n) (p : α) :
    (m.splice first last p n).prev x = m.prev x := by
  show ((m.setPrev first p).setPrev n last).prev x = m.prev x
  rw [Links.prev_setPrev_ne hxn, Links.prev_setPrev_ne hx]

/-- A chain is put behind the last node of a ring. -/
theorem Rings.splice (h : Rings m C) (hl : (l : Cycle α) ∈ C) (hn : l.head? = some n)
    (hp : l.getLast? = some p) (hfirst : chain.head? = some first)
    (hlast : chain.getLast? = some last) (hnodup : chain.Nodup) (hpath : Path m chain)
    (hapart : ∀ x ∈ chain, ∀ c ∈ C, x ∉ c) :
    Rings (m.splice first last p n)
    (C \ {(l : Cycle α)} ∪ {((l ++ chain : List α) : Cycle α)}) := by
  obtain ⟨hnodup', hpath', _⟩ := (isRing_iff hn hp).mp (h.ring hl)
  have hdisj : ∀ x ∈ chain, x ∉ l := fun x hx => hapart x hx _ hl
  have hpl := List.mem_of_getLast? hp
  have hnl := List.mem_of_head? hn
  have hfc := List.mem_of_head? hfirst
  have hlc := List.mem_of_getLast? hlast
  have hlp : last ≠ p := fun he => hdisj last hlc (he ▸ hpl)
  have hfn : first ≠ n := fun he => hdisj first hfc (he ▸ hnl)
  have hnext : ∀ x, x ≠ last → x ≠ p → (m.splice first last p n).next x = m.next x :=
    fun x hx hxp => Links.next_splice_ne hx hxp n
  have hprev : ∀ x, x ≠ first → x ≠ n → (m.splice first last p n).prev x = m.prev x :=
    fun x hx hxn => Links.prev_splice_ne hx hxn p
  have hnextp : (m.splice first last p n).next p = first := Links.next_setNext ..
  have hprevn : (m.splice first last p n).prev n = last := Links.prev_setPrev ..
  have hnextl : (m.splice first last p n).next last = n := by
    show ((m.setNext last n).setNext p first).next last = n
    rw [Links.next_setNext_ne hlp, Links.next_setNext]
  have hprevf : (m.splice first last p n).prev first = p := by
    show ((m.setPrev first p).setPrev n last).prev first = p
    rw [Links.prev_setPrev_ne hfn, Links.prev_setPrev]
  -- the ring goes on through the chain
  have hring : IsRing (m.splice first last p n) ((l ++ chain : List α) : Cycle α) := by
    have hhead : (l ++ chain).head? = some n := by
      rw [List.head?_append, hn]
      rfl
    have hend : (l ++ chain).getLast? = some last := by
      rw [List.getLast?_append, hlast]
      rfl
    refine (isRing_iff hhead hend).mpr ⟨?_, ?_, hnextl, hprevn⟩
    · exact List.nodup_append.mpr ⟨hnodup', hnodup, fun x hx y hy he => hdisj y hy (he ▸ hx)⟩
    · refine path_append_iff.mpr ⟨hpath'.congr (fun x hx => ?_) fun x hx => ?_,
        hpath.congr (fun x hx => ?_) fun x hx => ?_, fun x hx y hy => ?_⟩
      · have hxl := List.mem_of_mem_dropLast hx
        exact hnext x (fun he => hdisj last hlc (he ▸ hxl))
          (ne_of_mem_of_not_mem hx (not_mem_dropLast hnodup' hp))
      · have hxl := List.mem_of_mem_tail hx
        exact hprev x (fun he => hdisj first hfc (he ▸ hxl))
          (ne_of_mem_of_not_mem hx (not_mem_tail hnodup' hn))
      · have hxc := List.mem_of_mem_dropLast hx
        exact hnext x (ne_of_mem_of_not_mem hx (not_mem_dropLast hnodup hlast))
          fun he => hdisj x hxc (he ▸ hpl)
      · have hxc := List.mem_of_mem_tail hx
        exact hprev x (ne_of_mem_of_not_mem hx (not_mem_tail hnodup hfirst))
          fun he => hdisj x hxc (he ▸ hnl)
      · rw [hp] at hx
        rw [hfirst] at hy
        cases hx
        cases hy
        exact ⟨hnextp, hprevf⟩
  -- the other rings have none of the four nodes
  have hstay : Rings (m.splice first last p n) (C \ {(l : Cycle α)}) := by
    refine ⟨fun {c} hc => (h.ring hc.1).congr fun x hx => ?_, fun hc hc' => h.apart hc.1 hc'.1⟩
    have hxl : x ∉ l := fun hxl => h.not_mem hl hxl hc hx
    have hxc : x ∉ chain := fun hxc => hapart x hxc c hc.1 hx
    exact ⟨hnext x (fun he => hxc (he ▸ hlc)) fun he => hxl (he ▸ hpl),
      hprev x (fun he => hxc (he ▸ hfc)) fun he => hxl (he ▸ hnl)⟩
  refine hstay.insert hring fun x hx c hc => ?_
  rcases List.mem_append.mp hx with hx | hx
  · exact h.not_mem hl hx hc
  · exact hapart x hx c hc.1

/-- A splice of a node at itself links it to itself. -/
theorem Links.splice_self_eq (m : Links α) (x : α) :
    m.splice x x x x = (m.setNext x x).setPrev x x := by
  ext y
  · show (if y = x then x else if y = x then x else m.next y) = if y = x then x else m.next y
    split <;> rfl
  · show (if y = x then x else if y = x then x else m.prev y) = if y = x then x else m.prev y
    split <;> rfl

/-- A node outside of all rings becomes a ring of its own. -/
theorem Rings.splice_self (h : Rings m C) (hx : ∀ c ∈ C, x ∉ c) :
    Rings (m.splice x x x x) (C ∪ {(([x] : List α) : Cycle α)}) := by
  have hother : ∀ y, y ≠ x → (m.splice x x x x).next y = m.next y ∧
      (m.splice x x x x).prev y = m.prev y := by
    intro y hy
    exact ⟨Links.next_splice_ne hy hy x, Links.prev_splice_ne hy hy x⟩
  have hring : IsRing (m.splice x x x x) (([x] : List α) : Cycle α) :=
    isRing_singleton.mpr ⟨Links.next_setNext .., Links.prev_setPrev ..⟩
  refine (h.congr fun c hc y hy => hother y fun he => hx c hc (he ▸ hy)).insert hring
    fun y hy c hc => ?_
  rw [List.mem_singleton.mp hy]
  exact hx c hc

/-- A node outside of all rings takes the place of one that is alone. -/
theorem Rings.move_alone (h : Rings m C) (hc : (([x] : List α) : Cycle α) ∈ C)
    (hy : ∀ c ∈ C, y ∉ c) :
    Rings (m.move x y) (C \ {(([x] : List α) : Cycle α)} ∪ {(([y] : List α) : Cycle α)}) := by
  have hlink := isRing_singleton.mp (h.ring hc)
  have heq : m.move x y = (((m.setNext x y).setPrev x y).setNext y y).setPrev y y := by
    unfold Links.move
    dsimp only
    rw [hlink.1, hlink.2, Links.next_setPrev, Links.next_setNext, Links.prev_setPrev]
  have hring : IsRing (m.move x y) (([y] : List α) : Cycle α) := by
    refine isRing_singleton.mpr ⟨?_, ?_⟩
    · rw [heq, Links.next_setPrev, Links.next_setNext]
    · rw [heq, Links.prev_setPrev]
  refine h.substitute hc hring (fun a ha hay => ?_) hy
  have hax : a ≠ x := fun he => ha (List.mem_singleton.mpr he)
  rw [heq]
  constructor
  · rw [Links.next_setPrev, Links.next_setNext_ne hay, Links.next_setPrev,
      Links.next_setNext_ne hax]
  · rw [Links.prev_setPrev_ne hay, Links.prev_setNext, Links.prev_setPrev_ne hax,
      Links.prev_setNext]

/-- A node outside of all rings takes the place of another. -/
theorem Rings.move (h : Rings m C) (hc : ((x :: rest : List α) : Cycle α) ∈ C)
    (hy : ∀ c ∈ C, y ∉ c) :
    Rings (m.move x y)
      (C \ {((x :: rest : List α) : Cycle α)} ∪ {((y :: rest : List α) : Cycle α)}) := by
  have hring := h.ring hc
  have hyr : y ∉ x :: rest := hy _ hc
  have hyx : y ≠ x := fun he => hyr (he ▸ List.mem_cons_self ..)
  -- a node that is alone is linked to itself
  cases hrest : rest.getLast? with
  | none =>
    rw [List.getLast?_eq_none_iff] at hrest
    subst hrest
    exact h.move_alone hc hy
  | some z =>
    have hne : rest ≠ [] := by
      rintro rfl
      cases hrest
    have hn := List.head?_eq_some_head hne
    have hz : (x :: rest).getLast? = some z := by
      rw [List.getLast?_cons, hrest]
      rfl
    obtain ⟨hnodup, hpath, hclose⟩ := (isRing_iff rfl hz).mp hring
    obtain ⟨hxr, hnodup'⟩ := List.nodup_cons.mp hnodup
    obtain ⟨hfirst, hpath'⟩ := path_cons_iff.mp hpath
    have hmid := hfirst _ hn
    have hzr := List.mem_of_getLast? hrest
    have hnr := List.head_mem hne
    have hxz : x ≠ z := fun he => hxr (he ▸ hzr)
    have hxn : x ≠ rest.head hne := fun he => hxr (he ▸ hnr)
    have hzy : z ≠ y := fun he => hyr (List.mem_cons_of_mem _ (he ▸ hzr))
    have hny : rest.head hne ≠ y := fun he => hyr (List.mem_cons_of_mem _ (he ▸ hnr))
    -- the four links that change
    have heq : m.move x y = (((m.setNext z y).setPrev (rest.head hne) y).setNext y
        (rest.head hne)).setPrev y z := by
      unfold Links.move
      dsimp only
      rw [hclose.2, hmid.1, Links.next_setPrev, Links.next_setNext_ne hxz, hmid.1,
        Links.prev_setPrev_ne hxn, Links.prev_setNext, hclose.2]
    have hnext : ∀ a, a ≠ z → a ≠ y → (m.move x y).next a = m.next a := by
      intro a haz hay
      rw [heq, Links.next_setPrev, Links.next_setNext_ne hay, Links.next_setPrev,
        Links.next_setNext_ne haz]
    have hprev : ∀ a, a ≠ rest.head hne → a ≠ y → (m.move x y).prev a = m.prev a := by
      intro a han hay
      rw [heq, Links.prev_setPrev_ne hay, Links.prev_setNext, Links.prev_setPrev_ne han,
        Links.prev_setNext]
    have hnot : ∀ a ∈ rest, a ≠ y := fun a ha he => hyr (List.mem_cons_of_mem _ (he ▸ ha))
    -- `y` is where `x` was
    have hring' : IsRing (m.move x y) ((y :: rest : List α) : Cycle α) := by
      have hz' : (y :: rest).getLast? = some z := by
        rw [List.getLast?_cons, hrest]
        rfl
      refine (isRing_iff rfl hz').mpr ⟨List.nodup_cons.mpr ⟨fun hmem => hnot y hmem rfl, hnodup'⟩,
        path_cons_iff.mpr ⟨fun b hb => ?_, hpath'.congr (fun a ha => ?_) fun a ha => ?_⟩, ?_, ?_⟩
      · rw [hn] at hb
        cases hb
        constructor
        · rw [heq, Links.next_setPrev, Links.next_setNext]
        · rw [heq, Links.prev_setPrev_ne hny, Links.prev_setNext, Links.prev_setPrev]
      · exact hnext a (ne_of_mem_of_not_mem ha (not_mem_dropLast hnodup' hrest))
          (hnot a (List.mem_of_mem_dropLast ha))
      · exact hprev a (ne_of_mem_of_not_mem ha (not_mem_tail hnodup' hn))
          (hnot a (List.mem_of_mem_tail ha))
      · rw [heq, Links.next_setPrev, Links.next_setNext_ne hzy, Links.next_setPrev,
          Links.next_setNext]
      · rw [heq, Links.prev_setPrev]
    refine h.substitute hc hring' (fun a ha hay => ?_) hy
    exact ⟨hnext a (fun he => ha (List.mem_cons_of_mem _ (he ▸ hzr))) hay,
      hprev a (fun he => ha (List.mem_cons_of_mem _ (he ▸ hnr))) hay⟩

end Sets

end Tauos.Circular
