import Mathlib.Data.List.Chain
import Tauos.Rust.Mem

/-!
# `LlistNode`: circular lists in memory

`kernel/src/utils/llist.rs`. A node is two pointers in memory, `next` and then
`prev` (the data of the nodes here is `()`). `Ring m s l` says that the circular
list through the sentinel `s` holds the nodes `l`, in this order.

A ring sees only the sixteen bytes of its own nodes (`Ring.frame`); `new` behind
the sentinel puts a node at the front of the list (`Ring.insert`), and `remove`
takes one out wherever it is (`Ring.erase`). Both need the nodes of this one
ring to be apart, and change no byte outside the nodes they link.
-/

namespace Tauos.Utils.Llist

open Tauos.Rust

/-- `(*node).next.get()`. -/
def next (m : Mem) (node : Int) : Int := readPtr m node

/-- `(*node).prev.get()`. -/
def prev (m : Mem) (node : Int) : Int := readPtr m (node + 8)

/-- `(*node).next.set(p)`. -/
def setNext (m : Mem) (node p : Int) : Mem := writePtr m node p

/-- `(*node).prev.set(p)`. -/
def setPrev (m : Mem) (node p : Int) : Mem := writePtr m (node + 8) p

/-- `LlistNode::new_llist`. -/
def newLlist (m : Mem) (node : Int) : Mem := setNext (setPrev m node node) node node

/-- `LlistNode::new`. -/
def new (m : Mem) (node prevNode nextNode : Int) : Mem :=
  let m := setNext (setPrev m node prevNode) node nextNode
  let m := setPrev m nextNode node
  setNext m prevNode node

/-- `LlistNode::remove`. -/
def remove (m : Mem) (node : Int) : Mem :=
  let prevNode := prev m node
  let nextNode := next m node
  let m := setNext m prevNode nextNode
  let m := setPrev m nextNode prevNode
  let m := setPrev m node 0xdef
  setNext m node 0xdef

/-! ## Single fields -/

/-- The bytes of a node. -/
def Cell (node x : Int) : Prop := node ≤ x ∧ x < node + 16

/-- Two nodes that share no byte. -/
def Apart (n n' : Int) : Prop := n + 16 ≤ n' ∨ n' + 16 ≤ n

/-- Being apart is symmetric. -/
theorem Apart.symm {n n' : Int} (h : Apart n n') : Apart n' n := Or.symm h

/-- Nodes that are apart differ. -/
theorem Apart.ne {n n' : Int} (h : Apart n n') : n ≠ n' := by
  rintro rfl
  unfold Apart at h
  omega

/-- No byte is of two nodes that are apart. -/
theorem Apart.not_cell {n n' x : Int} (h : Apart n n') (hx : Cell n x) : ¬ Cell n' x := by
  unfold Apart at h
  unfold Cell at *
  omega

section Fields

variable {m : Mem} {n n' p : Int}

theorem inIsize_next (m : Mem) (n : Int) : InIsize (next m n) := inIsize_readPtr m n

theorem inIsize_prev (m : Mem) (n : Int) : InIsize (prev m n) := inIsize_readPtr m (n + 8)

/-- The pointer that was written. -/
theorem next_setNext (h : InIsize p) : next (setNext m n p) n = p := readPtr_writePtr h

/-- The pointer back that was written. -/
theorem prev_setPrev (h : InIsize p) : prev (setPrev m n p) n = p := readPtr_writePtr h

/-- The pointers of a node apart stay. -/
theorem next_setNext_apart (h : Apart n' n) : next (setNext m n p) n' = next m n' :=
  readPtr_writePtr_apart (by unfold Apart at h; omega)

/-- So do those back. -/
theorem prev_setPrev_apart (h : Apart n' n) : prev (setPrev m n p) n' = prev m n' :=
  readPtr_writePtr_apart (by unfold Apart at h; omega)

/-! The two fields of a node are apart, so for the other field the node may be the same. -/

/-- The two pointers of a node do not overlap. -/
theorem next_setPrev (h : n' = n ∨ Apart n' n) : next (setPrev m n p) n' = next m n' :=
  readPtr_writePtr_apart (by unfold Apart at h; omega)

theorem prev_setNext (h : n' = n ∨ Apart n' n) : prev (setNext m n p) n' = prev m n' :=
  readPtr_writePtr_apart (by unfold Apart at h; omega)

/-- Nothing is written outside of the node. -/
theorem setNext_of_not_cell {x : Int} (h : ¬ Cell n x) : setNext m n p x = m x :=
  writePtr_of_not_mem (by unfold Cell at h; omega)

/-- Nor by the other pointer. -/
theorem setPrev_of_not_cell {x : Int} (h : ¬ Cell n x) : setPrev m n p x = m x :=
  writePtr_of_not_mem (by unfold Cell at h; omega)

/-- The pointer depends on the bytes of the node alone. -/
theorem next_congr {m' : Mem} (h : ∀ x, Cell n x → m' x = m x) : next m' n = next m n :=
  readPtr_congr fun x h1 h2 => h x ⟨by omega, by omega⟩

/-- So does the one back. -/
theorem prev_congr {m' : Mem} (h : ∀ x, Cell n x → m' x = m x) : prev m' n = prev m n :=
  readPtr_congr fun x h1 h2 => h x ⟨by omega, by omega⟩

end Fields

/-- `new` writes to the new node and its two neighbours. -/
theorem new_of_not_cell {m : Mem} {node p n x : Int} (h : ¬ Cell node x) (hp : ¬ Cell p x)
    (hn : ¬ Cell n x) : new m node p n x = m x := by
  unfold new
  rw [setNext_of_not_cell hp, setPrev_of_not_cell hn, setNext_of_not_cell h, setPrev_of_not_cell h]

/-- `remove` writes to the node and its two neighbours. -/
theorem remove_of_not_cell {m : Mem} {node x : Int} (h : ¬ Cell node x)
    (hp : ¬ Cell (prev m node) x) (hn : ¬ Cell (next m node) x) : remove m node x = m x := by
  unfold remove
  rw [setNext_of_not_cell h, setPrev_of_not_cell h, setPrev_of_not_cell hn, setNext_of_not_cell hp]

/-- A new list writes its sentinel alone. -/
theorem newLlist_of_not_cell {m : Mem} {node x : Int} (h : ¬ Cell node x) :
    newLlist m node x = m x := by
  unfold newLlist
  rw [setNext_of_not_cell h, setPrev_of_not_cell h]

section Pointers

variable {m : Mem} {node p n y : Int}

/-- The new node leads to its neighbour. -/
theorem next_new_node (hin : InIsize n) (hp : Apart node p) (hn : Apart node n) :
    next (new m node p n) node = n := by
  unfold new
  rw [next_setNext_apart hp, next_setPrev (Or.inr hn), next_setNext hin]

/-- And back to the other one. -/
theorem prev_new_node (hip : InIsize p) (hp : Apart node p) (hn : Apart node n) :
    prev (new m node p n) node = p := by
  unfold new
  rw [prev_setNext (Or.inr hp), prev_setPrev_apart hn, prev_setNext (Or.inl rfl), prev_setPrev hip]

/-- The neighbour in front leads to the new node. -/
theorem next_new_prev (hi : InIsize node) : next (new m node p n) p = node := by
  unfold new
  exact next_setNext hi

/-- The neighbour behind leads back to it. -/
theorem prev_new_next (hi : InIsize node) (hpn : n = p ∨ Apart n p) :
    prev (new m node p n) n = node := by
  unfold new
  rw [prev_setNext hpn, prev_setPrev hi]

/-- Other nodes lead where they did. -/
theorem next_new (h : Apart y node) (hp : Apart y p) (hn : y = n ∨ Apart y n) :
    next (new m node p n) y = next m y := by
  unfold new
  rw [next_setNext_apart hp, next_setPrev hn, next_setNext_apart h, next_setPrev (Or.inr h)]

/-- And back. -/
theorem prev_new (h : Apart y node) (hp : y = p ∨ Apart y p) (hn : Apart y n) :
    prev (new m node p n) y = prev m y := by
  unfold new
  rw [prev_setNext hp, prev_setPrev_apart hn, prev_setNext (Or.inr h), prev_setPrev_apart h]

/-- The node in front leads past the one removed. -/
theorem next_remove_prev (h : Apart (prev m node) node)
    (hpn : prev m node = next m node ∨ Apart (prev m node) (next m node)) :
    next (remove m node) (prev m node) = next m node := by
  unfold remove
  rw [next_setNext_apart h, next_setPrev (Or.inr h), next_setPrev hpn,
    next_setNext (inIsize_next m node)]

/-- The node behind leads back past it. -/
theorem prev_remove_next (h : Apart (next m node) node) :
    prev (remove m node) (next m node) = prev m node := by
  unfold remove
  rw [prev_setNext (Or.inr h), prev_setPrev_apart h, prev_setPrev (inIsize_prev m node)]

/-- Other nodes lead where they did. -/
theorem next_remove (h : Apart y node) (hp : Apart y (prev m node))
    (hn : y = next m node ∨ Apart y (next m node)) : next (remove m node) y = next m y := by
  unfold remove
  rw [next_setNext_apart h, next_setPrev (Or.inr h), next_setPrev hn, next_setNext_apart hp]

/-- And back. -/
theorem prev_remove (h : Apart y node) (hp : y = prev m node ∨ Apart y (prev m node))
    (hn : Apart y (next m node)) : prev (remove m node) y = prev m y := by
  unfold remove
  rw [prev_setNext (Or.inr h), prev_setPrev_apart h, prev_setPrev_apart hn, prev_setNext hp]

end Pointers

/-! ## Rings -/

/-- `y` follows `x`. -/
def Linked (m : Mem) (x y : Int) : Prop := next m x = y ∧ prev m y = x

/-- The circular list through `s` holds the nodes `l`. -/
def Ring (m : Mem) (s : Int) (l : List Int) : Prop := (s :: l ++ [s]).IsChain (Linked m)

/-- A chain reads `next` of all nodes but the last, and `prev` of all but the first. -/
theorem isChain_frame {m m' : Mem} {l : List Int} (h : l.IsChain (Linked m))
    (hnext : ∀ x ∈ l.dropLast, next m' x = next m x) (hprev : ∀ x ∈ l.tail, prev m' x = prev m x) :
    l.IsChain (Linked m') := by
  rw [List.isChain_iff_forall_rel_of_append_cons_cons] at h ⊢
  intro x y l₁ l₂ hl
  obtain ⟨h1, h2⟩ := h hl
  have hx : x ∈ l.dropLast := by
    rw [hl, List.dropLast_append_of_ne_nil (by simp)]
    simp
  have hy : y ∈ l.tail := by
    rw [hl]
    cases l₁ <;> simp
  exact ⟨(hnext x hx).trans h1, (hprev y hy).trans h2⟩

section Ring

variable {m m' : Mem} {s x : Int} {l : List Int}

/-- A sentinel alone leads to itself. -/
theorem ring_nil : Ring m s [] ↔ next m s = s ∧ prev m s = s := List.isChain_pair

/-- A new list has no nodes. -/
theorem ring_newLlist (hs : InIsize s) : Ring (newLlist m s) s [] := by
  rw [ring_nil]
  unfold newLlist
  exact ⟨next_setNext hs, by rw [prev_setNext (Or.inl rfl), prev_setPrev hs]⟩

/-- A ring depends on the bytes of its nodes alone. -/
theorem Ring.frame (h : Ring m s l) (hsame : ∀ n ∈ s :: l, ∀ x, Cell n x → m' x = m x) :
    Ring m' s l := by
  have hall : ∀ n, n ∈ s :: l ++ [s] → ∀ x, Cell n x → m' x = m x := by
    intro n hn
    apply hsame
    simpa [or_comm] using hn
  exact isChain_frame h (fun n hn => next_congr (hall n (List.dropLast_subset _ hn)))
    (fun n hn => prev_congr (hall n (List.mem_of_mem_tail hn)))

/-- The first node. -/
theorem Ring.next_sentinel (h : Ring m s l) : next m s = (l ++ [s]).head (by simp) := by
  cases l with
  | nil => exact (ring_nil.mp h).1
  | cons n l => exact (List.isChain_cons_cons.mp h).1.1

/-- The neighbours of a node of the list. -/
theorem Ring.neighbours {l₁ l₂ : List Int} (h : Ring m s (l₁ ++ x :: l₂)) :
    ∃ A p n B, s :: l₁ = A ++ [p] ∧ l₂ ++ [s] = n :: B ∧ prev m x = p ∧ next m x = n ∧
      (A ++ [p]).IsChain (Linked m) ∧ (n :: B).IsChain (Linked m) := by
  obtain ⟨A, p, hA⟩ : ∃ A p, s :: l₁ = A ++ [p] :=
    ⟨(s :: l₁).dropLast, (s :: l₁).getLast (by simp), (List.dropLast_append_getLast (by simp)).symm⟩
  obtain ⟨n, B, hB⟩ : ∃ n B, l₂ ++ [s] = n :: B := List.exists_cons_of_ne_nil (by simp)
  have hsplit : s :: (l₁ ++ x :: l₂) ++ [s] = A ++ p :: x :: n :: B := by
    rw [List.cons_append, List.append_assoc, List.cons_append, hB, ← List.cons_append, hA]
    simp
  unfold Ring at h
  rw [hsplit, List.isChain_append_cons_cons, List.isChain_cons_cons] at h
  obtain ⟨hl, h1, h2, hr⟩ := h
  exact ⟨A, p, n, B, hA, hB, h1.2, h2.1, hl, hr⟩

/-- The nodes of a ring are apart, the sentinel included. -/
def Spread (s : Int) (l : List Int) : Prop := (s :: l).Pairwise Apart

/-- Nodes that are spread differ. -/
theorem Spread.nodup (h : Spread s l) : (s :: l).Nodup := h.imp Apart.ne

/-- Two nodes of a list are the same or apart. -/
theorem Spread.eq_or_apart (h : Spread s l) {y z : Int} (hy : y ∈ s :: l) (hz : z ∈ s :: l) :
    y = z ∨ Apart y z := by
  by_cases hc : y = z
  · exact Or.inl hc
  · have : Std.Symm Apart := ⟨fun _ _ => Apart.symm⟩
    exact Or.inr (h.forall hy hz hc)

/-- `new` behind the sentinel puts the node at the front. -/
theorem Ring.insert {node : Int} (h : Ring m s l) (hsp : Spread s l)
    (hn : ∀ n ∈ s :: l, Apart node n) (hin : InIsize node) :
    Ring (new m node s (next m s)) s (node :: l) := by
  have hns := hn s List.mem_cons_self
  have hy := inIsize_next m s
  cases l with
  | nil =>
    have hs := (ring_nil.mp h).1
    rw [hs] at hy ⊢
    show ([s, node, s]).IsChain _
    rw [List.isChain_cons_cons, List.isChain_pair]
    exact ⟨⟨next_new_prev hin, prev_new_node hy hns hns⟩, next_new_node hy hns hns,
      prev_new_next hin (Or.inl rfl)⟩
  | cons b l =>
    obtain ⟨⟨hsb, hbs⟩, hrest⟩ := List.isChain_cons_cons.mp h
    have hs : InIsize s := by rw [← hbs]; exact inIsize_prev m b
    have hnb := hn b (by simp)
    obtain ⟨hapS, hapL⟩ := List.pairwise_cons.mp hsp
    obtain ⟨hapB, _⟩ := List.pairwise_cons.mp hapL
    have hsb' := hapS b List.mem_cons_self
    rw [hsb] at hy ⊢
    show (s :: node :: b :: (l ++ [s])).IsChain _
    rw [List.isChain_cons_cons, List.isChain_cons_cons]
    refine ⟨⟨next_new_prev hin, prev_new_node hs hns hnb⟩,
      ⟨next_new_node hy hns hnb, prev_new_next hin (Or.inr hsb'.symm)⟩, ?_⟩
    -- of the old chain, `new` changed only `prev` of its first node and `next` of its last
    refine isChain_frame hrest (fun x hx => ?_) (fun x hx => ?_)
    · have hx' : x ∈ b :: l := by
        have hlast : ((b :: l) ++ [s]).dropLast = b :: l := List.dropLast_concat
        rw [← hlast]
        exact hx
      exact next_new (hn x (List.mem_cons_of_mem s hx')).symm (hapS x hx').symm
        (hsp.eq_or_apart (List.mem_cons_of_mem s hx') (by simp))
    · have hx' : x ∈ l ∨ x = s := by simpa using hx
      rcases hx' with hxl | rfl
      · exact prev_new (hn x (by simp [hxl])).symm (Or.inr (hapS x (by simp [hxl])).symm)
          (hapB x hxl).symm
      · exact prev_new hns.symm (Or.inl rfl) hsb'

/-- `remove` takes the node out. -/
theorem Ring.erase (h : Ring m s l) (hsp : Spread s l) (hx : x ∈ l) :
    Ring (remove m x) s (l.erase x) := by
  obtain ⟨l₁, l₂, _, rfl, her⟩ := List.exists_erase_eq hx
  obtain ⟨A, p, n, B, hA, hB, hp, hn, hl, hr⟩ := h.neighbours
  have hgoal : s :: (l₁ ++ x :: l₂).erase x ++ [s] = A ++ p :: n :: B := by
    rw [her, List.cons_append, List.append_assoc, hB, ← List.cons_append, hA]
    simp
  -- the nodes are apart as soon as they differ
  have hapart : ∀ {y z}, y ∈ s :: (l₁ ++ x :: l₂) → z ∈ s :: (l₁ ++ x :: l₂) → y ≠ z → Apart y z :=
    fun hy hz hne => (hsp.eq_or_apart hy hz).resolve_left hne
  have hnd := hsp.nodup
  have hleft : ∀ {y}, y ∈ A ++ [p] → y ∈ s :: (l₁ ++ x :: l₂) ∧ y ≠ x ∧ y ∉ l₂ := by
    intro y hy
    rw [← hA] at hy
    simp at hy hnd ⊢
    grind
  have hright : ∀ {y}, y ∈ n :: B → y ∈ s :: (l₁ ++ x :: l₂) ∧ y ≠ x ∧ y ∉ l₁ := by
    intro y hy
    rw [← hB] at hy
    simp at hy hnd ⊢
    grind
  have hndl : p ∉ A := by
    have : (A ++ [p]).Nodup := by
      rw [← hA]
      simp at hnd ⊢
      grind
    intro hc
    simp [List.nodup_append] at this
    exact this.2 p hc rfl
  have hndr : n ∉ B := by
    have : (n :: B).Nodup := by
      rw [← hB]
      simp [List.nodup_append] at hnd ⊢
      grind
    exact (List.nodup_cons.mp this).1
  obtain ⟨hpm, hpx, hp2⟩ := hleft (y := p) (by simp)
  obtain ⟨hnm, hnx, hn1⟩ := hright (y := n) List.mem_cons_self
  have hxm : x ∈ s :: (l₁ ++ x :: l₂) := by simp
  subst hp hn
  unfold Ring
  rw [hgoal, List.isChain_append_cons_cons]
  refine ⟨isChain_frame hl (fun y hy => ?_) (fun y hy => ?_),
    ⟨next_remove_prev (hapart hpm hxm hpx) (hsp.eq_or_apart hpm hnm),
      prev_remove_next (hapart hnm hxm hnx)⟩,
    isChain_frame hr (fun y hy => ?_) (fun y hy => ?_)⟩
  · rw [List.dropLast_concat] at hy
    obtain ⟨hym, hyx, _⟩ := hleft (y := y) (by simp [hy])
    have hyp : y ≠ prev m x := fun hc => hndl (hc ▸ hy)
    exact next_remove (hapart hym hxm hyx) (hapart hym hpm hyp) (hsp.eq_or_apart hym hnm)
  · obtain ⟨hym, hyx, _⟩ := hleft (List.mem_of_mem_tail hy)
    rw [← hA] at hy
    have hyn : y ≠ next m x := fun hc => hn1 (hc ▸ hy)
    exact prev_remove (hapart hym hxm hyx) (hsp.eq_or_apart hym hpm) (hapart hym hnm hyn)
  · obtain ⟨hym, hyx, _⟩ := hright (List.dropLast_subset _ hy)
    rw [← hB, List.dropLast_concat] at hy
    have hyp : y ≠ prev m x := fun hc => hp2 (hc ▸ hy)
    exact next_remove (hapart hym hxm hyx) (hapart hym hpm hyp) (hsp.eq_or_apart hym hnm)
  · obtain ⟨hym, hyx, _⟩ := hright (List.mem_cons_of_mem _ hy)
    have hyn : y ≠ next m x := fun hc => hndr (hc ▸ hy)
    exact prev_remove (hapart hym hxm hyx) (hsp.eq_or_apart hym hpm) (hapart hym hnm hyn)

/-! ## Telling a single node -/

/-- The last node is in front of the sentinel. -/
theorem Ring.prev_sentinel {z : Int} (h : Ring m s (l ++ [z])) : prev m s = z := by
  have hsplit : s :: (l ++ [z]) ++ [s] = (s :: l) ++ z :: s :: [] := by simp
  unfold Ring at h
  rw [hsplit, List.isChain_append_cons_cons] at h
  exact h.2.1.2

/-- At the sentinel the two pointers agree if there is at most one node. -/
theorem Ring.sentinel_sole (h : Ring m s l) (hsp : Spread s l) :
    prev m s = next m s ↔ l.length ≤ 1 := by
  rcases l.eq_nil_or_concat with rfl | ⟨l, z, rfl⟩
  · obtain ⟨h1, h2⟩ := ring_nil.mp h
    simp [h1, h2]
  rw [List.concat_eq_append] at *
  rw [h.prev_sentinel, h.next_sentinel]
  have hnd := hsp.nodup
  cases l with
  | nil => simp
  | cons a l =>
    simp at hnd ⊢
    grind

/-- At a node they agree if it is the only one. -/
theorem Ring.node_sole (h : Ring m s l) (hsp : Spread s l) (hx : x ∈ l) :
    prev m x = next m x ↔ l.length ≤ 1 := by
  obtain ⟨l₁, l₂, rfl⟩ := List.append_of_mem hx
  obtain ⟨A, p, n, B, hA, hB, hp, hn, _, _⟩ := h.neighbours
  have hnd := hsp.nodup
  rw [hp, hn]
  have hpm : p ∈ s :: l₁ := by rw [hA]; simp
  have hnm : n ∈ l₂ ++ [s] := by rw [hB]; exact List.mem_cons_self
  constructor
  · -- a node that is in both halves is the sentinel, so there are no others
    intro hpn
    subst hpn
    have hs : p = s := by
      simp at hpm hnm hnd
      grind
    subst hs
    have h1 : l₁ = [] := by
      cases A with
      | nil => simpa using hA
      | cons a A =>
        obtain ⟨_, rfl⟩ := List.cons.inj hA
        simp at hnd
    have h2 : l₂ = [] := by
      cases l₂ with
      | nil => rfl
      | cons b l₂ =>
        obtain ⟨rfl, _⟩ := List.cons.inj hB
        simp at hnd
    simp [h1, h2]
  · intro hlen
    have h1 : l₁ = [] := List.eq_nil_of_length_eq_zero (by simp at hlen; omega)
    have h2 : l₂ = [] := List.eq_nil_of_length_eq_zero (by simp at hlen; omega)
    subst h1 h2
    simp at hpm hnm
    rw [hpm, hnm]

end Ring

end Tauos.Utils.Llist
