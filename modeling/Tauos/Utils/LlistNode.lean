import Tauos.Circular.Links
import Tauos.Utils.Llist

/-!
# `LlistNode<T>`: nodes with data

`kernel/src/utils/llist.rs`, for any type of data. The memory gives the node at each address.
The operations read and write single links, in the order of the source: `relink` and `mov` may
be given a node more than once.

> `llistNode_ops`: on disjoint well-formed lists, `new`, `remove`, `mov` and `relink` insert,
> erase, replace and move what they are given, and touch no other list.

In terms of the links alone, `relink` is `unlink` and then `splice`, `remove` is `unlink`, and
`new` is a `splice` of a chain of one node (`Circular.Links`). The nodes of `Talloc` have no data,
and lie in bytes: `Llist` computes the same on them (`InBytes`).
-/

namespace Tauos.Utils

open Tauos.Circular

/-- A node with its data. -/
@[ext]
structure LlistNode (T : Type) where
  data : T
  next : Int
  prev : Int
  deriving DecidableEq, Repr

namespace LlistNode

variable {T : Type}

/-- The node at each address. -/
abbrev Nodes (T : Type) := Int → LlistNode T

/-- `node.write(v)`. -/
def write (m : Nodes T) (node : Int) (v : LlistNode T) : Nodes T :=
  fun x => if x = node then v else m x

/-- `(*node).next.set(p)`. -/
def setNext (m : Nodes T) (node p : Int) : Nodes T := write m node { m node with next := p }

/-- `(*node).prev.set(p)`. -/
def setPrev (m : Nodes T) (node p : Int) : Nodes T := write m node { m node with prev := p }

/-- `LlistNode::new_llist`. -/
def newLlist (m : Nodes T) (node : Int) (data : T) : Nodes T :=
  write m node { data, prev := node, next := node }

/-- `LlistNode::new`. -/
def new (m : Nodes T) (node prev next : Int) (data : T) : Nodes T :=
  let m := write m node { data, prev, next }
  let m := setPrev m next node
  setNext m prev node

/-- `LlistNode::mov`. -/
def mov (m : Nodes T) (src dst : Int) : Nodes T :=
  -- the neighbours of `src` can be `src` itself, so it is read after they are written
  let srcPrev := (m src).prev
  let srcNext := (m src).next
  let m := setNext m srcPrev dst
  let m := setPrev m srcNext dst
  let m := write m dst (m src)
  let m := setPrev m src 0xabc
  setNext m src 0xabc

/-- `LlistNode::remove`: the data, and the memory. -/
def remove (m : Nodes T) (node : Int) : T × Nodes T :=
  let prev := (m node).prev
  let next := (m node).next
  let m := setNext m prev next
  let m := setPrev m next prev
  let m := setPrev m node 0xdef
  let m := setNext m node 0xdef
  ((m node).data, m)

/-- `LlistNode::relink`. -/
def relink (m : Nodes T) (start last prev next : Int) : Nodes T :=
  -- link up old list
  let startPrev := (m start).prev
  let endNext := (m last).next
  let m := setNext m startPrev endNext
  let m := setPrev m endNext startPrev
  -- link up new list
  let m := setPrev m start prev
  let m := setNext m last next
  let m := setNext m prev start
  setPrev m next last

/-- The links of the nodes. -/
def links (m : Nodes T) : Links Int := ⟨fun x => (m x).next, fun x => (m x).prev⟩

/-! ## Single writes -/

section Writes

variable {m : Nodes T} {node p x : Int} {v : LlistNode T}

/-- The node that was written. -/
theorem write_self : write m node v node = v := if_pos rfl

/-- Another node stays. -/
theorem write_of_ne (h : x ≠ node) : write m node v x = m x := if_neg h

theorem setNext_of_ne (h : x ≠ node) : setNext m node p x = m x := write_of_ne h

theorem setPrev_of_ne (h : x ≠ node) : setPrev m node p x = m x := write_of_ne h

@[simp] theorem data_setNext (m : Nodes T) (node p x : Int) :
    (setNext m node p x).data = (m x).data := by
  by_cases h : x = node
  · rw [h, setNext, write_self]
  · rw [setNext_of_ne h]

@[simp] theorem data_setPrev (m : Nodes T) (node p x : Int) :
    (setPrev m node p x).data = (m x).data := by
  by_cases h : x = node
  · rw [h, setPrev, write_self]
  · rw [setPrev_of_ne h]

theorem next_write (m : Nodes T) (node : Int) (v : LlistNode T) (x : Int) :
    (write m node v x).next = if x = node then v.next else (m x).next := apply_ite LlistNode.next ..

theorem prev_write (m : Nodes T) (node : Int) (v : LlistNode T) (x : Int) :
    (write m node v x).prev = if x = node then v.prev else (m x).prev := apply_ite LlistNode.prev ..

/-- A write changes the links of one node. -/
theorem links_write (m : Nodes T) (node : Int) (v : LlistNode T) :
    links (write m node v) = ((links m).setNext node v.next).setPrev node v.prev :=
  Links.ext (funext fun x => next_write m node v x) (funext fun x => prev_write m node v x)

/-- A link written as it was. -/
theorem ite_self_eq {f : Int → Int} {node x : Int} : (if x = node then f node else f x) = f x := by
  split
  next h => rw [h]
  next => rfl

@[simp] theorem links_setNext (m : Nodes T) (node p : Int) :
    links (setNext m node p) = (links m).setNext node p :=
  Links.ext (funext fun x => next_write m node _ x)
    (funext fun x => (prev_write m node _ x).trans (ite_self_eq (f := fun y => (m y).prev)))

@[simp] theorem links_setPrev (m : Nodes T) (node p : Int) :
    links (setPrev m node p) = (links m).setPrev node p :=
  Links.ext (funext fun x => (next_write m node _ x).trans (ite_self_eq (f := fun y => (m y).next)))
    (funext fun x => prev_write m node _ x)

end Writes

/-! ## Operations on the links -/

section Operations

variable (m : Nodes T) (node prev next start last src dst : Int) (data : T)

/-- A new list is linked to itself. -/
theorem links_newLlist : links (newLlist m node data) = (links m).splice node node node node :=
  (links_write m node _).trans (Links.splice_self_eq ..).symm

/-- `new` puts the node between the two. -/
theorem links_new : links (new m node prev next data) = (links m).splice node node prev next := by
  unfold new
  rw [links_setNext, links_setPrev, links_write]
  rfl

/-- `remove` unlinks the node and poisons its pointers. -/
theorem links_remove : links (remove m node).2 =
    (((links m).unlink node node).setPrev node 0xdef).setNext node 0xdef := by
  unfold remove
  rw [links_setNext, links_setPrev, links_setPrev, links_setNext]
  rfl

/-- `mov` puts the node at another address and poisons the old pointers. -/
theorem links_mov : links (mov m src dst) =
    (((links m).move src dst).setPrev src 0xabc).setNext src 0xabc := by
  have hread : links (setPrev (setNext m (m src).prev dst) (m src).next dst) =
      ((links m).setNext ((links m).prev src) dst).setPrev ((links m).next src) dst := by
    rw [links_setPrev, links_setNext]
    rfl
  unfold mov Links.move
  dsimp only
  rw [links_setNext, links_setPrev, links_write, ← hread]
  rfl

/-- `relink` unlinks a run of nodes and puts it elsewhere. -/
theorem links_relink : links (relink m start last prev next) =
    ((links m).unlink start last).splice start last prev next := by
  unfold relink
  rw [links_setPrev, links_setNext, links_setNext, links_setPrev, links_setPrev, links_setNext]
  rfl

end Operations

/-! ## Operations on lists -/

/-- The disjoint lists of `m` become those of `m'`. No operation changes the data of a node, and
a list that is still there is as it was. -/
structure Becomes (m : Nodes T) (C : Set (Cycle Int)) (m' : Nodes T) (C' : Set (Cycle Int)) :
    Prop where
  rings : Rings (links m') C'
  data : ∀ c ∈ C, ∀ x ∈ c, (m' x).data = (m x).data
  others : ∀ c ∈ C, c ∈ C' → ∀ x ∈ c, m' x = m x

section Lists

variable {m m' : Nodes T} {C C' : Set (Cycle Int)} {l chain rest : List Int}
  {node prev next start last src dst : Int}

/-- The links of a list that stays follow from the list. -/
theorem becomes_of (h : Rings (links m) C) (h' : Rings (links m') C')
    (hdata : ∀ c ∈ C, ∀ x ∈ c, (m' x).data = (m x).data) : Becomes m C m' C' := by
  refine ⟨h', hdata, fun c hc hc' x hx => ?_⟩
  have heq := (h.ring hc).links_eq (h'.ring hc') hx
  exact LlistNode.ext (hdata c hc x hx) heq.1 heq.2

/-- A new list is one more ring. -/
theorem newLlist_becomes (h : Rings (links m) C) (hnode : ∀ c ∈ C, node ∉ c) (data : T) :
    Becomes m C (newLlist m node data) (C ∪ {(([node] : List Int) : Cycle Int)}) := by
  refine becomes_of h ?_ fun c hc x hx => ?_
  · rw [links_newLlist]
    exact h.splice_self hnode
  · have hne : x ≠ node := fun he => hnode c hc (he ▸ hx)
    rw [newLlist, write_of_ne hne]

/-- The data of the new node. -/
theorem data_new (m : Nodes T) (node prev next : Int) (data : T) :
    (new m node prev next data node).data = data := by
  rw [new, data_setNext, data_setPrev, write_self]

/-- The node is put between the last one and the head. -/
theorem new_becomes (h : Rings (links m) C) (hl : (l : Cycle Int) ∈ C) (hnext : l.head? = some next)
    (hprev : l.getLast? = some prev) (hnode : ∀ c ∈ C, node ∉ c) (data : T) :
    Becomes m C (new m node prev next data)
      (C \ {(l : Cycle Int)} ∪ {((l ++ [node] : List Int) : Cycle Int)}) := by
  refine becomes_of h ?_ fun c hc x hx => ?_
  · rw [links_new]
    refine h.splice hl hnext hprev rfl rfl (List.nodup_singleton node)
      (List.IsChain.singleton node) ?_
    intro x hx
    rw [List.mem_singleton.mp hx]
    exact hnode
  · have hne : x ≠ node := fun he => hnode c hc (he ▸ hx)
    rw [new, data_setNext, data_setPrev, write_of_ne hne]

/-- `remove` returns the data. -/
theorem data_remove (m : Nodes T) (node : Int) : (remove m node).1 = (m node).data := by
  rw [remove]
  simp only [data_setNext, data_setPrev]

/-- The ring without the node. -/
theorem remove_becomes (h : Rings (links m) C)
    (hc : ((node :: rest : List Int) : Cycle Int) ∈ C) (hrest : rest ≠ []) :
    Becomes m C (remove m node).2
      (C \ {((node :: rest : List Int) : Cycle Int)} ∪ {(rest : Cycle Int)}) := by
  have hc' : (([node] ++ rest : List Int) : Cycle Int) ∈ C := hc
  refine becomes_of h ?_ fun c _ x _ => ?_
  · rw [links_remove, ← remains_of_ne_nil hrest]
    exact (h.unlink hc' rfl rfl).1.write_apart
      (fun c hcr => h.unlink_apart hc' (List.mem_singleton_self node) hcr) ..
  · rw [remove]
    simp only [data_setNext, data_setPrev]

/-- `mov` takes the data along. -/
theorem data_mov (m : Nodes T) (src dst : Int) : (mov m src dst dst).data = (m src).data := by
  rw [mov]
  simp only [data_setNext, data_setPrev, write_self]

/-- The ring with the new address in place of the old one. -/
theorem mov_becomes (h : Rings (links m) C) (hc : ((src :: rest : List Int) : Cycle Int) ∈ C)
    (hdst : ∀ c ∈ C, dst ∉ c) :
    Becomes m C (mov m src dst)
      (C \ {((src :: rest : List Int) : Cycle Int)}
      ∪ {((dst :: rest : List Int) : Cycle Int)}) := by
  refine becomes_of h ?_ fun c hc x hx => ?_
  · rw [links_mov]
    refine (h.move hc hdst).write_apart (fun c hcr => ?_) ..
    rcases hcr with hcr | rfl
    · exact h.not_mem hc (List.mem_cons_self ..) hcr
    · have hnodup := Cycle.nodup_coe_iff.mp (h.ring hc).nodup
      rw [Cycle.mem_coe_iff, List.mem_cons, not_or]
      exact ⟨fun he => hdst _ hc (he ▸ List.mem_cons_self ..), (List.nodup_cons.mp hnodup).1⟩
  · have hne : x ≠ dst := fun he => hdst c hc (he ▸ hx)
    rw [mov]
    simp only [data_setNext, data_setPrev, write_of_ne hne]

/-- `relink` leaves the data alone. -/
theorem data_relink (m : Nodes T) (start last prev next x : Int) :
    (relink m start last prev next x).data = (m x).data := by
  rw [relink]
  simp only [data_setNext, data_setPrev]

/-- The chain is moved behind the last node of a list, which can be what is left of its own. -/
theorem relink_becomes (h : Rings (links m) C)
    (hc : ((chain ++ rest : List Int) : Cycle Int) ∈ C) (hstart : chain.head? = some start)
    (hlast : chain.getLast? = some last)
    (hl : (l : Cycle Int) ∈ C \ {((chain ++ rest : List Int) : Cycle Int)} ∪ remains rest)
    (hnext : l.head? = some next) (hprev : l.getLast? = some prev) :
    Becomes m C (relink m start last prev next)
      ((C \ {((chain ++ rest : List Int) : Cycle Int)} ∪ remains rest) \ {(l : Cycle Int)} ∪
        {((l ++ chain : List Int) : Cycle Int)}) := by
  refine becomes_of h ?_ fun c _ x _ => data_relink ..
  obtain ⟨hrings, hpath⟩ := h.unlink hc hstart hlast
  have hnodup := Cycle.nodup_coe_iff.mp (h.ring hc).nodup
  rw [links_relink]
  exact hrings.splice hl hnext hprev hstart hlast (List.nodup_append.mp hnodup).1 hpath
    fun x hx c => h.unlink_apart hc hx

/-- The node becomes a list of its own. -/
theorem relink_self_becomes (h : Rings (links m) C)
    (hc : ((node :: rest : List Int) : Cycle Int) ∈ C) :
    Becomes m C (relink m node node node node)
      (C \ {((node :: rest : List Int) : Cycle Int)} ∪ remains rest ∪
        {(([node] : List Int) : Cycle Int)}) := by
  have hc' : (([node] ++ rest : List Int) : Cycle Int) ∈ C := hc
  refine becomes_of h ?_ fun c _ x _ => data_relink ..
  rw [links_relink]
  exact (h.unlink hc' rfl rfl).1.splice_self
    fun c => h.unlink_apart hc' (List.mem_singleton_self node)

/-- The operations are sequence operations. A list stands for the cycle that begins with its head,
so `next` and `prev`, the head and the last node of some `l`, are any two neighbours. -/
theorem llistNode_ops (h : Rings (links m) C) :
    (∀ (node : Int) (data : T), (∀ c ∈ C, node ∉ c) →
      Becomes m C (newLlist m node data) (C ∪ {(([node] : List Int) : Cycle Int)}) ∧
        (newLlist m node data node).data = data) ∧
    (∀ (l : List Int) (node prev next : Int) (data : T), (l : Cycle Int) ∈ C →
      l.head? = some next → l.getLast? = some prev → (∀ c ∈ C, node ∉ c) →
      Becomes m C (new m node prev next data)
        (C \ {(l : Cycle Int)} ∪ {((l ++ [node] : List Int) : Cycle Int)}) ∧
        (new m node prev next data node).data = data) ∧
    (∀ (node : Int) (rest : List Int), ((node :: rest : List Int) : Cycle Int) ∈ C → rest ≠ [] →
      Becomes m C (remove m node).2
        (C \ {((node :: rest : List Int) : Cycle Int)} ∪ {(rest : Cycle Int)}) ∧
        (remove m node).1 = (m node).data) ∧
    (∀ (src dst : Int) (rest : List Int), ((src :: rest : List Int) : Cycle Int) ∈ C →
      (∀ c ∈ C, dst ∉ c) →
      Becomes m C (mov m src dst)
        (C \ {((src :: rest : List Int) : Cycle Int)} ∪ {((dst :: rest : List Int) : Cycle Int)}) ∧
        (mov m src dst dst).data = (m src).data) ∧
    (∀ (chain rest l : List Int) (start last prev next : Int),
      ((chain ++ rest : List Int) : Cycle Int) ∈ C →
      chain.head? = some start → chain.getLast? = some last →
      (l : Cycle Int) ∈ C \ {((chain ++ rest : List Int) : Cycle Int)} ∪ remains rest →
      l.head? = some next → l.getLast? = some prev →
      Becomes m C (relink m start last prev next)
        ((C \ {((chain ++ rest : List Int) : Cycle Int)} ∪ remains rest) \ {(l : Cycle Int)} ∪
          {((l ++ chain : List Int) : Cycle Int)})) ∧
    (∀ (node : Int) (rest : List Int), ((node :: rest : List Int) : Cycle Int) ∈ C →
      Becomes m C (relink m node node node node)
        (C \ {((node :: rest : List Int) : Cycle Int)} ∪ remains rest ∪
          {(([node] : List Int) : Cycle Int)})) := by
  refine ⟨fun node data hnode => ?_, fun l node prev next data hl hnext hprev hnode => ?_,
    fun node rest hc hrest => ?_, fun src dst rest hc hdst => ?_,
    fun chain rest l start last prev next hc hstart hlast hl hnext hprev => ?_,
    fun node rest hc => ?_⟩
  · refine ⟨newLlist_becomes h hnode data, ?_⟩
    rw [newLlist, write_self]
  · exact ⟨new_becomes h hl hnext hprev hnode data, data_new ..⟩
  · exact ⟨remove_becomes h hc hrest, data_remove ..⟩
  · exact ⟨mov_becomes h hc hdst, data_mov ..⟩
  · exact relink_becomes h hc hstart hlast hl hnext hprev
  · exact relink_self_becomes h hc

/-- A list of three nodes, and one alone. -/
def threeAndOne : Nodes Nat := fun x =>
  if x = 1 then ⟨10, 2, 3⟩ else if x = 2 then ⟨20, 3, 1⟩ else if x = 3 then ⟨30, 1, 2⟩
  else ⟨40, 4, 4⟩

/-- It has two rings. -/
theorem threeAndOne_rings : Rings (links threeAndOne)
    (∅ ∪ {(([1, 2, 3] : List Int) : Cycle Int)} ∪ {(([4] : List Int) : Cycle Int)}) := by
  have hempty : Rings (links threeAndOne) ∅ := ⟨fun hc => hc.elim, fun hc => hc.elim⟩
  have hthree : IsRing (links threeAndOne) (([1, 2, 3] : List Int) : Cycle Int) := by
    refine (isRing_iff (x := 1) (z := 3) rfl rfl).mpr ⟨by decide, ?_, rfl, rfl⟩
    exact List.isChain_cons_cons.mpr ⟨⟨rfl, rfl⟩,
      List.isChain_cons_cons.mpr ⟨⟨rfl, rfl⟩, List.IsChain.singleton 3⟩⟩
  refine (hempty.insert hthree fun _ _ _ hc => hc.elim).insert (isRing_singleton.mpr ⟨rfl, rfl⟩) ?_
  intro x hx c hc
  rcases hc with hc | rfl
  · exact hc.elim
  · rw [List.mem_singleton.mp hx]
    decide

/-- The last two of the three, behind the other. -/
theorem llistNode_ops_threeAndOne : Becomes threeAndOne
    (∅ ∪ {(([1, 2, 3] : List Int) : Cycle Int)} ∪ {(([4] : List Int) : Cycle Int)})
    (relink threeAndOne 2 3 4 4)
    (((∅ ∪ {(([1, 2, 3] : List Int) : Cycle Int)} ∪ {(([4] : List Int) : Cycle Int)}) \
      {(([2, 3, 1] : List Int) : Cycle Int)} ∪ remains [1]) \ {(([4] : List Int) : Cycle Int)} ∪
      {(([4, 2, 3] : List Int) : Cycle Int)}) := by
  have hrotate : (([2, 3, 1] : List Int) : Cycle Int) = (([1, 2, 3] : List Int) : Cycle Int) :=
    coe_rotate [2, 3] [1]
  refine (llistNode_ops threeAndOne_rings).2.2.2.2.1 [2, 3] [1] [4] 2 3 4 4 ?_ rfl rfl ?_ rfl rfl
  · exact Or.inl (Or.inr hrotate)
  · refine Or.inl ⟨Or.inr rfl, fun he => ?_⟩
    have hlength := congrArg Cycle.length (Set.mem_singleton_iff.mp he)
    exact absurd hlength (by decide)

end Lists

/-! ## Nodes in bytes -/

section Bytes

open Tauos.Rust

/-- The nodes at the addresses of `S` as they lie in memory. -/
def InBytes (S : Set Int) (b : Mem) (m : Nodes Unit) : Prop :=
  ∀ x ∈ S, Llist.next b x = (m x).next ∧ Llist.prev b x = (m x).prev

variable {S : Set Int} {b : Mem} {m : Nodes Unit} {node prev next p : Int}

/-- Nodes that share no byte. -/
def Separate (S : Set Int) : Prop := ∀ x ∈ S, ∀ y ∈ S, x = y ∨ Llist.Apart x y

/-- A pointer is written in memory. -/
theorem InBytes.setNext (h : InBytes S b m) (hS : Separate S) (hnode : node ∈ S) (hp : InIsize p) :
    InBytes S (Llist.setNext b node p) (setNext m node p) := by
  intro x hx
  rcases hS x hx node hnode with rfl | hapart
  · rw [LlistNode.setNext, write_self, Llist.next_setNext hp, Llist.prev_setNext (Or.inl rfl)]
    exact ⟨rfl, (h x hx).2⟩
  · rw [setNext_of_ne hapart.ne, Llist.next_setNext_apart hapart,
      Llist.prev_setNext (Or.inr hapart)]
    exact h x hx

/-- So is one back. -/
theorem InBytes.setPrev (h : InBytes S b m) (hS : Separate S) (hnode : node ∈ S) (hp : InIsize p) :
    InBytes S (Llist.setPrev b node p) (setPrev m node p) := by
  intro x hx
  rcases hS x hx node hnode with rfl | hapart
  · rw [LlistNode.setPrev, write_self, Llist.prev_setPrev hp, Llist.next_setPrev (Or.inl rfl)]
    exact ⟨(h x hx).1, rfl⟩
  · rw [setPrev_of_ne hapart.ne, Llist.prev_setPrev_apart hapart,
      Llist.next_setPrev (Or.inr hapart)]
    exact h x hx

/-- `node.write(..)` is a store of each of the two links. -/
theorem write_eq (m : Nodes Unit) (node prev next : Int) :
    write m node { data := (), prev, next } =
      LlistNode.setNext (LlistNode.setPrev m node prev) node next := by
  funext x
  by_cases hx : x = node
  · rw [hx, write_self, LlistNode.setNext, write_self, LlistNode.setPrev, write_self]
  · rw [write_of_ne hx, setNext_of_ne hx, setPrev_of_ne hx]

/-- A list is made in memory. -/
theorem InBytes.newLlist (h : InBytes S b m) (hS : Separate S) (hnode : node ∈ S)
    (hin : InIsize node) : InBytes S (Llist.newLlist b node) (newLlist m node ()) := by
  rw [LlistNode.newLlist, write_eq]
  exact (h.setPrev hS hnode hin).setNext hS hnode hin

/-- A node is put in in memory. -/
theorem InBytes.new (h : InBytes S b m) (hS : Separate S) (hin : ∀ x ∈ S, InIsize x)
    (hnode : node ∈ S) (hprev : prev ∈ S) (hnext : next ∈ S) :
    InBytes S (Llist.new b node prev next) (new m node prev next ()) := by
  rw [LlistNode.new, write_eq]
  have hwritten := (h.setPrev hS hnode (hin prev hprev)).setNext hS hnode (hin next hnext)
  exact (hwritten.setPrev hS hnext (hin node hnode)).setNext hS hprev (hin node hnode)

/-- A node is removed in memory. -/
theorem InBytes.remove (h : InBytes S b m) (hS : Separate S) (hnode : node ∈ S)
    (hprev : (m node).prev ∈ S) (hnext : (m node).next ∈ S) :
    InBytes S (Llist.remove b node) (remove m node).2 := by
  have hin := Llist.inIsize_prev b node
  have hin' := Llist.inIsize_next b node
  have hdead : InIsize 0xdef := by decide
  unfold Llist.remove
  dsimp only
  rw [(h node hnode).1] at hin' ⊢
  rw [(h node hnode).2] at hin ⊢
  exact (((h.setNext hS hprev hin').setPrev hS hnext hin).setPrev hS hnode hdead).setNext hS hnode
    hdead

end Bytes

end LlistNode

end Tauos.Utils
