import Mathlib.Logic.Relation
import Tauos.Utils.LlistNode

/-!
# `IterMut`: iterating over a circular list

`kernel/src/utils/llist.rs`. The iterator has two cursors, one for each end, and a flag that
falls when they meet. Between its calls, nodes that it returned may be removed from the list.

> `Walk.step_midway`: the nodes still to come are those between the two cursors; a call takes the
> first or the last of them, and a removal is outside of them.
> `iter_spec`: the nodes from `next`, those still to come, and those from `next_back` in reverse
> order are together the list that the iterator was made for.
-/

namespace Tauos.Utils

open Tauos.Circular LlistNode

/-- An iterator: the next node from either side, and whether there is one. -/
structure IterMut where
  forward : Int
  backward : Int
  ongoing : Bool
  deriving DecidableEq, Repr

variable {T : Type}

namespace IterMut

/-- `IterMut::new`. -/
def new (m : Nodes T) (sentinel : Int) : IterMut :=
  { forward := (m sentinel).next, backward := (m sentinel).prev,
    ongoing := sentinel ≠ (m sentinel).next }

/-- `Iterator::next`. -/
def next (m : Nodes T) (it : IterMut) : Option Int × IterMut :=
  if it.ongoing then
    let ongoing := if it.forward = it.backward then false else it.ongoing
    (some it.forward, { it with forward := (m it.forward).next, ongoing })
  else
    (none, it)

/-- `DoubleEndedIterator::next_back`. -/
def nextBack (m : Nodes T) (it : IterMut) : Option Int × IterMut :=
  if it.ongoing then
    let ongoing := if it.forward = it.backward then false else it.ongoing
    (some it.backward, { it with backward := (m it.backward).prev, ongoing })
  else
    (none, it)

end IterMut

/-! ## Runs -/

/-- An iterator, the memory, and what happened so far. -/
structure Walk (T : Type) where
  mem : Nodes T
  it : IterMut
  /-- the nodes that `next` returned -/
  fronts : List Int := []
  /-- the nodes that `next_back` returned -/
  backs : List Int := []
  removed : List Int := []
  calls : Nat := 0

namespace Walk

/-- `LlistNode::iter_mut`. -/
def iterMut (m : Nodes T) (sentinel : Int) : Walk T := { mem := m, it := IterMut.new m sentinel }

/-- A call of `next`, with the node that it returns. -/
def next (w : Walk T) : Walk T :=
  let (ret, it) := w.it.next w.mem
  { w with it, fronts := w.fronts ++ ret.toList, calls := w.calls + 1 }

/-- A call of `next_back`. -/
def nextBack (w : Walk T) : Walk T :=
  let (ret, it) := w.it.nextBack w.mem
  { w with it, backs := w.backs ++ ret.toList, calls := w.calls + 1 }

/-- `LlistNode::remove` of a node. -/
def remove (w : Walk T) (node : Int) : Walk T :=
  { w with mem := (LlistNode.remove w.mem node).2, removed := node :: w.removed }

/-- A call, or the removal of a node that was returned and is still in the list. -/
inductive Step : Walk T → Walk T → Prop
  | next (w : Walk T) : Step w w.next
  | nextBack (w : Walk T) : Step w w.nextBack
  | remove (w : Walk T) (node : Int) (hreturned : node ∈ w.fronts ∨ node ∈ w.backs)
      (hin : node ∉ w.removed) : Step w (w.remove node)

/-- The cursors are at the ends of the nodes still to come. -/
structure At (it : IterMut) (rest : List Int) : Prop where
  ongoing : it.ongoing = true ↔ rest ≠ []
  forward : ∀ x ∈ rest.head?, it.forward = x
  backward : ∀ x ∈ rest.getLast?, it.backward = x

/-- The nodes `rest` of the list `l` are still to come. -/
structure Midway (s : Int) (l : List Int) (w : Walk T) (rest : List Int) : Prop where
  ring : IsRing (links w.mem) ((s :: l.filter (· ∉ w.removed) : List Int) : Cycle Int)
  nodup : (s :: l).Nodup
  split : l = w.fronts ++ rest ++ w.backs.reverse
  cursors : At w.it rest
  removed : ∀ x ∈ w.removed, x ∈ w.fronts ∨ x ∈ w.backs
  calls : w.fronts.length + w.backs.length = min w.calls l.length

/-! ## One call -/

section Cursors

variable {m : Nodes T} {it : IterMut} {rest : List Int}

/-- `next` gives the first of the nodes left. -/
theorem At.next (h : At it rest) (hpath : Path (links m) rest) (hnodup : rest.Nodup) :
    (it.next m).1 = rest.head? ∧ At (it.next m).2 rest.tail := by
  unfold IterMut.next
  cases rest with
  | nil =>
    have hoff : ¬ it.ongoing = true := fun hon => h.ongoing.mp hon rfl
    rw [if_neg hoff]
    exact ⟨rfl, h⟩
  | cons x rest =>
    have hforward := h.forward x rfl
    rw [if_pos (h.ongoing.mpr (List.cons_ne_nil x rest)), hforward]
    refine ⟨rfl, ?_⟩
    cases rest with
    | nil =>
      -- the cursors meet
      rw [if_pos (h.backward x rfl).symm]
      exact ⟨by simp, by simp, by simp⟩
    | cons y rest =>
      obtain ⟨z, hz⟩ : ∃ z, (y :: rest).getLast? = some z :=
        ⟨_, List.getLast?_eq_some_getLast (List.cons_ne_nil y rest)⟩
      have hback : it.backward = z := h.backward z (by rw [List.getLast?_cons_cons]; exact hz)
      have hne : x ≠ it.backward := by
        rw [hback]
        rintro rfl
        exact (List.nodup_cons.mp hnodup).1 (List.mem_of_getLast? hz)
      have hnext : (m x).next = y := ((path_cons_iff.mp hpath).1 y rfl).1
      rw [if_neg hne]
      refine ⟨⟨fun _ => List.cons_ne_nil y rest, fun _ => h.ongoing.mpr (List.cons_ne_nil x _)⟩, ?_,
        ?_⟩
      · rintro a ⟨⟩
        exact hnext
      · intro a ha
        exact h.backward a (by rw [List.getLast?_cons_cons]; exact ha)

/-- `next_back` gives the last of the nodes left. -/
theorem At.nextBack (h : At it rest) (hpath : Path (links m) rest) (hnodup : rest.Nodup) :
    (it.nextBack m).1 = rest.getLast? ∧ At (it.nextBack m).2 rest.dropLast := by
  unfold IterMut.nextBack
  rcases List.eq_nil_or_concat' rest with rfl | ⟨front, z, rfl⟩
  · have hoff : ¬ it.ongoing = true := fun hon => h.ongoing.mp hon rfl
    rw [if_neg hoff]
    exact ⟨rfl, h⟩
  · have hne : front ++ [z] ≠ [] := by simp
    have hbackward := h.backward z List.getLast?_concat
    rw [if_pos (h.ongoing.mpr hne), hbackward, List.getLast?_concat, List.dropLast_concat]
    refine ⟨rfl, ?_⟩
    rcases List.eq_nil_or_concat' front with rfl | ⟨front, y, rfl⟩
    · rw [if_pos (h.forward z rfl)]
      exact ⟨by simp, by simp, by simp⟩
    · have hconcat : front ++ [y] ≠ [] := by simp
      have hhead : (front ++ [y] ++ [z]).head? = (front ++ [y]).head? :=
        List.head?_append_of_ne_nil _ hconcat
      have hfront : it.forward ∈ front ++ [y] := by
        have hx := List.head?_eq_some_head hconcat
        rw [h.forward _ (hhead.trans hx)]
        exact List.head_mem hconcat
      have hmeet : it.forward ≠ z := by
        rintro rfl
        exact (List.nodup_append.mp hnodup).2.2 _ hfront _ (List.mem_singleton_self _) rfl
      have hlink := (path_append_iff.mp hpath).2.2 y List.getLast?_concat z rfl
      rw [if_neg hmeet]
      refine ⟨⟨fun _ => hconcat, fun _ => h.ongoing.mpr hne⟩, fun a ha => ?_, fun a ha => ?_⟩
      · exact h.forward a (hhead.trans ha)
      · rw [List.getLast?_concat] at ha
        cases ha
        exact hlink.2

end Cursors

/-! ## One step -/

section Steps

variable {s : Int} {l rest : List Int} {m : Nodes T} {w w' : Walk T} {node : Int}

/-- At first all nodes are left. -/
theorem midway_iterMut (h : IsRing (links m) ((s :: l : List Int) : Cycle Int)) :
    Midway s l (iterMut m s) l := by
  have hhead := h.at_head
  have hnodup := Cycle.nodup_coe_iff.mp h.nodup
  have hall : l.filter (· ∉ ([] : List Int)) = l := List.filter_eq_self.mpr fun x _ => by simp
  have hnext : (m s).next = l.head?.getD s := hhead.1
  have hprev : (m s).prev = l.getLast?.getD s := hhead.2
  refine ⟨?_, hnodup, ?_, ⟨?_, fun x hx => ?_, fun x hx => ?_⟩,
    fun x hx => absurd hx List.not_mem_nil, ?_⟩
  · show IsRing (links m) ((s :: l.filter (· ∉ ([] : List Int)) : List Int) : Cycle Int)
    rw [hall]
    exact h
  · exact (List.append_nil l).symm
  · show decide (s ≠ (m s).next) = true ↔ l ≠ []
    rw [decide_eq_true_iff, hnext]
    cases l with
    | nil => simp
    | cons x l =>
      have hne : s ≠ x := fun he => (List.nodup_cons.mp hnodup).1 (he ▸ List.mem_cons_self ..)
      simp [hne]
  · show (m s).next = x
    rw [hnext, hx]
    rfl
  · show (m s).prev = x
    rw [hprev, hx]
    rfl
  · exact (Nat.zero_min _).symm

/-- No node is left twice. -/
theorem Midway.nodup_rest (h : Midway s l w rest) : rest.Nodup := by
  have hnodup := (List.nodup_cons.mp h.nodup).2
  rw [h.split] at hnodup
  exact (List.nodup_append.mp (List.nodup_append.mp hnodup).1).2.1

/-- Nodes still to come are not removed, so they are as they were in the list. -/
theorem Midway.path (h : Midway s l w rest) : Path (links w.mem) rest := by
  have hkept : rest.filter (· ∉ w.removed) = rest := by
    refine List.filter_eq_self.mpr fun x hx => ?_
    rw [decide_eq_true_iff]
    intro hgone
    have hnodup := (List.nodup_cons.mp h.nodup).2
    rw [h.split] at hnodup
    obtain ⟨hleft, _, hdisj⟩ := List.nodup_append.mp hnodup
    rcases h.removed x hgone with hx' | hx'
    · exact (List.nodup_append.mp hleft).2.2 x hx' x hx rfl
    · exact hdisj x (List.mem_append_right _ hx) x (List.mem_reverse.mpr hx') rfl
  have hring := h.ring
  rw [h.split, List.filter_append, List.filter_append, hkept, ← List.cons_append,
    ← List.cons_append] at hring
  exact hring.path

/-- `next` on the way. -/
theorem Midway.next (h : Midway s l w rest) :
    (w.it.next w.mem).1 = rest.head? ∧ Midway s l w.next rest.tail := by
  obtain ⟨hret, hat⟩ := h.cursors.next h.path h.nodup_rest
  have hfronts : w.next.fronts = w.fronts ++ rest.head?.toList := by
    rw [← hret]
    rfl
  have hlength := congrArg List.length h.split
  have hcalls := h.calls
  refine ⟨hret, h.ring, h.nodup, ?_, hat, fun x hx => ?_, ?_⟩
  · rw [hfronts]
    refine h.split.trans ?_
    cases rest <;> simp [Walk.next]
  · rw [hfronts, List.mem_append]
    exact (h.removed x hx).imp Or.inl id
  · rw [hfronts]
    show _ + w.backs.length = min (w.calls + 1) l.length
    cases rest <;> simp at hlength ⊢ <;> omega

/-- `next_back` on the way. -/
theorem Midway.nextBack (h : Midway s l w rest) :
    (w.it.nextBack w.mem).1 = rest.getLast? ∧ Midway s l w.nextBack rest.dropLast := by
  obtain ⟨hret, hat⟩ := h.cursors.nextBack h.path h.nodup_rest
  have hbacks : w.nextBack.backs = w.backs ++ rest.getLast?.toList := by
    rw [← hret]
    rfl
  have hlength := congrArg List.length h.split
  have hcalls := h.calls
  refine ⟨hret, h.ring, h.nodup, ?_, hat, fun x hx => ?_, ?_⟩
  · rw [hbacks]
    refine h.split.trans ?_
    rcases List.eq_nil_or_concat' rest with rfl | ⟨front, z, rfl⟩ <;> simp [Walk.nextBack]
  · rw [hbacks, List.mem_append]
    exact (h.removed x hx).imp id Or.inl
  · rw [hbacks]
    show w.fronts.length + _ = min (w.calls + 1) l.length
    rcases List.eq_nil_or_concat' rest with rfl | ⟨front, z, rfl⟩ <;> simp at hlength ⊢ <;> omega

/-- A node that was returned is not between the cursors. -/
theorem Midway.remove (h : Midway s l w rest) (hreturned : node ∈ w.fronts ∨ node ∈ w.backs)
    (hin : node ∉ w.removed) : Midway s l (w.remove node) rest := by
  have hmem : node ∈ l.filter (· ∉ w.removed) := by
    rw [List.mem_filter, decide_eq_true_iff, h.split]
    refine ⟨?_, hin⟩
    rcases hreturned with hx | hx <;> simp [hx]
  obtain ⟨before, behind, hkept⟩ := List.append_of_mem hmem
  have hnodup : (before ++ node :: behind).Nodup := by
    rw [← hkept]
    exact (List.nodup_cons.mp h.nodup).2.filter _
  have hfilter : l.filter (· ∉ node :: w.removed) = before ++ behind := by
    have hsplit : l.filter (· ∉ node :: w.removed) =
        (l.filter (· ∉ w.removed)).filter (· ≠ node) := by
      rw [List.filter_filter]
      refine List.filter_congr fun x _ => ?_
      simp
    have hrest := List.nodup_cons.mp (List.nodup_middle.mp hnodup)
    rw [hsplit, hkept, List.filter_append, List.filter_cons_of_neg (by simp), ← List.filter_append]
    refine List.filter_eq_self.mpr fun x hx => ?_
    rw [decide_eq_true_iff]
    rintro rfl
    exact hrest.1 hx
  have hring := h.ring
  rw [hkept, ← List.cons_append, coe_rotate, List.cons_append] at hring
  have hleft := remove_becomes hring.rings rfl (List.append_ne_nil_of_right_ne_nil behind
    (List.cons_ne_nil s before))
  refine ⟨?_, h.nodup, h.split, h.cursors, fun x hx => ?_, h.calls⟩
  · show IsRing _ ((s :: l.filter (· ∉ node :: w.removed) : List Int) : Cycle Int)
    rw [hfilter, ← List.cons_append, coe_rotate]
    exact hleft.rings.ring (Or.inr rfl)
  · rcases List.mem_cons.mp hx with rfl | hx
    · exact hreturned
    · exact h.removed x hx

/-- Each step keeps the invariant. -/
theorem step_midway (hstep : Step w w') (h : Midway s l w rest) : ∃ rest', Midway s l w' rest' := by
  cases hstep with
  | next => exact ⟨_, h.next.2⟩
  | nextBack => exact ⟨_, h.nextBack.2⟩
  | remove node hreturned hin => exact ⟨rest, h.remove hreturned hin⟩

/-- So does each run. -/
theorem run_midway (hrun : Relation.ReflTransGen Step w w') (h : Midway s l w rest) :
    ∃ rest', Midway s l w' rest' := by
  induction hrun with
  | refl => exact ⟨rest, h⟩
  | tail _ hstep ih =>
    obtain ⟨_, hmid⟩ := ih
    exact step_midway hstep hmid

end Steps

end Walk

/-- Whatever was called and removed so far, `rest` are the nodes still to come: `next` returns the
first of them and `next_back` the last. Every call returned a node while there was one, so after
as many calls as there are nodes there is nothing left. -/
theorem iter_spec {m : Nodes T} {s : Int} {l : List Int}
    (h : IsRing (links m) ((s :: l : List Int) : Cycle Int)) {w : Walk T}
    (hrun : Relation.ReflTransGen Walk.Step (Walk.iterMut m s) w) :
    ∃ rest, l = w.fronts ++ rest ++ w.backs.reverse ∧ l.Nodup ∧
      (w.it.next w.mem).1 = rest.head? ∧ (w.it.nextBack w.mem).1 = rest.getLast? ∧
      w.fronts.length + w.backs.length = min w.calls l.length ∧
      (l.length ≤ w.calls → rest = []) ∧ s ∉ w.fronts ∧ s ∉ w.backs := by
  obtain ⟨rest, hmid⟩ := Walk.run_midway hrun (Walk.midway_iterMut h)
  obtain ⟨hs, hnodup⟩ := List.nodup_cons.mp hmid.nodup
  have hapart := hs
  rw [hmid.split, List.mem_append, List.mem_append, List.mem_reverse, not_or, not_or] at hapart
  refine ⟨rest, hmid.split, hnodup, hmid.next.1, hmid.nextBack.1, hmid.calls, fun hall => ?_,
    hapart.1.1, hapart.2⟩
  have hlength := congrArg List.length hmid.split
  have hcalls := hmid.calls
  rw [List.length_append, List.length_append, List.length_reverse] at hlength
  exact List.length_eq_zero_iff.mp (by omega)

/-- Two nodes are returned, the first is removed in between, and a third call returns nothing. -/
theorem iter_spec_two : ∃ rest : List Int, [2, 3] = [2] ++ rest ++ [3] ∧ rest.head? = none := by
  have hring : IsRing (links threeAndOne) (([1, 2, 3] : List Int) : Cycle Int) :=
    threeAndOne_rings.ring (Or.inl (Or.inr rfl))
  have hrun : Relation.ReflTransGen Walk.Step (Walk.iterMut threeAndOne 1)
      ((((Walk.iterMut threeAndOne 1).next).remove 2).nextBack) :=
    ((Relation.ReflTransGen.single (Walk.Step.next _)).tail
      (Walk.Step.remove _ 2 (Or.inl (by decide)) (by decide))).tail (Walk.Step.nextBack _)
  obtain ⟨rest, hsplit, _, hnext, _⟩ := iter_spec hring hrun
  exact ⟨rest, hsplit, hnext.symm⟩

end Tauos.Utils
