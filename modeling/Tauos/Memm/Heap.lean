import Tauos.Memm.Run
import Tauos.Utils.Llist

/-!
# `Talloc` in memory

The store of a running allocator is memory itself: list `g` is the circular list
through the sentinel `llists[g]`, its nodes are the first sixteen bytes of the
free blocks, and the bitmap is a slice of bytes. `Store Mem` are the accesses of
`kernel/src/memm/talloc.rs` as loads and stores.

`Rep m t`: the memory `m` holds the free lists and the bitmap of `t`. `Sep t`:
the nodes of all lists, the sentinels and the bitmap bytes are apart. Under the
two, each elementary step in memory does what it does on `FreeLists`
(`addBlockNext_sim`, `removeBlock_sim`, `removeBlockNext_sim`), and writes only
to `Books`: sentinels, bitmap bytes and nodes of listed blocks.

`Sep` passes from a state to every state with fewer blocks listed. So the loops
need it only where the lists are fullest: `dealloc` unlinks and then adds one
block, `shrink` and `alloc` add blocks after at most one unlink.
-/

namespace Tauos.Memm

open Tauos.Rust Tauos.Utils Tauos.Buddy

namespace Talloc

/-- The fields of `t` over another store. -/
def on {σ τ : Type} (t : Talloc σ) (store : τ) : Talloc τ where
  toArena := t.toArena
  avails := t.avails
  llistsPtr := t.llistsPtr
  llistsLen := t.llistsLen
  bitmapPtr := t.bitmapPtr
  bitmapLen := t.bitmapLen
  store := store

/-- The address of `llists[granularity]`. -/
def sentinel {σ : Type} (t : Talloc σ) (granularity : Nat) : Int :=
  t.llistsPtr + (granularity * nodeSize : Nat)

/-- `self.llists.get_unchecked_mut(granularity)`. -/
def getSentinel {σ : Type} (t : Talloc σ) (granularity : Nat) : Except Fault Int :=
  if granularity < t.llistsLen then .ok (t.sentinel granularity) else .error .undefined

/-- `self.bitmap.get_unchecked_mut(index)`. -/
def getBitmap {σ : Type} (t : Talloc σ) (index : Nat) : Except Fault Int :=
  if index < t.bitmapLen then .ok (t.bitmapPtr + index) else .error .undefined

end Talloc

instance : Store Mem where
  sentinelSole t g := do
    let sentinel ← t.getSentinel g
    return decide (Llist.prev t.store sentinel = Llist.next t.store sentinel)
  sentinelNext t g := do return Llist.next t.store (← t.getSentinel g)
  nodeSole t _ node := .ok (decide (Llist.prev t.store node = Llist.next t.store node))
  insertNext t g node := do
    let sentinel ← t.getSentinel g
    return Llist.new t.store node sentinel (Llist.next t.store sentinel)
  unlink t _ node := .ok (Llist.remove t.store node)
  readByte t i := do return t.store (← t.getBitmap i)
  writeByte t i v := do
    let a ← t.getBitmap i
    return fun x => if x = a then v else t.store x

namespace Talloc

/-- `LlistNode::new_llist` on the first `n` sentinels. -/
def newLlists (m : Mem) (llistsPtr : Int) : Nat → Mem
  | 0 => m
  | n + 1 => Llist.newLlist (newLlists m llistsPtr n) (llistsPtr + (n * nodeSize : Nat))

/-- `ptr.write_bytes(0, len)`. -/
def zeroBytes (m : Mem) (ptr : Int) (len : Nat) : Mem :=
  fun x => if ptr ≤ x ∧ x < ptr + len then 0 else m x

/-- `Talloc::new` in memory: `extend` on an instance that has no lists and no bitmap
to move. -/
def newIn (m : Mem) (arenaBase : Int) (arenaSize smallestBlock : Nat) (freeMem : Slice) :
    Except Fault (Talloc Mem) := do
  let (llBytes, bmBytes) ← sliceBytes arenaSize smallestBlock
  (newInvalid smallestBlock).checkExtend arenaBase arenaSize freeMem
  let memOffset := llAlignOffset freeMem + llBytes + bmBytes
  let llistsPtr := wrappingAdd freeMem.ptr (llAlignOffset freeMem)
  let bitmapPtr := wrappingAdd llistsPtr llBytes
  let talloc : Talloc Mem := {
    toArena := ⟨arenaBase, arenaSize, nextPowerOfTwo arenaSize, smallestBlock⟩
    avails := 0
    llistsPtr
    llistsLen := llBytes / nodeSize
    bitmapPtr
    bitmapLen := bmBytes
    store := zeroBytes (newLlists m llistsPtr (llBytes / nodeSize)) bitmapPtr bmBytes }
  talloc.release (← freeMem.drop memOffset)

/-- The memory `m` holds the free lists and the bitmap of `t`. -/
structure Rep (m : Mem) (t : Talloc FreeLists) : Prop where
  rings : ∀ {g}, g < t.llistsLen → Llist.Ring m (t.sentinel g) (t.list g)
  bytes : ∀ {i}, i < t.bitmapLen → m (t.bitmapPtr + i) = t.store.bitmap.getD i 0

/-- The nodes of all lists, the sentinels and the bitmap bytes are apart. -/
structure Sep (t : Talloc FreeLists) : Prop where
  slen : t.store.llists.length = t.llistsLen
  blen : t.store.bitmap.length = t.bitmapLen
  layout : t.bitmapPtr = t.llistsPtr + (t.llistsLen * nodeSize : Nat)
  nodup : ∀ g, (t.list g).Nodup
  inIsize : ∀ {g b}, b ∈ t.list g → InIsize b
  out : ∀ {g b}, b ∈ t.list g → b + 16 ≤ t.llistsPtr ∨ t.bitmapPtr + t.bitmapLen ≤ b
  apart : ∀ {g g' b b'}, b ∈ t.list g → b' ∈ t.list g' → (g = g' ∧ b = b') ∨ Llist.Apart b b'

/-- `x` is in the node of a listed block. -/
def Node (t : Talloc FreeLists) (x : Int) : Prop := ∃ g b, b ∈ t.list g ∧ Llist.Cell b x

/-- The memory of the records: sentinels, bitmap, and the nodes of the listed blocks. -/
def Books (t : Talloc FreeLists) (x : Int) : Prop := t.Status x ∨ t.Node x

/-- `m'` differs from `m` at most in `W`. -/
def Only (W : Int → Prop) (m m' : Mem) : Prop := ∀ x, ¬ W x → m' x = m x

/-- `t` lists some of the blocks that `t'` lists, over the same status data. -/
structure Below (t t' : Talloc FreeLists) : Prop where
  llistsPtr : t'.llistsPtr = t.llistsPtr
  llistsLen : t'.llistsLen = t.llistsLen
  bitmapPtr : t'.bitmapPtr = t.bitmapPtr
  bitmapLen : t'.bitmapLen = t.bitmapLen
  slen : t'.store.llists.length = t.store.llists.length
  blen : t'.store.bitmap.length = t.store.bitmap.length
  list : ∀ g, (t.list g).Sublist (t'.list g)

variable {t t' t'' : Talloc FreeLists} {m m' m'' : Mem} {W W' : Int → Prop}

/-- Nothing is written. -/
theorem Only.refl (W : Int → Prop) (m : Mem) : Only W m m := fun _ _ => rfl

/-- What is written is in a larger set too. -/
theorem Only.mono (h : Only W m m') (hsub : ∀ x, W x → W' x) : Only W' m m' :=
  fun x hx => h x fun hc => hx (hsub x hc)

/-- Two writes, one after the other. -/
theorem Only.trans (h : Only W m m') (h' : Only W m' m'') : Only W m m'' :=
  fun x hx => (h' x hx).trans (h x hx)

/-! ## Fewer listed blocks -/

/-- A state is below itself. -/
theorem Below.refl (t : Talloc FreeLists) : Below t t :=
  ⟨rfl, rfl, rfl, rfl, rfl, rfl, fun _ => List.Sublist.refl _⟩

/-- Being below is transitive. -/
theorem Below.trans (h : Below t t') (h' : Below t' t'') : Below t t'' :=
  ⟨h'.llistsPtr.trans h.llistsPtr, h'.llistsLen.trans h.llistsLen, h'.bitmapPtr.trans h.bitmapPtr,
    h'.bitmapLen.trans h.bitmapLen, h'.slen.trans h.slen, h'.blen.trans h.blen,
    fun g => (h.list g).trans (h'.list g)⟩

/-- The free blocks below are free above. -/
theorem Below.mem (h : Below t t') {g : Nat} {b : Int} (hb : b ∈ t.list g) : b ∈ t'.list g :=
  (h.list g).subset hb

/-- The status data is in the same place. -/
theorem Below.status (h : Below t t') (x : Int) : t'.Status x ↔ t.Status x := by
  unfold Status
  rw [h.llistsPtr, h.bitmapPtr, h.bitmapLen]

/-- What the records take below, they take above. -/
theorem Below.books (h : Below t t') {x : Int} (hx : t.Books x) : t'.Books x := by
  rcases hx with hx | ⟨g, b, hb, hx⟩
  · exact Or.inl ((h.status x).mpr hx)
  · exact Or.inr ⟨g, b, h.mem hb, hx⟩

/-- Fewer free blocks are apart from the status data too. -/
theorem Sep.mono (h : Sep t') (hle : Below t t') : Sep t where
  slen := by rw [← hle.slen, h.slen, hle.llistsLen]
  blen := by rw [← hle.blen, h.blen, hle.bitmapLen]
  layout := by rw [← hle.bitmapPtr, h.layout, hle.llistsPtr, hle.llistsLen]
  nodup g := (h.nodup g).sublist (hle.list g)
  inIsize hb := h.inIsize (hle.mem hb)
  out hb := by
    rw [← hle.llistsPtr, ← hle.bitmapPtr, ← hle.bitmapLen]
    exact h.out (hle.mem hb)
  apart hb hb' := h.apart (hle.mem hb) (hle.mem hb')

/-- A longer list. -/
theorem below_setList {g : Nat} (hg : g < t.store.llists.length) {l : List Int}
    (hl : (t.list g).Sublist l) : Below t (t.setList g l) := by
  refine ⟨rfl, rfl, rfl, rfl, List.length_set .., rfl, fun g' => ?_⟩
  rw [list_setList hg]
  split
  · next hgg => rw [hgg]; exact hl
  · exact List.Sublist.refl _

/-- A shorter list. -/
theorem setList_below {g : Nat} (hg : g < t.store.llists.length) {l : List Int}
    (hl : l.Sublist (t.list g)) : Below (t.setList g l) t := by
  refine ⟨rfl, rfl, rfl, rfl, (List.length_set ..).symm, rfl, fun g' => ?_⟩
  rw [list_setList hg]
  split
  · next hgg => rw [hgg]; exact hl
  · exact List.Sublist.refl _

/-- A bit does not matter. -/
theorem below_flipBit (t : Talloc FreeLists) (i : Nat) : Below t (t.flipBit i) :=
  ⟨rfl, rfl, rfl, rfl, rfl, List.length_set .., fun _ => List.Sublist.refl _⟩

/-- Nor does it the other way. -/
theorem flipBit_below (t : Talloc FreeLists) (i : Nat) : Below (t.flipBit i) t :=
  ⟨rfl, rfl, rfl, rfl, rfl, (List.length_set ..).symm, fun _ => List.Sublist.refl _⟩

/-- `avails` is a field of the struct, not of the memory behind it. -/
theorem below_avails (t : Talloc FreeLists) (avails : Nat) : Below t { t with avails } :=
  ⟨rfl, rfl, rfl, rfl, rfl, rfl, fun _ => List.Sublist.refl _⟩

/-- A block more. -/
theorem below_added {g : Nat} (hg : g < t.store.llists.length) (i : Nat) (node : Int) :
    Below t (t.added g i node) :=
  (below_avails t (t.avails ||| (1 <<< g))).trans
    ((below_setList (t := { t with avails := t.avails ||| (1 <<< g) }) hg
      (List.sublist_cons_self node (t.list g))).trans (below_flipBit _ i))

/-- A block less. -/
theorem removed_below {g : Nat} (hg : g < t.store.llists.length) (i : Nat) (node : Int) :
    Below (t.removed g i node) t := by
  rw [removed_eq]
  generalize (t.removed g i node).avails = avails
  exact (flipBit_below _ i).trans ((setList_below (t := { t with avails }) hg
    (l := (t.list g).erase node) List.erase_sublist).trans
      (below_avails { t with avails } t.avails))

/-! ## Apartness -/

section Sep

variable {g g' : Nat} {n n' x : Int}

/-- The sentinels are in front of the bitmap. -/
theorem Sep.cell_sentinel (h : Sep t) (hg : g < t.llistsLen) (hx : Llist.Cell (t.sentinel g) x) :
    t.llistsPtr ≤ x ∧ x < t.bitmapPtr := by
  obtain ⟨h1, h2⟩ := hx
  have hl := h.layout
  unfold sentinel at h1 h2
  unfold nodeSize at *
  omega

/-- The nodes are among the records. -/
theorem Sep.cell_books (h : Sep t) (hg : g < t.llistsLen) (hn : n ∈ t.sentinel g :: t.list g)
    (hx : Llist.Cell n x) : t.Books x := by
  rcases List.mem_cons.mp hn with rfl | hn
  · obtain ⟨h1, h2⟩ := h.cell_sentinel hg hx
    exact Or.inl ⟨h1, by omega⟩
  · exact Or.inr ⟨g, n, hn, hx⟩

/-- No bitmap byte is in a node. -/
theorem Sep.byte_out (h : Sep t) (hg : g < t.llistsLen) (hn : n ∈ t.sentinel g :: t.list g)
    (hx : Llist.Cell n x) : ¬ (t.bitmapPtr ≤ x ∧ x < t.bitmapPtr + t.bitmapLen) := by
  rcases List.mem_cons.mp hn with rfl | hn
  · have := h.cell_sentinel hg hx
    omega
  · have hout := h.out hn
    have hl := h.layout
    obtain ⟨h1, h2⟩ := hx
    omega

/-- No block is on a sentinel. -/
theorem Sep.sentinel_apart (h : Sep t) (hg : g < t.llistsLen) (hb : n ∈ t.list g') :
    Llist.Apart (t.sentinel g) n := by
  have hout := h.out hb
  have hl := h.layout
  unfold Llist.Apart sentinel
  unfold nodeSize at *
  omega

/-- The nodes of a list are apart from each other. -/
theorem Sep.spread (h : Sep t) (hg : g < t.llistsLen) : Llist.Spread (t.sentinel g) (t.list g) := by
  refine List.pairwise_cons.mpr ⟨fun n hn => h.sentinel_apart hg hn, ?_⟩
  refine (h.nodup g).imp_of_mem fun ha hb hne => ?_
  exact (h.apart ha hb).resolve_left fun hc => hne hc.2

/-- Nodes of two lists. -/
theorem Sep.other_apart (h : Sep t) (hg : g < t.llistsLen) (hg' : g' < t.llistsLen) (hne : g ≠ g')
    (hn : n ∈ t.sentinel g :: t.list g) (hn' : n' ∈ t.sentinel g' :: t.list g') :
    Llist.Apart n n' := by
  rcases List.mem_cons.mp hn with rfl | hn <;> rcases List.mem_cons.mp hn' with rfl | hn'
  · unfold Llist.Apart sentinel nodeSize
    omega
  · exact h.sentinel_apart hg hn'
  · exact (h.sentinel_apart hg' hn).symm
  · exact (h.apart hn hn').resolve_left fun hc => hne hc.1

/-- The neighbours of the nodes of a list are nodes of the same list. -/
theorem Rep.next_mem (hr : Rep m t) (hg : g < t.llistsLen) :
    Llist.next m (t.sentinel g) ∈ t.sentinel g :: t.list g := by
  rw [(hr.rings hg).next_sentinel]
  rcases List.mem_append.mp (List.head_mem (l := t.list g ++ [t.sentinel g]) (by simp)) with h | h
  · exact List.mem_cons_of_mem _ h
  · exact List.mem_cons.mpr (Or.inl (List.mem_singleton.mp h))

/-- The neighbours of a node are in its list. -/
theorem Rep.neighbours_mem (hr : Rep m t) (hg : g < t.llistsLen) {b : Int} (hb : b ∈ t.list g) :
    Llist.prev m b ∈ t.sentinel g :: t.list g ∧ Llist.next m b ∈ t.sentinel g :: t.list g := by
  obtain ⟨l₁, l₂, hl⟩ := List.append_of_mem hb
  have hring := hr.rings hg
  rw [hl] at hring ⊢
  obtain ⟨A, p, n, B, hA, hB, rfl, rfl, _, _⟩ := hring.neighbours
  constructor
  · have : Llist.prev m b ∈ t.sentinel g :: l₁ := by rw [hA]; simp
    rcases List.mem_cons.mp this with h | h
    · exact List.mem_cons.mpr (Or.inl h)
    · exact List.mem_cons_of_mem _ (List.mem_append_left _ h)
  · have : Llist.next m b ∈ l₂ ++ [t.sentinel g] := by rw [hB]; exact List.mem_cons_self
    rcases List.mem_append.mp this with h | h
    · exact List.mem_cons_of_mem _ (List.mem_append_right _ (List.mem_cons_of_mem _ h))
    · exact List.mem_cons.mpr (Or.inl (List.mem_singleton.mp h))

end Sep

/-! ## Elementary steps in memory -/

section Steps

variable {g i : Nat} {node : Int}

/-- Replacing one list: its own nodes change, old or new. -/
theorem Rep.setList {l : List Int} (hr : Rep m t) (hs : Sep t) (hs' : Sep (t.setList g l))
    (hg : g < t.llistsLen) (hring : Llist.Ring m' (t.sentinel g) l)
    (honly : ∀ x, (∀ n ∈ t.sentinel g :: (t.list g ++ l), ¬ Llist.Cell n x) → m' x = m x) :
    Rep m' (t.setList g l) := by
  have hlist := list_setList (t := t) (g := g) (by rw [hs.slen]; exact hg) l
  have hl : (t.setList g l).list g = l := by rw [hlist, if_pos rfl]
  -- a node of the list, old or new, is one of its list in `t` or in the new state
  have hcases : ∀ {n}, n ∈ t.sentinel g :: (t.list g ++ l) →
      n ∈ t.sentinel g :: t.list g ∨ n ∈ (t.setList g l).sentinel g :: (t.setList g l).list g := by
    intro n hn
    rw [hl]
    simp only [List.mem_cons, List.mem_append] at hn ⊢
    tauto
  refine ⟨fun {g'} hg' => ?_, fun {i} hi => ?_⟩
  · by_cases hgg : g' = g
    · subst hgg
      rw [hl]
      exact hring
    · have hsame : (t.setList g l).list g' = t.list g' := by rw [hlist, if_neg hgg]
      rw [hsame]
      refine (hr.rings hg').frame fun n hn x hx => honly x fun n' hn' => ?_
      rcases hcases hn' with hn' | hn'
      · exact (hs.other_apart hg' hg hgg hn hn').not_cell hx
      · refine (hs'.other_apart (g := g') hg' hg hgg ?_ hn').not_cell hx
        rw [hsame]
        exact hn
  · rw [← show t.store.bitmap.getD i 0 = (t.setList g l).store.bitmap.getD i 0 from rfl,
      ← hr.bytes hi]
    have hbyte : t.bitmapPtr ≤ t.bitmapPtr + i ∧ t.bitmapPtr + i < t.bitmapPtr + t.bitmapLen := by
      have : i < t.bitmapLen := hi
      omega
    refine honly _ fun n hn hx => ?_
    rcases hcases hn with hn | hn
    · exact hs.byte_out hg hn hx hbyte
    · exact hs'.byte_out hg hn hx hbyte

/-- The address of a byte of the bitmap. -/
theorem getBitmap_on {j : Nat} (hj : j < t.bitmapLen) :
    (t.on m).getBitmap j = .ok (t.bitmapPtr + j) := if_pos hj

/-- The address of a sentinel. -/
theorem getSentinel_on (hg : g < t.llistsLen) : (t.on m).getSentinel g = .ok (t.sentinel g) :=
  if_pos hg

/-- A byte of the bitmap is read. -/
theorem readByte_on {j : Nat} (hj : j < t.bitmapLen) :
    Store.readByte (t.on m) j = .ok (m (t.bitmapPtr + j)) := by
  show ((t.on m).getBitmap j >>= fun a => Except.ok (m a)) = _
  rw [getBitmap_on hj]
  rfl

/-- A byte of the bitmap is written. -/
theorem writeByte_on {j : Nat} (hj : j < t.bitmapLen) (v : BitVec 8) :
    Store.writeByte (t.on m) j v
      = .ok (fun x : Int => if x = t.bitmapPtr + j then v else m x) := by
  show ((t.on m).getBitmap j >>= fun a => Except.ok (fun x => if x = a then v else m x)) = _
  rw [getBitmap_on hj]
  rfl

/-- A bit is read in memory. -/
theorem readBitflag_sim (hs : Sep t) (hr : Rep m t) :
    (t.on m).readBitflag i = t.readBitflag i := by
  have hbyte : Store.readByte (t.on m) (i >>> 3) = Store.readByte t (i >>> 3) := by
    show _ = getByte t.store.bitmap (i >>> 3)
    by_cases hi : i >>> 3 < t.bitmapLen
    · rw [readByte_on hi, getByte_of_lt (by rw [hs.blen]; exact hi), ← hr.bytes hi]
    · have hnone : t.store.bitmap[i >>> 3]? = none :=
        List.getElem?_eq_none (by rw [hs.blen]; omega)
      show ((t.on m).getBitmap (i >>> 3) >>= _) = _
      rw [show (t.on m).getBitmap (i >>> 3) = .error .undefined from if_neg hi, getByte, hnone]
      rfl
  unfold readBitflag
  rw [hbyte]

/-- A bit is flipped in memory. -/
theorem toggleBitflag_sim (hs : Sep t) (hr : Rep m t) (hi : i / 8 < t.store.bitmap.length) :
    ∃ m', (t.on m).toggleBitflag i = .ok ((t.flipBit i).on m') ∧ Rep m' (t.flipBit i) ∧
      Only t.Status m m' := by
  have hi' : i / 8 < t.bitmapLen := by rw [← hs.blen]; exact hi
  have hl := hs.layout
  refine ⟨fun x => if x = t.bitmapPtr + (i / 8 : Nat) then m x ^^^ (1#8 <<< (i % 8)) else m x,
    ?_, ⟨fun {g} hg => ?_, fun {j} hj => ?_⟩, fun x hx => if_neg ?_⟩
  · unfold toggleBitflag
    rw [shiftRight_three, and_seven, readByte_on hi']
    show (Store.writeByte (t.on m) (i / 8) _ >>= _) = _
    rw [writeByte_on hi']
    show Except.ok ((t.flipBit i).on _) = Except.ok _
    congr 2
    funext x
    split
    · next hx => rw [hx]
    · rfl
  · refine (hr.rings hg).frame fun n hn x hx => if_neg ?_
    rintro rfl
    exact hs.byte_out hg hn hx ⟨by omega, by omega⟩
  · have hset := getD_set hi (t.store.bitmap.getD (i / 8) 0 ^^^ (1#8 <<< (i % 8))) j
    show (if t.bitmapPtr + (j : Int) = t.bitmapPtr + (i / 8 : Nat) then
      m (t.bitmapPtr + j) ^^^ (1#8 <<< (i % 8)) else m (t.bitmapPtr + j)) = _
    rw [hr.bytes hj]
    refine Eq.trans ?_ hset.symm
    by_cases hij : i / 8 = j
    · rw [if_pos (by omega), if_pos hij, hij]
    · rw [if_neg (by omega), if_neg hij]
  · rintro rfl
    exact hx ⟨by omega, by omega⟩

/-- `LlistNode::new` behind the sentinel, on a state whose lists have room for the node. -/
theorem insert_step (hr : Rep m t) (hs : Sep t) (hg : g < t.llistsLen)
    (hs' : Sep (t.setList g (node :: t.list g))) :
    Rep (Llist.new m node (t.sentinel g) (Llist.next m (t.sentinel g)))
        (t.setList g (node :: t.list g)) ∧
      Only (t.setList g (node :: t.list g)).Books m
        (Llist.new m node (t.sentinel g) (Llist.next m (t.sentinel g))) := by
  have hlist : (t.setList g (node :: t.list g)).list g = node :: t.list g := by
    rw [list_setList (by rw [hs.slen]; exact hg), if_pos rfl]
  have hnext := hr.next_mem hg
  have hsp := hs'.spread (g := g) hg
  rw [hlist] at hsp
  obtain ⟨hsn, hsp⟩ := List.pairwise_cons.mp hsp
  have hapart : ∀ n ∈ t.sentinel g :: t.list g, Llist.Apart node n := by
    intro n hn
    rcases List.mem_cons.mp hn with rfl | hn
    · exact (hsn node List.mem_cons_self).symm
    · exact (List.pairwise_cons.mp hsp).1 n hn
  have hin : InIsize node := hs'.inIsize (g := g) (by rw [hlist]; exact List.mem_cons_self)
  refine ⟨hr.setList hs hs' hg ((hr.rings hg).insert (hs.spread hg) hapart hin) fun x hx => ?_,
    fun x hx => ?_⟩
  · refine Llist.new_of_not_cell (hx node (by simp)) (hx _ List.mem_cons_self) (hx _ ?_)
    rcases List.mem_cons.mp hnext with h | h
    · exact List.mem_cons.mpr (Or.inl h)
    · exact List.mem_cons_of_mem _ (List.mem_append_left _ h)
  · have hbooks : ∀ n ∈ t.sentinel g :: (node :: t.list g), ¬ Llist.Cell n x := by
      intro n hn hc
      refine hx (hs'.cell_books (g := g) hg ?_ hc)
      rw [hlist]
      exact hn
    refine Llist.new_of_not_cell (hbooks node (by simp)) (hbooks _ List.mem_cons_self) (hbooks _ ?_)
    rcases List.mem_cons.mp hnext with h | h
    · exact List.mem_cons.mpr (Or.inl h)
    · exact List.mem_cons_of_mem _ (List.mem_cons_of_mem _ h)

/-- `LlistNode::remove` of a listed node. -/
theorem unlink_step (hr : Rep m t) (hs : Sep t) (hb : node ∈ t.list g) :
    Rep (Llist.remove m node) (t.setList g ((t.list g).erase node)) ∧
      Only t.Books m (Llist.remove m node) := by
  have hg := lt_of_mem_list hb
  have hg' : g < t.llistsLen := by rw [← hs.slen]; exact hg
  obtain ⟨hp, hn⟩ := hr.neighbours_mem hg' hb
  have hs' : Sep (t.setList g ((t.list g).erase node)) :=
    hs.mono (setList_below hg List.erase_sublist)
  refine ⟨hr.setList hs hs' hg' ((hr.rings hg').erase (hs.spread hg') hb) fun x hx => ?_,
    fun x hx => ?_⟩
  · have hx' : ∀ n ∈ t.sentinel g :: t.list g, ¬ Llist.Cell n x := by
      intro n hn
      rcases List.mem_cons.mp hn with rfl | hn
      · exact hx _ List.mem_cons_self
      · exact hx n (List.mem_cons_of_mem _ (List.mem_append_left _ hn))
    exact Llist.remove_of_not_cell (hx' node (List.mem_cons_of_mem _ hb)) (hx' _ hp) (hx' _ hn)
  · have hx' : ∀ n ∈ t.sentinel g :: t.list g, ¬ Llist.Cell n x :=
      fun n hn hc => hx (hs.cell_books hg' hn hc)
    exact Llist.remove_of_not_cell (hx' node (List.mem_cons_of_mem _ hb)) (hx' _ hp) (hx' _ hn)

/-- `add_block_next` in memory. -/
theorem addBlockNext_sim (hr : Rep m t) (hg : g < t.store.llists.length)
    (hi : i / 8 < t.store.bitmap.length) (hs' : Sep (t.added g i node)) :
    ∃ m', (t.on m).addBlockNext g i node = .ok ((t.added g i node).on m') ∧
      Rep m' (t.added g i node) ∧ Only (t.added g i node).Books m m' := by
  have hs : Sep { t with avails := t.avails ||| (1 <<< g) } :=
    (hs'.mono (below_added hg i node)).mono (below_avails { t with avails := _ } t.avails)
  have hr₀ : Rep m { t with avails := t.avails ||| (1 <<< g) } := ⟨hr.rings, hr.bytes⟩
  have hg' : g < t.llistsLen := by rw [← hs.slen]; exact hg
  have hs₁ := hs'.mono (below_flipBit _ i)
  obtain ⟨hr₁, honly₁⟩ := insert_step hr₀ hs hg' hs₁
  obtain ⟨m', hrun, hr', honly'⟩ := toggleBitflag_sim hs₁ hr₁ hi
  refine ⟨m', ?_, hr', ?_⟩
  · show (((t.on m).getSentinel g >>= fun s => Except.ok (Llist.new m node s (Llist.next m s))) >>=
      _) = _
    rw [getSentinel_on hg']
    exact hrun
  · exact (honly₁.mono fun x => (below_flipBit _ i).books).trans
      (honly'.mono fun x hx => (below_flipBit _ i).books (Or.inl hx))

/-- Unlinking a node and toggling its bit, with `avails` already set. -/
theorem unlink_toggle (hr : Rep m t) (hs : Sep t) (hb : node ∈ t.list g)
    (hi : i / 8 < t.store.bitmap.length) :
    ∃ m', ((t.on (Llist.remove m node)).toggleBitflag i
        = .ok (((t.setList g ((t.list g).erase node)).flipBit i).on m')) ∧
      Rep m' ((t.setList g ((t.list g).erase node)).flipBit i) ∧ Only t.Books m m' := by
  have hg := lt_of_mem_list hb
  obtain ⟨hr₁, honly₁⟩ := unlink_step hr hs hb
  have hs₁ := hs.mono (setList_below hg (l := (t.list g).erase node) List.erase_sublist)
  obtain ⟨m', hrun, hr', honly'⟩ := toggleBitflag_sim hs₁ hr₁ hi
  exact ⟨m', hrun, hr', honly₁.trans (honly'.mono fun x hx => Or.inl hx)⟩

/-- `remove_block` in memory. -/
theorem removeBlock_sim (hr : Rep m t) (hs : Sep t) (hb : node ∈ t.list g)
    (hi : i / 8 < t.store.bitmap.length) :
    ∃ m', (t.on m).removeBlock g i node = .ok ((t.removed g i node).on m') ∧
      Rep m' (t.removed g i node) ∧ Only t.Books m m' := by
  have hg' : g < t.llistsLen := by rw [← hs.slen]; exact lt_of_mem_list hb
  have hsole : Store.nodeSole (t.on m) g node = .ok (decide ((t.list g).length ≤ 1)) := by
    show Except.ok (decide (Llist.prev m node = Llist.next m node)) = _
    rw [decide_eq_decide.mpr ((hr.rings hg').node_sole (hs.spread hg') hb)]
  unfold removeBlock removed
  rw [hsole]
  by_cases hl : (t.list g).length ≤ 1
  · rw [if_pos hl]
    obtain ⟨m', hrun, hr', honly⟩ := unlink_toggle (t := t.clearAvail g) (i := i)
      ⟨hr.rings, hr.bytes⟩ (hs.mono (below_avails (t.clearAvail g) t.avails)) hb hi
    refine ⟨m', ?_, hr', honly⟩
    simp only [hl, decide_true]
    exact hrun
  · rw [if_neg hl]
    obtain ⟨m', hrun, hr', honly⟩ := unlink_toggle hr hs hb hi
    refine ⟨m', ?_, hr', honly⟩
    simp only [hl, decide_false]
    exact hrun

/-- The first node is read in memory. -/
theorem sentinelNext_sim {l : List Int} (hr : Rep m t) (hg : g < t.llistsLen)
    (hl : t.list g = node :: l) : Store.sentinelNext (t.on m) g = .ok node := by
  show ((t.on m).getSentinel g >>= fun s => Except.ok (Llist.next m s)) = _
  rw [getSentinel_on hg]
  show Except.ok _ = _
  rw [(hr.rings hg).next_sentinel]
  simp [hl]

/-- `remove_block_next` in memory. -/
theorem removeBlockNext_sim {size : Nat} {l : List Int} (hr : Rep m t) (hs : Sep t)
    (hl : t.list g = node :: l) (hoff : t.bitmapOffset node size = .ok i)
    (hi : i / 8 < t.store.bitmap.length) :
    ∃ m', (t.on m).removeBlockNext g size = .ok (node, (t.removed g i node).on m') ∧
      Rep m' (t.removed g i node) ∧ Only t.Books m m' := by
  have hb : node ∈ t.list g := by rw [hl]; exact List.mem_cons_self
  have hg' : g < t.llistsLen := by rw [← hs.slen]; exact lt_of_mem_list hb
  have hsole : Store.sentinelSole (t.on m) g = .ok (decide ((t.list g).length ≤ 1)) := by
    show ((t.on m).getSentinel g >>= fun s =>
      Except.ok (decide (Llist.prev m s = Llist.next m s))) = _
    rw [getSentinel_on hg']
    show Except.ok _ = _
    rw [decide_eq_decide.mpr ((hr.rings hg').sentinel_sole (hs.spread hg'))]
  unfold removeBlockNext removed
  rw [hsole]
  -- the bit of the list is cleared before the last node is unlinked
  by_cases hlen : (t.list g).length ≤ 1
  · rw [if_pos hlen]
    obtain ⟨m', hrun, hr', honly⟩ := unlink_toggle (t := t.clearAvail g) (i := i)
      ⟨hr.rings, hr.bytes⟩ (hs.mono (below_avails (t.clearAvail g) t.avails)) hb hi
    refine ⟨m', ?_, hr', honly⟩
    simp only [hlen, decide_true]
    show (Store.sentinelNext ((t.clearAvail g).on m) g >>= _) = _
    rw [sentinelNext_sim (t := t.clearAvail g) ⟨hr.rings, hr.bytes⟩ hg' hl]
    show (t.bitmapOffset node size >>= _) = _
    rw [hoff]
    show ((((t.clearAvail g).on (Llist.remove m node)).toggleBitflag i) >>= _) = _
    rw [hrun]
    rfl
  · rw [if_neg hlen]
    obtain ⟨m', hrun, hr', honly⟩ := unlink_toggle hr hs hb hi
    refine ⟨m', ?_, hr', honly⟩
    simp only [hlen, decide_false]
    show (Store.sentinelNext (t.on m) g >>= _) = _
    rw [sentinelNext_sim hr hg' hl]
    show (t.bitmapOffset node size >>= _) = _
    rw [hoff]
    show (((t.on (Llist.remove m node)).toggleBitflag i) >>= _) = _
    rw [hrun]
    rfl

end Steps

/-! ## What a step that returned did -/

section Inversion

variable {g i size : Nat} {node : Int}

/-- A flip that returned was of a bit in the bitmap. -/
theorem toggleBitflag_ok (h : t.toggleBitflag i = .ok t') :
    i / 8 < t.store.bitmap.length ∧ t' = t.flipBit i := by
  by_cases hi : i / 8 < t.store.bitmap.length
  · rw [toggleBitflag_eq hi] at h
    cases h
    exact ⟨hi, rfl⟩
  · have hnone : t.store.bitmap[i / 8]? = none := List.getElem?_eq_none (by omega)
    obtain ⟨v, hv, _⟩ := bind_ok h
    have hv' : getByte t.store.bitmap (i >>> 3) = .ok v := hv
    rw [shiftRight_three, getByte, hnone] at hv'
    cases hv'

/-- A list that was found is there. -/
theorem get_ok {l : List Int} (h : t.store.get g = .ok l) : g < t.store.llists.length := by
  by_contra hg
  unfold FreeLists.get at h
  rw [List.getElem?_eq_none (by omega)] at h
  cases h

/-- A first node that was found is there. -/
theorem sentinelNext_ok (h : Store.sentinelNext t g = .ok node) : ∃ l, t.list g = node :: l := by
  obtain ⟨l, hl, h⟩ := bind_ok h
  rw [get_of_lt (get_ok hl)] at hl
  have hl' : t.list g = l := by cases hl; rfl
  cases l with
  | nil => cases h
  | cons b l =>
    cases h
    exact ⟨l, hl'⟩

/-- What a call that returned has added. -/
theorem addBlockNext_ok (h : t.addBlockNext g i node = .ok t') :
    g < t.store.llists.length ∧ i / 8 < t.store.bitmap.length ∧ t' = t.added g i node := by
  obtain ⟨s, hins, htog⟩ := bind_ok h
  obtain ⟨l, hl, _⟩ := bind_ok hins
  have hg := get_ok (t := { t with avails := _ }) hl
  rw [insertNext_eq (t := { t with avails := t.avails ||| (1 <<< g) }) hg] at hins
  cases hins
  obtain ⟨hi, rfl⟩ := toggleBitflag_ok htog
  exact ⟨hg, hi, rfl⟩

/-- What a call that returned has removed. -/
theorem removeBlock_ok (h : t.removeBlock g i node = .ok t') :
    node ∈ t.list g ∧ i / 8 < t.store.bitmap.length ∧ t' = t.removed g i node := by
  have hb : node ∈ t.list g := by
    by_contra hb
    rw [removeBlock_of_not_mem hb] at h
    cases h
  obtain ⟨sole, _, hrest⟩ := bind_ok h
  obtain ⟨s, hun, htog⟩ := bind_ok hrest
  have hi : i / 8 < t.store.bitmap.length := by
    cases sole with
    | true =>
      have hun' : Store.unlink (t.clearAvail g) g node = .ok s := hun
      rw [unlink_eq (t := t.clearAvail g) hb] at hun'
      cases hun'
      exact (toggleBitflag_ok htog).1
    | false =>
      have hun' : Store.unlink t g node = .ok s := hun
      rw [unlink_eq hb] at hun'
      cases hun'
      exact (toggleBitflag_ok htog).1
  rw [removeBlock_eq hb hi] at h
  cases h
  exact ⟨hb, hi, rfl⟩

/-- It was the first block of its list. -/
theorem removeBlockNext_ok {r : Int × Talloc FreeLists} (h : t.removeBlockNext g size = .ok r) :
    ∃ node l i, t.list g = node :: l ∧ t.bitmapOffset node size = .ok i ∧
      i / 8 < t.store.bitmap.length ∧ r = (node, t.removed g i node) := by
  have hrun := h
  obtain ⟨sole, _, h⟩ := bind_ok h
  obtain ⟨node, hnode, h⟩ := bind_ok h
  obtain ⟨s, hun, h⟩ := bind_ok h
  obtain ⟨i, hoff, h⟩ := bind_ok h
  obtain ⟨t₁, htog, h⟩ := bind_ok h
  cases h
  -- the test for a single node changes `avails` only
  obtain ⟨avails, hsame⟩ : ∃ avails, (if sole then t.clearAvail g else t) = { t with avails } := by
    cases sole
    · exact ⟨t.avails, rfl⟩
    · exact ⟨(t.clearAvail g).avails, rfl⟩
  rw [hsame] at hnode hun hoff htog
  obtain ⟨l, hl⟩ := sentinelNext_ok (t := { t with avails }) hnode
  have hl' : t.list g = node :: l := hl
  have hb : node ∈ t.list g := by rw [hl']; exact List.mem_cons_self
  rw [unlink_eq (t := { t with avails }) hb] at hun
  cases hun
  have hi := (toggleBitflag_ok htog).1
  rw [removeBlockNext_eq hl' hoff hi] at hrun
  cases hrun
  exact ⟨node, l, i, hl', hoff, hi, rfl⟩

end Inversion

/-! ## The loops in memory -/

/-- One merge of `dealloc` in memory. -/
theorem takeBuddy_sim {g i size : Nat} {p : Int} {r : Int × Talloc FreeLists} (hr : Rep m t)
    (hs : Sep t) (h : t.takeBuddy g i p size = .ok r) :
    ∃ m', (t.on m).takeBuddy g i p size = .ok (r.1, r.2.on m') ∧ Rep m' r.2 ∧ Only t.Books m m' ∧
      Below r.2 t := by
  unfold takeBuddy at h ⊢
  generalize (if isLowerBuddy p size then (wrappingAdd p size, p)
    else (wrappingSub p size, wrappingSub p size)) = ptrs at h ⊢
  obtain ⟨b, q⟩ := ptrs
  obtain ⟨u, hrem, h⟩ := bind_ok h
  cases h
  obtain ⟨hb, hi, rfl⟩ := removeBlock_ok hrem
  obtain ⟨m', hrun, hr', honly⟩ := removeBlock_sim hr hs hb hi
  refine ⟨m', ?_, hr', honly, removed_below (lt_of_mem_list hb) i _⟩
  dsimp only
  rw [hrun]
  rfl

/-- The loop of `dealloc` in memory. -/
theorem deallocLoop_sim : ∀ (g : Nat) {p : Int} {size : Nat} {t t' : Talloc FreeLists} {m : Mem},
    deallocLoop g p size t = .ok t' → Rep m t → Sep t → Sep t' →
    ∃ m', deallocLoop g p size (t.on m) = .ok (t'.on m') ∧ Rep m' t' ∧
      Only (fun x => t.Books x ∨ t'.Books x) m m' := by
  intro g
  induction g with
  | zero =>
    intro p size t t' m h hr hs hs'
    obtain ⟨i, hoff, h⟩ := bind_ok h
    obtain ⟨set, hset, h⟩ := bind_ok h
    cases set with
    | true =>
      obtain ⟨_, _, h⟩ := bind_ok h
      cases h
    | false =>
      obtain ⟨hg, hi, rfl⟩ := addBlockNext_ok h
      obtain ⟨m', hrun, hr', honly⟩ := addBlockNext_sim hr hg hi hs'
      refine ⟨m', ?_, hr', honly.mono fun x => Or.inr⟩
      dsimp only [deallocLoop]
      rw [show (t.on m).bitmapOffset p size = .ok i from hoff]
      show ((t.on m).readBitflag i >>= _) = _
      rw [readBitflag_sim hs hr, hset]
      exact hrun
  | succ g ih =>
    intro p size t t' m h hr hs hs'
    obtain ⟨i, hoff, h⟩ := bind_ok h
    obtain ⟨set, hset, h⟩ := bind_ok h
    cases set with
    -- the buddy is unlinked, and the loop goes on with the parent
    | true =>
      obtain ⟨⟨q, t₁⟩, htake, h⟩ := bind_ok h
      obtain ⟨m₁, hrun₁, hr₁, honly₁, hle⟩ := takeBuddy_sim hr hs htake
      obtain ⟨m', hrun, hr', honly⟩ := ih h hr₁ (hs.mono hle) hs'
      refine ⟨m', ?_, hr', (honly₁.mono fun x => Or.inl).trans (honly.mono fun x hx => ?_)⟩
      · have hoff' : (t.on m).bitmapOffset p size = .ok i := hoff
        simp only [deallocLoop, hoff', readBitflag_sim hs hr, hset, hrun₁, ok_bind, if_true]
        exact hrun
      · exact hx.imp_left hle.books
    | false =>
      obtain ⟨hg, hi, rfl⟩ := addBlockNext_ok h
      obtain ⟨m', hrun, hr', honly⟩ := addBlockNext_sim hr hg hi hs'
      refine ⟨m', ?_, hr', honly.mono fun x => Or.inr⟩
      dsimp only [deallocLoop]
      rw [show (t.on m).bitmapOffset p size = .ok i from hoff]
      show ((t.on m).readBitflag i >>= _) = _
      rw [readBitflag_sim hs hr, hset]
      exact hrun

/-- `dealloc` in memory. -/
theorem dealloc_sim {p : Int} {l : Layout} (h : t.dealloc p l = .ok t') (hr : Rep m t) (hs : Sep t)
    (hs' : Sep t') : ∃ m', (t.on m).dealloc p l = .ok (t'.on m') ∧ Rep m' t' ∧
      Only (fun x => t.Books x ∨ t'.Books x) m m' := by
  obtain ⟨g, hg, h⟩ := bind_ok h
  obtain ⟨m', hrun, hr', honly⟩ := deallocLoop_sim g h hr hs hs'
  refine ⟨m', ?_, hr', honly⟩
  show (t.blockGranularity (t.layoutToSize l) >>= _) = _
  rw [hg]
  exact hrun

/-- Breaking a block down only adds to the lists. -/
theorem breakDown_below {base : Int} : ∀ (count : Nat) {g size : Nat} {t t' : Talloc FreeLists},
    breakDown base count g size t = .ok t' → Below t t' := by
  intro count
  induction count with
  | zero =>
    intro g size t t' h
    cases h
    exact Below.refl t
  | succ count ih =>
    intro g size t t' h
    obtain ⟨i, _, h⟩ := bind_ok h
    obtain ⟨t₁, hadd, h⟩ := bind_ok h
    obtain ⟨hg, _, rfl⟩ := addBlockNext_ok hadd
    exact (below_added hg i _).trans (ih h)

/-- The loop of `alloc` that splits a block, in memory. -/
theorem breakDown_sim {base : Int} :
    ∀ (count : Nat) {g size : Nat} {t t' : Talloc FreeLists} {m : Mem},
    breakDown base count g size t = .ok t' → Rep m t → Sep t' →
    ∃ m', breakDown base count g size (t.on m) = .ok (t'.on m') ∧ Rep m' t' ∧
      Only t'.Books m m' := by
  intro count
  induction count with
  | zero =>
    intro g size t t' m h hr _
    cases h
    exact ⟨m, rfl, hr, Only.refl _ m⟩
  | succ count ih =>
    intro g size t t' m h hr hs'
    obtain ⟨i, hoff, h⟩ := bind_ok h
    obtain ⟨t₁, hadd, h⟩ := bind_ok h
    obtain ⟨hg, hi, rfl⟩ := addBlockNext_ok hadd
    have hle := breakDown_below count h
    obtain ⟨m₁, hrun₁, hr₁, honly₁⟩ := addBlockNext_sim hr hg hi (hs'.mono hle)
    obtain ⟨m', hrun, hr', honly⟩ := ih h hr₁ hs'
    refine ⟨m', ?_, hr', (honly₁.mono fun x => hle.books).trans honly⟩
    dsimp only [breakDown]
    rw [show (t.on m).bitmapOffset _ size = .ok i from hoff]
    show ((t.on m).addBlockNext g i _ >>= _) = _
    rw [hrun₁]
    exact hrun

/-- `shrink` in memory. -/
theorem shrink_sim {p : Int} {old new : Layout} (h : t.shrink p old new = .ok t') (hr : Rep m t)
    (hs' : Sep t') : ∃ m', (t.on m).shrink p old new = .ok (t'.on m') ∧ Rep m' t' ∧
      Only t'.Books m m' := by
  unfold shrink at h ⊢
  dsimp only at h ⊢
  by_cases heq : t.layoutToSize old = t.layoutToSize new
  · rw [if_pos heq] at h
    cases h
    refine ⟨m, ?_, hr, Only.refl _ m⟩
    rw [show (t.on m).toArena = t.toArena from rfl, if_pos heq]
    rfl
  · rw [if_neg heq] at h
    obtain ⟨g, hg, h⟩ := bind_ok h
    obtain ⟨g', hg', h⟩ := bind_ok h
    obtain ⟨m', hrun, hr', honly⟩ := breakDown_sim _ h hr hs'
    refine ⟨m', ?_, hr', honly⟩
    rw [show (t.on m).toArena = t.toArena from rfl, if_neg heq, hg]
    show (t.blockGranularity (t.layoutToSize new) >>= _) = _
    rw [hg']
    exact hrun

end Talloc

end Tauos.Memm
