import Tauos.Memm.Talloc

/-!
# The representation invariant of `Talloc` and its elementary steps

`Inv K J t` ties the three redundant records of a naturally aligned `Talloc`
together. The blocks in the lists form a `Canonical` family inside the arena
(aligned, pairwise apart, never both buddies of a pair); `avails` says which
lists are occupied; and a bit of the bitmap is set exactly when it is the bit of
some listed block, that is, of a pair with exactly one listed half. Bit 0
belongs to no pair, and nothing is said about it. The list of granularity 0
stays empty: the status data is inside the arena, so the whole arena is never
free.

Everything the allocator does to the lists goes through `added` (what
`add_block_next` leaves) and `removed` (what `remove_block` and
`remove_block_next` leave). `added_inv` and `removed_inv` are the only places
where the invariant is taken apart; the loops above them work with
`Covers (t.FreeBlock K)`, the set of free addresses.
-/

namespace Tauos.Memm.Talloc

open Tauos.Rust Tauos.Utils Tauos.Buddy

variable {K J : Nat} {t : Talloc FreeLists}

/-- The bases in the free list of granularity `g`. -/
def list (t : Talloc FreeLists) (g : Nat) : List Int := t.store.llists.getD g []

/-- The block of exponent `e` at `b` is in its free list. -/
def FreeBlock (t : Talloc FreeLists) (K e : Nat) (b : Int) : Prop := e ≤ K ∧ b ∈ t.list (K - e)

/-- The representation invariant of a naturally aligned `Talloc`. -/
structure Inv (K J : Nat) (t : Talloc FreeLists) : Prop where
  nat : Natural t.toArena K J
  llen : t.llistsLen = K - J + 1
  slen : t.store.llists.length = K - J + 1
  blen : t.bitmapLen = max (2 ^ (K - J + 1) / 8) 1
  sblen : t.store.bitmap.length = t.bitmapLen
  nodup : ∀ g, (t.list g).Nodup
  holds : ∀ {e b}, t.FreeBlock K e b → t.Holds e b
  canon : Canonical (t.FreeBlock K)
  top : t.list 0 = []
  avail : ∀ g, t.avails.testBit g = true ↔ t.list g ≠ []
  bits : ∀ i, i ≠ 0 → (getBit t.store.bitmap i = true ↔
    ∃ e b, e < K ∧ t.FreeBlock K e b ∧ i = bitIndex K t.arenaBase e b)

/-! ## Explicit results of the elementary steps -/

/-- Replace the contents of list `g`. -/
def setList (t : Talloc FreeLists) (g : Nat) (l : List Int) : Talloc FreeLists :=
  { t with store := { t.store with llists := t.store.llists.set g l } }

/-- Toggle bit `i` of the bitmap. -/
def flipBit (t : Talloc FreeLists) (i : Nat) : Talloc FreeLists :=
  { t with store := { t.store with
      bitmap := t.store.bitmap.set (i / 8) (t.store.bitmap.getD (i / 8) 0 ^^^ (1#8 <<< (i % 8))) } }

/-- What `add_block_next` leaves. -/
def added (t : Talloc FreeLists) (g i : Nat) (node : Int) : Talloc FreeLists :=
  flipBit (setList { t with avails := t.avails ||| (1 <<< g) } g (node :: t.list g)) i

/-- What `remove_block` and `remove_block_next` leave. -/
def removed (t : Talloc FreeLists) (g i : Nat) (node : Int) : Talloc FreeLists :=
  flipBit (setList (if (t.list g).length ≤ 1 then t.clearAvail g else t) g ((t.list g).erase node))
    i

/-- A list of the heap is found. -/
theorem get_of_lt {s : FreeLists} {g : Nat} (h : g < s.llists.length) :
    s.get g = .ok (s.llists.getD g []) := by
  unfold FreeLists.get
  rw [List.getD_eq_getElem?_getD, List.getElem?_eq_getElem h]
  rfl

theorem shiftRight_three (i : Nat) : i >>> 3 = i / 8 := Nat.shiftRight_eq_div_pow i 3

theorem and_seven (i : Nat) : i &&& 7 = i % 8 := Nat.and_two_pow_sub_one_eq_mod i 3

/-- A bit in the bitmap is read. -/
theorem readBitflag_eq {i : Nat} (h : i / 8 < t.store.bitmap.length) :
    t.readBitflag i = .ok (getBit t.store.bitmap i) := by
  show (getByte t.store.bitmap (i >>> 3) >>= fun data =>
    Except.ok ((data &&& (1#8 <<< (i &&& 7))) != 0)) = _
  rw [shiftRight_three, and_seven, getByte_of_lt h]
  show Except.ok _ = _
  rw [and_one_shiftLeft_ne_zero _ (Nat.mod_lt _ (by norm_num))]
  rfl

/-- And flipped. -/
theorem toggleBitflag_eq {i : Nat} (h : i / 8 < t.store.bitmap.length) :
    t.toggleBitflag i = .ok (t.flipBit i) := by
  show (getByte t.store.bitmap (i >>> 3) >>= fun data =>
    ((setByte t.store.bitmap (i >>> 3) (data ^^^ (1#8 <<< (i &&& 7))) >>= fun bm =>
      Except.ok { t.store with bitmap := bm }) >>= fun store =>
        Except.ok { t with store })) = _
  rw [shiftRight_three, and_seven, getByte_of_lt h]
  show ((setByte _ _ _ >>= _) >>= _) = _
  rw [setByte_of_lt h]
  rfl

/-- Only the lists of the heap have nodes. -/
theorem lt_of_mem_list {g : Nat} {node : Int} (h : node ∈ t.list g) :
    g < t.store.llists.length := by
  by_contra hcon
  unfold list at h
  rw [List.getD_eq_getElem?_getD, List.getElem?_eq_none (by omega)] at h
  simp at h

/-- A node is put in front. -/
theorem insertNext_eq {g : Nat} (hg : g < t.store.llists.length) (node : Int) :
    Store.insertNext t g node = .ok (t.setList g (node :: t.list g)).store := by
  show (t.store.get g >>= fun l =>
    (Except.ok { t.store with llists := t.store.llists.set g (node :: l) } :
      Except Fault FreeLists)) = _
  rw [get_of_lt hg]
  rfl

/-- A node is taken out. -/
theorem unlink_eq {g : Nat} {node : Int} (h : node ∈ t.list g) :
    Store.unlink t g node = .ok (t.setList g ((t.list g).erase node)).store := by
  show (t.store.get g >>= fun l => if node ∈ l then
    (Except.ok { t.store with llists := t.store.llists.set g (l.erase node) } :
      Except Fault FreeLists) else .error .undefined) = _
  rw [get_of_lt (lt_of_mem_list h)]
  exact if_pos h

/-- Whether a node is the only one. -/
theorem nodeSole_eq {g : Nat} {node : Int} (h : node ∈ t.list g) :
    Store.nodeSole t g node = .ok (decide ((t.list g).length ≤ 1)) := by
  show (t.store.get g >>= fun l => if node ∈ l then
    (Except.ok (decide (l.length ≤ 1)) : Except Fault Bool) else .error .undefined) = _
  rw [get_of_lt (lt_of_mem_list h)]
  exact if_pos h

/-- A node outside the list of its granularity is outside the contract of `remove_block`. -/
theorem nodeSole_of_not_mem {g : Nat} {node : Int} (h : node ∉ t.list g) :
    Store.nodeSole t g node = .error .undefined := by
  show (t.store.get g >>= fun l => if node ∈ l then
    (Except.ok (decide (l.length ≤ 1)) : Except Fault Bool) else .error .undefined) = _
  rcases Nat.lt_or_ge g t.store.llists.length with hg | hg
  · rw [get_of_lt hg]
    exact if_neg h
  · unfold FreeLists.get
    rw [List.getElem?_eq_none hg]
    rfl

/-- Whether there is at most one. -/
theorem sentinelSole_eq {g : Nat} (hg : g < t.store.llists.length) :
    Store.sentinelSole t g = .ok (decide ((t.list g).length ≤ 1)) := by
  show (t.store.get g >>= fun l => (Except.ok (decide (l.length ≤ 1)) : Except Fault Bool)) = _
  rw [get_of_lt hg]
  rfl

/-- The first node. -/
theorem sentinelNext_eq {g : Nat} {node : Int} {l : List Int} (hl : t.list g = node :: l) :
    Store.sentinelNext t g = .ok node := by
  have hmem : node ∈ t.list g := by rw [hl]; exact List.mem_cons_self ..
  show (t.store.get g >>= _) = _
  rw [get_of_lt (lt_of_mem_list hmem), show t.store.llists.getD g [] = node :: l from hl]
  rfl

/-- `add_block_next` returns. -/
theorem addBlockNext_eq {g i : Nat} (hg : g < t.store.llists.length)
    (hi : i / 8 < t.store.bitmap.length) (node : Int) :
    t.addBlockNext g i node = .ok (t.added g i node) := by
  show (Store.insertNext { t with avails := t.avails ||| (1 <<< g) } g node >>= _) = _
  rw [insertNext_eq (t := { t with avails := t.avails ||| (1 <<< g) }) hg]
  exact toggleBitflag_eq hi

/-- `remove_block` of a block that is there returns. -/
theorem removeBlock_eq {g i : Nat} {node : Int} (hmem : node ∈ t.list g)
    (hi : i / 8 < t.store.bitmap.length) :
    t.removeBlock g i node = .ok (t.removed g i node) := by
  unfold removeBlock removed
  rw [nodeSole_eq hmem]
  show (Store.unlink (if decide ((t.list g).length ≤ 1) then t.clearAvail g else t) g node >>= _) =
    _
  by_cases hl : (t.list g).length ≤ 1
  · simp only [hl, decide_true, if_true]
    rw [unlink_eq (t := t.clearAvail g) hmem]
    exact toggleBitflag_eq hi
  · simp only [hl, decide_false, if_false, Bool.false_eq_true]
    rw [unlink_eq hmem]
    exact toggleBitflag_eq hi

/-- Of another block it is undefined. -/
theorem removeBlock_of_not_mem {g i : Nat} {node : Int} (h : node ∉ t.list g) :
    t.removeBlock g i node = .error .undefined := by
  unfold removeBlock
  rw [nodeSole_of_not_mem h]
  rfl

/-- Taking the first block of a list is removing it. -/
theorem removeBlockNext_eq {g size i : Nat} {node : Int} {l : List Int} (hl : t.list g = node :: l)
    (hoff : t.bitmapOffset node size = .ok i) (hi : i / 8 < t.store.bitmap.length) :
    t.removeBlockNext g size = .ok (node, t.removed g i node) := by
  have hmem : node ∈ t.list g := by rw [hl]; exact List.mem_cons_self ..
  unfold removeBlockNext removed
  rw [sentinelSole_eq (lt_of_mem_list hmem)]
  show (Store.sentinelNext (if decide ((t.list g).length ≤ 1) then t.clearAvail g else t) g >>= _) =
    _
  by_cases hlen : (t.list g).length ≤ 1
  · simp only [hlen, decide_true, if_true]
    rw [sentinelNext_eq (t := t.clearAvail g) hl]
    show (Store.unlink (t.clearAvail g) g node >>= _) = _
    rw [unlink_eq (t := t.clearAvail g) hmem]
    show (t.bitmapOffset node size >>= _) = _
    rw [hoff]
    show (toggleBitflag ((t.clearAvail g).setList g ((t.list g).erase node)) i >>=
      fun t' => Except.ok (node, t')) = _
    rw [toggleBitflag_eq (t := (t.clearAvail g).setList g ((t.list g).erase node)) hi]
    rfl
  · simp only [hlen, decide_false, if_false, Bool.false_eq_true]
    rw [sentinelNext_eq hl]
    show (Store.unlink t g node >>= _) = _
    rw [unlink_eq hmem]
    show (t.bitmapOffset node size >>= _) = _
    rw [hoff]
    show (toggleBitflag (t.setList g ((t.list g).erase node)) i >>=
      fun t' => Except.ok (node, t')) = _
    rw [toggleBitflag_eq (t := t.setList g ((t.list g).erase node)) hi]
    rfl

/-! ## How the steps change lists, bits and `avails` -/

/-- One list is new, the others are as before. -/
theorem list_setList {g : Nat} (hg : g < t.store.llists.length) (l : List Int) (g' : Nat) :
    (t.setList g l).list g' = if g' = g then l else t.list g' := by
  unfold list setList
  rw [List.getD_eq_getElem?_getD, List.getD_eq_getElem?_getD, List.getElem?_set]
  by_cases h : g = g'
  · subst h
    simp [hg]
  · simp [h, Ne.symm h]

/-- The lists with a block more. -/
theorem list_added {g i : Nat} {node : Int} (hg : g < t.store.llists.length) (g' : Nat) :
    (t.added g i node).list g' = if g' = g then node :: t.list g else t.list g' :=
  list_setList (t := { t with avails := t.avails ||| (1 <<< g) }) hg _ g'

/-- The lists with a block less. -/
theorem list_removed {g i : Nat} {node : Int} (hg : g < t.store.llists.length) (g' : Nat) :
    (t.removed g i node).list g' = if g' = g then (t.list g).erase node else t.list g' := by
  by_cases hl : (t.list g).length ≤ 1
  · unfold removed
    rw [if_pos hl]
    exact list_setList (t := t.clearAvail g) hg _ g'
  · unfold removed
    rw [if_neg hl]
    exact list_setList hg _ g'

/-- The bits after a flip. -/
theorem getBit_flipBit {i : Nat} (hi : i / 8 < t.store.bitmap.length) (j : Nat) :
    getBit (t.flipBit i).store.bitmap j = (getBit t.store.bitmap j ^^ decide (i = j)) :=
  getBit_toggle hi j

/-- The bits with a block more. -/
theorem getBit_added {g i : Nat} {node : Int} (hi : i / 8 < t.store.bitmap.length) (j : Nat) :
    getBit (t.added g i node).store.bitmap j = (getBit t.store.bitmap j ^^ decide (i = j)) :=
  getBit_flipBit (t := setList { t with avails := t.avails ||| (1 <<< g) } g (node :: t.list g))
    hi j

theorem removed_eq {g i : Nat} {node : Int} : t.removed g i node
    = flipBit (setList { t with avails := (t.removed g i node).avails } g ((t.list g).erase node))
    i := by
  by_cases hl : (t.list g).length ≤ 1
  · unfold removed
    rw [if_pos hl]
    rfl
  · unfold removed
    rw [if_neg hl]
    rfl

/-- The bits with a block less. -/
theorem getBit_removed {g i : Nat} {node : Int} (hi : i / 8 < t.store.bitmap.length) (j : Nat) :
    getBit (t.removed g i node).store.bitmap j = (getBit t.store.bitmap j ^^ decide (i = j)) := by
  rw [removed_eq]
  exact getBit_flipBit (t := setList { t with avails := _ } g ((t.list g).erase node)) hi j

/-- The list of the block is not empty. -/
theorem avails_added {g i : Nat} {node : Int} (k : Nat) :
    (t.added g i node).avails.testBit k = (t.avails.testBit k || decide (g = k)) := by
  show (t.avails ||| (1 <<< g)).testBit k = _
  rw [Nat.testBit_or, Nat.one_shiftLeft, Nat.testBit_two_pow]

/-- One list is marked as empty. -/
theorem avails_clearAvail {g : Nat} (k : Nat) (hk : k < 64) :
    (t.clearAvail g).avails.testBit k = (t.avails.testBit k && !decide (g = k)) := by
  show (t.avails &&& ((2 ^ 64 - 1) ^^^ (1 <<< g))).testBit k = _
  rw [Nat.testBit_and, Nat.testBit_xor, Nat.testBit_two_pow_sub_one, Nat.one_shiftLeft,
    Nat.testBit_two_pow]
  simp [hk]

/-- The free blocks with one more. -/
theorem freeBlock_added {e i : Nat} {b : Int} (heK : e ≤ K) (hg : K - e < t.store.llists.length)
    (e' : Nat) (b' : Int) :
    (t.added (K - e) i b).FreeBlock K e' b' ↔ (e' = e ∧ b' = b) ∨ t.FreeBlock K e' b' := by
  unfold FreeBlock
  rw [list_added hg]
  by_cases h : K - e' = K - e
  · rw [if_pos h, h, List.mem_cons]
    constructor
    · rintro ⟨hle, hb | hb⟩
      · exact Or.inl ⟨by omega, hb⟩
      · exact Or.inr ⟨hle, hb⟩
    · rintro (⟨he, hb⟩ | ⟨hle, hb⟩)
      · exact ⟨by omega, Or.inl hb⟩
      · exact ⟨hle, Or.inr hb⟩
  · rw [if_neg h]
    constructor
    · exact Or.inr
    · rintro (⟨he, _⟩ | hb)
      · exact absurd (by rw [he]) h
      · exact hb

/-- The free blocks with one less. -/
theorem freeBlock_removed {e i : Nat} {b : Int} (hb : t.FreeBlock K e b)
    (hnd : (t.list (K - e)).Nodup) (e' : Nat) (b' : Int) :
    (t.removed (K - e) i b).FreeBlock K e' b' ↔ t.FreeBlock K e' b' ∧ ¬ (e' = e ∧ b' = b) := by
  obtain ⟨heK, hmem⟩ := hb
  unfold FreeBlock
  rw [list_removed (lt_of_mem_list hmem)]
  by_cases h : K - e' = K - e
  · rw [if_pos h, h, hnd.mem_erase_iff]
    constructor
    · rintro ⟨hle, hne, hb⟩
      exact ⟨⟨hle, hb⟩, fun hc => hne hc.2⟩
    · rintro ⟨⟨hle, hb⟩, hne⟩
      exact ⟨hle, fun hc => hne ⟨by omega, hc⟩, hb⟩
  · rw [if_neg h]
    constructor
    · intro hb
      exact ⟨hb, fun hc => h (by rw [hc.1])⟩
    · exact And.left

/-! ## Consequences of the invariant -/

/-- A free block is in a list of the heap. -/
theorem FreeBlock.lt_length {e : Nat} {b : Int} (h : t.FreeBlock K e b) :
    K - e < t.store.llists.length := lt_of_mem_list h.2

/-- No free block is smaller than the smallest. -/
theorem Inv.le_exp (h : Inv K J t) {e : Nat} {b : Int} (hb : t.FreeBlock K e b) : J ≤ e := by
  have h1 := hb.lt_length
  have h2 := h.slen
  have h3 := h.nat.hJK
  have := hb.1
  omega

/-- None is as large as the arena. -/
theorem Inv.exp_lt (h : Inv K J t) {e : Nat} {b : Int} (hb : t.FreeBlock K e b) : e < K := by
  obtain ⟨h1, h2⟩ := hb
  by_contra hcon
  rw [show K - e = 0 by omega, h.top] at h2
  simp at h2

/-- Every listed block, with its exponent. -/
theorem Inv.freeBlock_of_mem (h : Inv K J t) {g : Nat} {b : Int} (hb : b ∈ t.list g) :
    g ≤ K ∧ t.FreeBlock K (K - g) b := by
  have h1 := lt_of_mem_list hb
  have h2 := h.slen
  have h3 := h.nat.hJK
  exact ⟨by omega, by omega, by rw [show K - (K - g) = g by omega]; exact hb⟩

/-- Each size has its list. -/
theorem Inv.idx_lt (h : Inv K J t) {e : Nat} (hJ : J ≤ e) : K - e < t.store.llists.length := by
  have := h.slen
  omega

/-- Bits of blocks of the power-of-two span are inside the bitmap. -/
theorem Inv.bit_lt_of_span (h : Inv K J t) {e : Nat} {b : Int} (hJ : J ≤ e) (he : e < K)
    (hb : t.arenaBase ≤ b) (hb' : b < t.arenaBase + 2 ^ K) :
    bitIndex K t.arenaBase e b / 8 < t.store.bitmap.length := by
  obtain ⟨_, hlt⟩ := bitIndex_bounds he hb hb'
  have hle : 2 ^ (K - e) ≤ 2 ^ (K - J + 1) := Nat.pow_le_pow_right (by norm_num) (by omega)
  rw [h.sblen, h.blen]
  generalize bitIndex K t.arenaBase e b = i at hlt
  rcases Nat.lt_or_ge (K - J + 1) 3 with hs | hs
  · have : 2 ^ (K - J + 1) ≤ 2 ^ 2 := Nat.pow_le_pow_right (by norm_num) (by omega)
    omega
  · have : 2 ^ (K - J + 1) = 8 * 2 ^ (K - J + 1 - 3) := by
      rw [show (8 : Nat) = 2 ^ 3 by norm_num, ← Nat.pow_add]
      congr 1
      omega
    omega

/-- Each pair has its bit. -/
theorem Inv.bit_lt (h : Inv K J t) {e : Nat} {b : Int} (hJ : J ≤ e) (he : e < K)
    (hb : t.Holds e b) : bitIndex K t.arenaBase e b / 8 < t.store.bitmap.length :=
  h.bit_lt_of_span hJ he hb.1 (h.nat.lt_of_holds hb)

/-- Its index. -/
theorem Inv.offset (h : Inv K J t) {e : Nat} {b : Int} (he : e < K) (hb : t.Holds e b) :
    t.bitmapOffset b (2 ^ e) = .ok (bitIndex K t.arenaBase e b) :=
  h.nat.bitmapOffset he hb.1 (h.nat.lt_of_holds hb)

/-- A listed block has the bit of another one only as its buddy. -/
theorem Inv.eq_of_bitIndex (h : Inv K J t) {e e' : Nat} {b b' : Int} (he : e < K)
    (ha : Aligned e b) (hb : t.arenaBase ≤ b) (hb' : b < t.arenaBase + 2 ^ K) (he' : e' < K)
    (hF : t.FreeBlock K e' b')
    (hidx : bitIndex K t.arenaBase e b = bitIndex K t.arenaBase e' b') :
    e' = e ∧ (b' = b ∨ b' = buddy e b) := by
  have hh := h.holds hF
  obtain ⟨rfl, hfl⟩ := (bitIndex_inj h.nat.base he he' hb hb' hh.1 (h.nat.lt_of_holds hh)).mp hidx
  rw [← parent_eq_floorBlock ha, ← parent_eq_floorBlock (h.canon.aligned hF)] at hfl
  exact ⟨rfl, eq_or_eq_buddy hfl.symm⟩

/-- The bit of a block is set exactly when the block or its buddy is listed. -/
theorem Inv.bit_iff (h : Inv K J t) {e : Nat} {b : Int} (he : e < K) (ha : Aligned e b)
    (hb : t.arenaBase ≤ b) (hb' : b < t.arenaBase + 2 ^ K) :
    getBit t.store.bitmap (bitIndex K t.arenaBase e b) = true ↔
      t.FreeBlock K e b ∨ t.FreeBlock K e (buddy e b) := by
  rw [h.bits _ (bitIndex_ne_zero K t.arenaBase e b)]
  constructor
  · rintro ⟨e', b', he', hF, hidx⟩
    obtain ⟨rfl, rfl | rfl⟩ := h.eq_of_bitIndex he ha hb hb' he' hF hidx
    · exact Or.inl hF
    · exact Or.inr hF
  · rintro (hF | hF)
    · exact ⟨e, b, he, hF, rfl⟩
    · have hh := h.holds hF
      refine ⟨e, buddy e b, he, hF, ?_⟩
      rw [bitIndex_inj h.nat.base he he hb hb' hh.1 (h.nat.lt_of_holds hh)]
      refine ⟨rfl, ?_⟩
      rw [← parent_eq_floorBlock ha, ← parent_eq_floorBlock (h.canon.aligned hF), parent_buddy ha]

/-- Memory that is not free is no free block. -/
theorem Inv.not_free_of_covers (_h : Inv K J t) {e : Nat} {b : Int}
    (hfree : ∀ x, Within e b x → ¬ Covers (t.FreeBlock K) x) : ¬ t.FreeBlock K e b :=
  fun hF => hfree b (within_base e b) ⟨e, b, hF, within_base e b⟩

/-! ## The steps keep the invariant -/

/-- `add_block_next` on a block that is not free and whose buddy is not listed. -/
theorem added_inv (h : Inv K J t) {e : Nat} {b : Int} (hJ : J ≤ e) (he : e < K)
    (ha : Aligned e b) (hb : t.Holds e b)
    (hfree : ∀ x, Within e b x → ¬ Covers (t.FreeBlock K) x)
    (hbud : ¬ t.FreeBlock K e (buddy e b)) :
    Inv K J (t.added (K - e) (bitIndex K t.arenaBase e b) b) := by
  have hg := h.idx_lt hJ
  have hi := h.bit_lt hJ he hb
  have hnot := h.not_free_of_covers hfree
  have hfb := freeBlock_added (t := t) (i := bitIndex K t.arenaBase e b) (b := b)
    (Nat.le_of_lt he) hg
  -- field by field; only the last one, on the bits, needs that the buddy is not free
  refine ⟨h.nat, h.llen, ?_, h.blen, ?_, ?_, ?_, ?_, ?_, ?_, ?_⟩
  · exact (List.length_set ..).trans h.slen
  · exact (List.length_set ..).trans h.sblen
  · intro g
    rw [list_added hg]
    split
    · exact List.nodup_cons.mpr ⟨fun hm => hnot ⟨Nat.le_of_lt he, hm⟩, h.nodup _⟩
    · exact h.nodup g
  · intro e' b' hF
    rcases (hfb e' b').mp hF with ⟨rfl, rfl⟩ | hF
    · exact hb
    · exact h.holds hF
  · have := h.canon.insert ha hfree hbud
    exact this.mono (fun e' b' hF => (hfb e' b').mp hF)
  · rw [list_added hg, if_neg (by omega)]
    exact h.top
  · intro g
    rw [avails_added, list_added hg]
    by_cases hgg : g = K - e
    · simp [hgg]
    · have hne : K - e ≠ g := fun hc => hgg hc.symm
      simp only [if_neg hgg, decide_eq_false hne, Bool.or_false]
      exact h.avail g
  · intro i hi0
    show getBit (t.added _ _ _).store.bitmap i = true ↔
      ∃ e' b', e' < K ∧ _ ∧ i = bitIndex K t.arenaBase e' b'
    rw [getBit_added hi]
    by_cases hidx : bitIndex K t.arenaBase e b = i
    · subst hidx
      have hclear : getBit t.store.bitmap (bitIndex K t.arenaBase e b) = false := by
        rw [← Bool.not_eq_true, h.bit_iff he ha hb.1 (h.nat.lt_of_holds hb)]
        exact fun hc => hc.elim hnot hbud
      simp only [hclear, decide_true, Bool.bne_true, Bool.not_false, true_iff]
      exact ⟨e, b, he, (hfb e b).mpr (Or.inl ⟨rfl, rfl⟩), rfl⟩
    · simp only [hidx, decide_false, Bool.bne_false]
      rw [h.bits i hi0]
      constructor
      · rintro ⟨e', b', he', hF, hi'⟩
        exact ⟨e', b', he', (hfb e' b').mpr (Or.inr hF), hi'⟩
      · rintro ⟨e', b', he', hF, hi'⟩
        rcases (hfb e' b').mp hF with ⟨rfl, rfl⟩ | hF
        · exact absurd hi'.symm hidx
        · exact ⟨e', b', he', hF, hi'⟩

/-- A list has its bit in `avails` after a block is removed from it too. -/
theorem Inv.avail_removed (h : Inv K J t) {e i : Nat} {b : Int} (hb : t.FreeBlock K e b)
    (g : Nat) : (t.removed (K - e) i b).avails.testBit g = true ↔
      (t.removed (K - e) i b).list g ≠ [] := by
  have hg := hb.lt_length
  have hgl := h.slen
  have hK := h.nat.hK
  have hlen := List.length_erase_of_mem hb.2
  rw [list_removed hg]
  -- the bit is cleared if the block was the only one of its list
  by_cases hl : (t.list (K - e)).length ≤ 1
  · have herase : (t.list (K - e)).erase b = [] := List.eq_nil_of_length_eq_zero (by omega)
    unfold removed
    rw [if_pos hl]
    rcases Nat.lt_or_ge g 64 with h64 | h64
    · show (t.clearAvail (K - e)).avails.testBit g = true ↔ _
      rw [avails_clearAvail g h64]
      by_cases hgg : g = K - e
      · simp [hgg, herase]
      · have hne : K - e ≠ g := fun hc => hgg hc.symm
        simp only [if_neg hgg, decide_eq_false hne, Bool.not_false, Bool.and_true]
        exact h.avail g
    · -- there is no such list
      have hempty : t.list g = [] := by
        rcases hm : t.list g with _ | ⟨x, l⟩
        · rfl
        · have hmem : x ∈ t.list g := by rw [hm]; exact List.mem_cons_self ..
          have := lt_of_mem_list hmem
          omega
      have hfalse : t.avails.testBit g = false := by
        rw [← Bool.not_eq_true, h.avail, hempty]
        exact fun hc => hc rfl
      show (t.avails &&& _).testBit g = true ↔ _
      rw [Nat.testBit_and, hfalse, if_neg (by omega), hempty]
      simp
  · unfold removed
    rw [if_neg hl]
    show t.avails.testBit g = true ↔ _
    rw [h.avail]
    by_cases hgg : g = K - e
    · rw [if_pos hgg, hgg]
      constructor
      · intro _ hc
        rw [hc] at hlen
        simp at hlen
        omega
      · intro _ hc
        rw [hc] at hl
        simp at hl
    · rw [if_neg hgg]

/-- The bit of the pair is cleared with the block, whose buddy is not free. -/
theorem Inv.bits_removed (h : Inv K J t) {e : Nat} {b : Int} (hb : t.FreeBlock K e b) {i : Nat}
    (hi0 : i ≠ 0) :
    getBit (t.removed (K - e) (bitIndex K t.arenaBase e b) b).store.bitmap i = true ↔
      ∃ e' b', e' < K ∧
        (t.removed (K - e) (bitIndex K t.arenaBase e b) b).FreeBlock K e' b' ∧
        i = bitIndex K t.arenaBase e' b' := by
  have he := h.exp_lt hb
  have hh := h.holds hb
  have ha := h.canon.aligned hb
  have hfb := freeBlock_removed (i := bitIndex K t.arenaBase e b) hb (h.nodup _)
  rw [getBit_removed (h.bit_lt (h.le_exp hb) he hh)]
  by_cases hidx : bitIndex K t.arenaBase e b = i
  · subst hidx
    have hset : getBit t.store.bitmap (bitIndex K t.arenaBase e b) = true := by
      rw [h.bit_iff he ha hh.1 (h.nat.lt_of_holds hh)]
      exact Or.inl hb
    simp only [hset, decide_true, Bool.bne_true, Bool.not_true, Bool.false_eq_true, false_iff]
    rintro ⟨e', b', he', hF, hi'⟩
    obtain ⟨hF', hne⟩ := (hfb e' b').mp hF
    obtain ⟨rfl, rfl | rfl⟩ :=
      h.eq_of_bitIndex he ha hh.1 (h.nat.lt_of_holds hh) he' hF' hi'
    · exact hne ⟨rfl, rfl⟩
    · exact h.canon.noBuddy hb hF'
  · simp only [hidx, decide_false, Bool.bne_false]
    rw [h.bits i hi0]
    constructor
    · rintro ⟨e', b', he', hF, hi'⟩
      refine ⟨e', b', he', (hfb e' b').mpr ⟨hF, ?_⟩, hi'⟩
      rintro ⟨rfl, rfl⟩
      exact hidx hi'.symm
    · rintro ⟨e', b', he', hF, hi'⟩
      exact ⟨e', b', he', ((hfb e' b').mp hF).1, hi'⟩

/-- Removing a listed block. -/
theorem removed_inv (h : Inv K J t) {e : Nat} {b : Int} (hb : t.FreeBlock K e b) :
    Inv K J (t.removed (K - e) (bitIndex K t.arenaBase e b) b) := by
  have hg := hb.lt_length
  have he := h.exp_lt hb
  have hfb := freeBlock_removed (i := bitIndex K t.arenaBase e b) hb (h.nodup _)
  have hshape : t.removed (K - e) (bitIndex K t.arenaBase e b) b = _ := removed_eq
  refine ⟨?_, ?_, ?_, ?_, ?_, ?_, ?_, ?_, ?_, h.avail_removed hb, fun i hi0 => ?_⟩
  · rw [hshape]; exact h.nat
  · rw [hshape]; exact h.llen
  · rw [hshape]; exact (List.length_set ..).trans h.slen
  · rw [hshape]; exact h.blen
  · rw [hshape]; exact (List.length_set ..).trans h.sblen
  · intro g
    rw [list_removed hg]
    split
    · exact (h.nodup _).erase b
    · exact h.nodup g
  · intro e' b' hF
    rw [hshape]
    exact h.holds ((hfb e' b').mp hF).1
  · exact h.canon.mono (fun e' b' hF => ((hfb e' b').mp hF).1)
  · rw [list_removed hg, if_neg (by omega)]
    exact h.top
  · have hbase : (t.removed (K - e) (bitIndex K t.arenaBase e b) b).arenaBase = t.arenaBase := by
      rw [hshape]; rfl
    rw [hbase]
    exact h.bits_removed hb hi0

/-! ## The free addresses after a step -/

/-- The free memory with a block more. -/
theorem covers_added {e i : Nat} {b : Int} (heK : e ≤ K) (hg : K - e < t.store.llists.length)
    (x : Int) : Covers ((t.added (K - e) i b).FreeBlock K) x ↔
      Within e b x ∨ Covers (t.FreeBlock K) x := by
  have hfb := freeBlock_added (t := t) (i := i) (b := b) heK hg
  constructor
  · rintro ⟨e', b', hF, hx⟩
    rcases (hfb e' b').mp hF with ⟨rfl, rfl⟩ | hF
    · exact Or.inl hx
    · exact Or.inr ⟨e', b', hF, hx⟩
  · rintro (hx | ⟨e', b', hF, hx⟩)
    · exact ⟨e, b, (hfb e b).mpr (Or.inl ⟨rfl, rfl⟩), hx⟩
    · exact ⟨e', b', (hfb e' b').mpr (Or.inr hF), hx⟩

/-- The free memory with a block less, from what is needed for it. -/
theorem covers_removed_of (hnd : ∀ g, (t.list g).Nodup) (hcanon : Canonical (t.FreeBlock K))
    {e i : Nat} {b : Int} (hb : t.FreeBlock K e b) (x : Int) :
    Covers ((t.removed (K - e) i b).FreeBlock K) x ↔
      Covers (t.FreeBlock K) x ∧ ¬ Within e b x := by
  have hfb := freeBlock_removed (i := i) hb (hnd _)
  constructor
  · rintro ⟨e', b', hF, hx⟩
    obtain ⟨hF', hne⟩ := (hfb e' b').mp hF
    exact ⟨⟨e', b', hF', hx⟩, fun hc => hne (hcanon.apart hF' hb hx hc)⟩
  · rintro ⟨⟨e', b', hF, hx⟩, hne⟩
    refine ⟨e', b', (hfb e' b').mpr ⟨hF, ?_⟩, hx⟩
    rintro ⟨rfl, rfl⟩
    exact hne hx

/-- The free memory with a block less. -/
theorem covers_removed (h : Inv K J t) {e i : Nat} {b : Int} (hb : t.FreeBlock K e b) (x : Int) :
    Covers ((t.removed (K - e) i b).FreeBlock K) x ↔
      Covers (t.FreeBlock K) x ∧ ¬ Within e b x :=
  covers_removed_of h.nodup h.canon hb x

/-- The fields no operation on a fixed arena changes. -/
structure SameShape (t t' : Talloc FreeLists) : Prop where
  arena : t'.toArena = t.toArena
  llistsPtr : t'.llistsPtr = t.llistsPtr
  llistsLen : t'.llistsLen = t.llistsLen
  bitmapPtr : t'.bitmapPtr = t.bitmapPtr
  bitmapLen : t'.bitmapLen = t.bitmapLen
  bit0 : getBit t'.store.bitmap 0 = getBit t.store.bitmap 0

/-- A state has its own shape. -/
theorem SameShape.refl (t : Talloc FreeLists) : SameShape t t := ⟨rfl, rfl, rfl, rfl, rfl, rfl⟩

/-- The shape is kept along. -/
theorem SameShape.trans {t₁ t₂ t₃ : Talloc FreeLists} (h₁ : SameShape t₁ t₂)
    (h₂ : SameShape t₂ t₃) : SameShape t₁ t₃ :=
  ⟨h₂.arena.trans h₁.arena, h₂.llistsPtr.trans h₁.llistsPtr, h₂.llistsLen.trans h₁.llistsLen,
    h₂.bitmapPtr.trans h₁.bitmapPtr, h₂.bitmapLen.trans h₁.bitmapLen, h₂.bit0.trans h₁.bit0⟩

/-- A block more does not change the shape. -/
theorem added_shape {i : Nat} (hi : i / 8 < t.store.bitmap.length) (h0 : i ≠ 0) (g : Nat)
    (node : Int) : SameShape t (t.added g i node) := by
  refine ⟨rfl, rfl, rfl, rfl, rfl, ?_⟩
  rw [getBit_added hi]
  simp [h0]

/-- Nor does a block less. -/
theorem removed_shape {i : Nat} (hi : i / 8 < t.store.bitmap.length) (h0 : i ≠ 0) (g : Nat)
    (node : Int) : SameShape t (t.removed g i node) := by
  have hbit : getBit (t.removed g i node).store.bitmap 0 = _ := getBit_removed hi 0
  rw [removed_eq] at hbit ⊢
  refine ⟨rfl, rfl, rfl, rfl, rfl, ?_⟩
  rw [hbit]
  simp [h0]

end Tauos.Memm.Talloc
