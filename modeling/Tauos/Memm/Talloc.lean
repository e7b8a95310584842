import Tauos.Memm.Arena

/-!
# `Talloc`: the operations

`kernel/src/memm/talloc.rs`, function by function. `Talloc σ` has the fields of
the source struct; the memory behind its `llists` and `bitmap` pointers is the
component `store : σ`. What the allocator does to that memory goes through the
seven accesses of the class `Store`, so the same `alloc`, `dealloc`, `shrink`
and `release` run

* on `FreeLists`, where a free list is a list of block bases and the bitmap a
  list of bytes (the instance below), and
* on plain memory, where the nodes live in the free blocks themselves
  (`Tauos.Memm.Heap`).

On `FreeLists` an access outside the contract of an `unsafe` function (an index
past the end, unlinking a node that is not in the list of its granularity) is
`Fault.undefined`.

The `oom_handler` field is a parameter of `alloc`, with a state `ω` for whatever
the handler reaches besides the allocator. The retry loops of `alloc` take fuel:
how often they turn is up to the handler.
-/

namespace Tauos.Memm

open Tauos.Rust Tauos.Utils

/-- The fields of `Talloc`; `store` is what `llists` and `bitmap` point at. -/
structure Talloc (σ : Type) extends Arena where
  avails : Nat
  /-- `llists`: address and length (in nodes) of the sentinel slice. -/
  llistsPtr : Int
  llistsLen : Nat
  /-- `bitmap`: address and length (in bytes) of the bitmap slice. -/
  bitmapPtr : Int
  bitmapLen : Nat
  store : σ
  deriving DecidableEq

/-- The accesses of `Talloc` to the memory behind `llists` and `bitmap`. A
granularity names the list a node is in; plain memory has no use for it. -/
class Store (σ : Type) where
  /-- `(*sentinel).prev == (*sentinel).next`. -/
  sentinelSole : Talloc σ → Nat → Except Fault Bool
  /-- `(*sentinel).next.get()`. -/
  sentinelNext : Talloc σ → Nat → Except Fault Int
  /-- `(*node).prev == (*node).next`. -/
  nodeSole : Talloc σ → Nat → Int → Except Fault Bool
  /-- `LlistNode::new(node, sentinel, (*sentinel).next.get(), ())`. -/
  insertNext : Talloc σ → Nat → Int → Except Fault σ
  /-- `LlistNode::remove(node)`. -/
  unlink : Talloc σ → Nat → Int → Except Fault σ
  /-- A byte of the bitmap. -/
  readByte : Talloc σ → Nat → Except Fault (BitVec 8)
  writeByte : Talloc σ → Nat → BitVec 8 → Except Fault σ

/-- `Talloc::oom_handler`: the answer (`true` for `Ok(())`), and what the call
left behind. -/
abbrev OomHandler (ω σ : Type) := ω → Talloc σ → Layout → Except Fault (Bool × ω × Talloc σ)

/-- `NonNull::new_unchecked(p)`. -/
def nonNull (p : Int) : Except Fault Int := if p = 0 then .error .undefined else .ok p

/-- `mem.get_unchecked_mut(..n)`. -/
def Slice.take (s : Slice) (n : Nat) : Except Fault Slice :=
  if n ≤ s.len then .ok ⟨s.ptr, n⟩ else .error .undefined

/-- `mem.get_unchecked_mut(n..)`. -/
def Slice.drop (s : Slice) (n : Nat) : Except Fault Slice :=
  if n ≤ s.len then .ok ⟨wrappingAdd s.ptr n, s.len - n⟩ else .error .undefined

namespace Talloc

section Operations

variable {ω σ : Type} [Store σ]

/-- `Talloc::read_bitflag`. -/
def readBitflag (t : Talloc σ) (bitmapOffset : Nat) : Except Fault Bool := do
  let data ← Store.readByte t (bitmapOffset >>> 3)
  return (data &&& (1#8 <<< (bitmapOffset &&& 7))) != 0

/-- `Talloc::toggle_bitflag`. -/
def toggleBitflag (t : Talloc σ) (bitmapOffset : Nat) : Except Fault (Talloc σ) := do
  let data ← Store.readByte t (bitmapOffset >>> 3)
  let store ← Store.writeByte t (bitmapOffset >>> 3) (data ^^^ (1#8 <<< (bitmapOffset &&& 7)))
  return { t with store }

/-- `self.avails &= !(1 << granularity)`. -/
def clearAvail (t : Talloc σ) (granularity : Nat) : Talloc σ :=
  { t with avails := t.avails &&& ((2 ^ 64 - 1) ^^^ (1 <<< granularity)) }

/-- `Talloc::add_block_next`. -/
def addBlockNext (t : Talloc σ) (granularity bitmapOffset : Nat) (node : Int) :
    Except Fault (Talloc σ) := do
  let t := { t with avails := t.avails ||| (1 <<< granularity) }
  let store ← Store.insertNext t granularity node
  toggleBitflag { t with store } bitmapOffset

/-- `Talloc::remove_block_next`. -/
def removeBlockNext (t : Talloc σ) (granularity size : Nat) : Except Fault (Int × Talloc σ) := do
  let t := if ← Store.sentinelSole t granularity then t.clearAvail granularity else t
  let node ← Store.sentinelNext t granularity
  let store ← Store.unlink t granularity node
  let t ← toggleBitflag { t with store } (← t.bitmapOffset node size)
  return (node, t)

/-- `Talloc::remove_block`. -/
def removeBlock (t : Talloc σ) (granularity bitmapOffset : Nat) (node : Int) :
    Except Fault (Talloc σ) := do
  let t := if ← Store.nodeSole t granularity node then t.clearAvail granularity else t
  let store ← Store.unlink t granularity node
  toggleBitflag { t with store } bitmapOffset

/-- One merge of `dealloc`: unlink the buddy, and go on with the lower of the two. -/
def takeBuddy (t : Talloc σ) (granularity bitmapOffset : Nat) (ptr : Int) (size : Nat) :
    Except Fault (Int × Talloc σ) := do
  let (buddyPtr, nextPtr) :=
    if isLowerBuddy ptr size then (wrappingAdd ptr size, ptr)
    else (wrappingSub ptr size, wrappingSub ptr size)
  let t ← t.removeBlock granularity bitmapOffset buddyPtr
  return (nextPtr, t)

/-- The loop of `dealloc`: merge while the buddy is available. The recursion is
on the granularity, whose decrement underflows at 0. -/
def deallocLoop : Nat → Int → Nat → Talloc σ → Except Fault (Talloc σ)
  | 0, ptr, size, t => do
    let bitmapOffset ← t.bitmapOffset ptr size
    if ← t.readBitflag bitmapOffset then
      let _ ← t.takeBuddy 0 bitmapOffset ptr size
      .error .underflow
    else t.addBlockNext 0 bitmapOffset ptr
  | granularity + 1, ptr, size, t => do
    let bitmapOffset ← t.bitmapOffset ptr size
    if ← t.readBitflag bitmapOffset then
      let (nextPtr, t) ← t.takeBuddy (granularity + 1) bitmapOffset ptr size
      deallocLoop granularity nextPtr (size <<< 1) t
    else t.addBlockNext (granularity + 1) bitmapOffset ptr

/-- `Talloc::dealloc`. -/
def dealloc (t : Talloc σ) (ptr : Int) (layout : Layout) : Except Fault (Talloc σ) := do
  let size := t.layoutToSize layout
  let granularity ← t.blockGranularity size
  deallocLoop granularity ptr size t

/-- The loop `alloc` and `shrink` share: `count` upper halves, each half the size
of the one before, become free blocks. -/
def breakDown (base : Int) : Nat → Nat → Nat → Talloc σ → Except Fault (Talloc σ)
  | 0, _, _, t => .ok t
  | count + 1, hiGranularity, hiBlockSize, t => do
    let hiBlockBase := wrappingAdd base hiBlockSize
    let t ← t.addBlockNext hiGranularity (← t.bitmapOffset hiBlockBase hiBlockSize) hiBlockBase
    breakDown base count (hiGranularity + 1) (hiBlockSize >>> 1) t

/-- `Talloc::shrink`. -/
def shrink (t : Talloc σ) (ptr : Int) (oldLayout newLayout : Layout) :
    Except Fault (Talloc σ) := do
  let oldSize := t.layoutToSize oldLayout
  let newSize := t.layoutToSize newLayout
  if oldSize = newSize then return t
  let oldGranularity ← t.blockGranularity oldSize
  let newGranularity ← t.blockGranularity newSize
  breakDown ptr (newGranularity - oldGranularity) (oldGranularity + 1) (oldSize >>> 1) t

/-- `while size > self.arena_size { (self.oom_handler)(self, layout)?; }`; the
flag is `false` when the handler gave up. -/
def growLoop (oom : OomHandler ω σ) (layout : Layout) (size : Nat) :
    Nat → ω → Talloc σ → Except Fault (Bool × ω × Talloc σ)
  | 0, _, _ => .error .fuel
  | fuel + 1, w, t =>
    if t.arenaSize < size then do
      let (ok, w, t) ← oom w t layout
      if ok then growLoop oom layout size fuel w t else return (false, w, t)
    else return (true, w, t)

/-- The second loop of `alloc`: look for an available granularity below
`granularity`, asking the handler while there is none. -/
def findLoop (oom : OomHandler ω σ) (layout : Layout) (size : Nat) :
    Nat → Nat → ω → Talloc σ → Except Fault (Option (Nat × Nat) × ω × Talloc σ)
  | 0, _, _, _ => .error .fuel
  | fuel + 1, granularity, w, t => do
    -- `self.avails & !(usize::MAX << granularity)`
    let largerAvl := t.avails &&& ((1 <<< granularity) - 1)
    if largerAvl = 0 then
      let (ok, w, t) ← oom w t layout
      if ok then
        let granularity ← t.blockGranularity size
        findLoop oom layout size fuel granularity w t
      else return (none, w, t)
    else return (some (granularity, largerAvl), w, t)

/-- `alloc` once the arena is as large as the block. -/
def allocBlock (oom : OomHandler ω σ) (layout : Layout) (size fuel : Nat) (w : ω) (t : Talloc σ) :
    Except Fault (Option Int × ω × Talloc σ) := do
  let granularity ← t.blockGranularity size
  if t.avails &&& (1 <<< granularity) ≠ 0 then
    let (node, t) ← t.removeBlockNext granularity size
    return (some (← nonNull node), w, t)
  let (found, w, t) ← findLoop oom layout size fuel granularity w t
  match found with
  | none => return (none, w, t)
  | some (granularity, largerAvl) =>
    let lgrGranularity := fastNon0Log2 largerAvl
    let lgrSize := t.arenaSizePow2 >>> lgrGranularity
    let (lgrBase, t) ← t.removeBlockNext lgrGranularity lgrSize
    let t ← breakDown lgrBase (granularity - lgrGranularity) (lgrGranularity + 1) (lgrSize >>> 1) t
    return (some (← nonNull lgrBase), w, t)

/-- `Talloc::alloc`; `none` is `Err(AllocError)`. -/
def alloc (oom : OomHandler ω σ) (fuel : Nat) (w : ω) (t : Talloc σ) (layout : Layout) :
    Except Fault (Option Int × ω × Talloc σ) := do
  let size := t.layoutToSize layout
  let (ok, w, t) ← growLoop oom layout size fuel w t
  if ok then allocBlock oom layout size fuel w t else return (none, w, t)

/-- The block loop of `release`: ascending sizes as far as the alignment of the
block base allows, then descending ones. -/
def releaseLoop (acme : Int) : Nat → Bool → Int → Talloc σ → Except Fault (Talloc σ)
  | 0, _, _, _ => .error .fuel
  | fuel + 1, true, blockBase, t => do
    let blockSize ← usizeShl (trailingZeros blockBase)
    if (← isizeAdd blockBase (asIsize blockSize)) ≤ acme then
      let t ← t.dealloc (← nonNull blockBase) ⟨blockSize, 1⟩
      releaseLoop acme fuel true (← isizeAdd blockBase (asIsize blockSize)) t
    else
      releaseLoop acme fuel false blockBase t
  | fuel + 1, false, blockBase, t => do
    let delta := asUsize (← isizeSub acme blockBase)
    if t.smlstBlock ≤ delta then
      let blockSize := fastNon0PrevPow2 delta
      let t ← t.dealloc (← nonNull blockBase) ⟨blockSize, 1⟩
      releaseLoop acme fuel false (← isizeAdd blockBase (asIsize blockSize)) t
    else return t

/-- `Talloc::release`, which calls itself on the two sides of the null block; the
first argument bounds that recursion. -/
def releaseRec : Nat → Talloc σ → Slice → Except Fault (Talloc σ)
  | 0, _, _ => .error .fuel
  | depth + 1, t, mem => do
    let sbm1 ← isizeSub t.smlstBlock 1
    let base := maskDown (← isizeAdd mem.ptr sbm1) t.smlstBlock
    let acme := maskDown (← isizeAdd mem.ptr (asIsize mem.len)) t.smlstBlock
    ensure (decide (t.arenaBase ≤ base))
    ensure (decide (acme ≤ (← isizeAdd t.arenaBase t.arenaSize)))
    if base = acme then return t
    if base ≤ 0 ∧ 0 < acme then
      let t ← releaseRec depth t (← mem.take (0 - base).toNat)
      releaseRec depth t (← mem.drop (t.smlstBlock - base).toNat)
    else
      releaseLoop acme ((acme - base).toNat + 2) true base t

/-- `Talloc::release`. -/
def release (t : Talloc σ) (mem : Slice) : Except Fault (Talloc σ) := releaseRec 2 t mem

end Operations

end Talloc

/-! ## Free lists as lists -/

/-- The contents of `llists` and `bitmap`: list `g` holds the bases of the free
blocks of granularity `g`, the first one next to the sentinel. -/
structure FreeLists where
  llists : List (List Int)
  bitmap : List (BitVec 8)
  deriving DecidableEq, Repr

/-- `*self.llists.get_unchecked_mut(granularity)`. -/
def FreeLists.get (s : FreeLists) (g : Nat) : Except Fault (List Int) :=
  match s.llists[g]? with
  | some l => .ok l
  | none => .error .undefined

instance : Store FreeLists where
  sentinelSole t g := do return decide ((← t.store.get g).length ≤ 1)
  sentinelNext t g := do
    match ← t.store.get g with
    | node :: _ => return node
    | [] => .error .undefined
  nodeSole t g node := do
    let l ← t.store.get g
    if node ∈ l then return decide (l.length ≤ 1) else .error .undefined
  insertNext t g node := do
    let l ← t.store.get g
    return { t.store with llists := t.store.llists.set g (node :: l) }
  unlink t g node := do
    let l ← t.store.get g
    if node ∈ l then return { t.store with llists := t.store.llists.set g (l.erase node) }
    else .error .undefined
  readByte t i := getByte t.store.bitmap i
  writeByte t i v := do return { t.store with bitmap := ← setByte t.store.bitmap i v }

/-- `new_ptr.copy_from_nonoverlapping(old_ptr, n)` between two byte slices. -/
def copyBytes (dst src : List (BitVec 8)) (dstIndex srcIndex n : Nat) :
    Except Fault (List (BitVec 8)) :=
  if srcIndex + n ≤ src.length ∧ dstIndex + n ≤ dst.length then
    .ok (dst.take dstIndex ++ ((src.drop srcIndex).take n ++ dst.drop (dstIndex + n)))
  else .error .undefined

namespace Talloc

/-- `Talloc::new_invalid`. -/
def newInvalid (smallestBlock : Nat) : Talloc FreeLists where
  arenaBase := 0
  arenaSize := 0
  arenaSizePow2 := 0
  smlstBlock := smallestBlock
  avails := 0
  llistsPtr := 0
  llistsLen := 0
  bitmapPtr := 0
  bitmapLen := 0
  store := ⟨[], []⟩

/-- The field of old granularity `g` in the bitmap loop of `extend`. -/
def copyField (old : Talloc FreeLists) (new : Arena) (g : Nat) (bitmap : List (BitVec 8)) :
    Except Fault (List (BitVec 8)) := do
  let oldBmpBitOffstSz := max (1 <<< g >>> 1) 1
  let newBmpBitOffst ← new.bitmapOffset old.arenaBase (old.arenaSizePow2 >>> g)
  if g < 4 then
    copySliceBits bitmap old.store.bitmap newBmpBitOffst oldBmpBitOffstSz oldBmpBitOffstSz
  else
    copyBytes bitmap old.store.bitmap (newBmpBitOffst / 8) (oldBmpBitOffstSz / 8)
      (oldBmpBitOffstSz / 8)

/-- The bitmap loop of `extend`: `count` old granularities from `g` on. -/
def copyFields (old : Talloc FreeLists) (new : Arena) :
    Nat → Nat → List (BitVec 8) → Except Fault (List (BitVec 8))
  | 0, _, bitmap => .ok bitmap
  | count + 1, g, bitmap => do
    let bitmap ← copyField old new g bitmap
    copyFields old new count (g + 1) bitmap

/-- The sentinels of `extend`: `graDiff` fresh lists, then the old ones moved. -/
def moveLists (old : List (List Int)) (graDiff n : Nat) : List (List Int) :=
  (List.range n).map fun i => if i < graDiff then [] else old.getD (i - graDiff) []

/-- The assertions at the head of `extend`. -/
def checkExtend (t : Talloc FreeLists) (arenaBase : Int) (arenaSize : Nat) (freeMem : Slice) :
    Except Fault Unit := do
  let arenaAcme ← isizeAdd arenaBase arenaSize
  ensure (decide (arenaBase ≤ freeMem.ptr))
  ensure (decide (wrappingAdd freeMem.ptr freeMem.len ≤ arenaAcme))
  if t.bitmapLen ≠ 0 then
    ensure (decide (arenaBase ≤ t.arenaBase))
    ensure (decide ((← isizeAdd t.arenaBase t.arenaSize) ≤ arenaAcme))

/-- `ll_align_offset` of `extend`: never zero. -/
def llAlignOffset (freeMem : Slice) : Nat := nodeSize - asUsize freeMem.ptr % nodeSize

/-- The new instance of `extend`, before anything is released into it. -/
def relocate (t : Talloc FreeLists) (arenaBase : Int) (arenaSize : Nat) (freeMem : Slice) :
    Except Fault (Talloc FreeLists) := do
  let (llBytes, bmBytes) ← sliceBytes arenaSize t.smlstBlock
  let llistsPtr := wrappingAdd freeMem.ptr (llAlignOffset freeMem)
  let arena : Arena := ⟨arenaBase, arenaSize, nextPowerOfTwo arenaSize, t.smlstBlock⟩
  let graDiff ← usizeSub (llBytes / nodeSize) t.llistsLen
  let zeroed := List.replicate bmBytes 0
  let bitmap ← if t.bitmapLen ≠ 0 then copyFields t arena t.llistsLen 0 zeroed else pure zeroed
  return {
    toArena := arena
    avails := t.avails <<< graDiff
    llistsPtr
    llistsLen := llBytes / nodeSize
    bitmapPtr := wrappingAdd llistsPtr llBytes
    bitmapLen := bmBytes
    store := ⟨moveLists t.store.llists graDiff (llBytes / nodeSize), bitmap⟩ }

/-- The old status data that `extend` releases: from the old `llists` on, its size
rounded up to the smallest block. -/
def oldStatus (t : Talloc FreeLists) : Slice :=
  let size := t.llistsLen * nodeSize + t.bitmapLen
  ⟨t.llistsPtr, (maskDown (size + t.smlstBlock - 1 : Nat) t.smlstBlock).toNat⟩

/-- `Talloc::extend`. -/
def extend (t : Talloc FreeLists) (arenaBase : Int) (arenaSize : Nat) (freeMem : Slice) :
    Except Fault (Talloc FreeLists) := do
  let (llBytes, bmBytes) ← sliceBytes arenaSize t.smlstBlock
  t.checkExtend arenaBase arenaSize freeMem
  let memOffset := llAlignOffset freeMem + llBytes + bmBytes
  let talloc ← t.relocate arenaBase arenaSize freeMem
  let talloc ← if t.bitmapLen ≠ 0 then talloc.release t.oldStatus else pure talloc
  talloc.release (← freeMem.drop memOffset)

/-- `Talloc::new`. -/
def new (arenaBase : Int) (arenaSize smallestBlock : Nat) (freeMem : Slice) :
    Except Fault (Talloc FreeLists) :=
  (newInvalid smallestBlock).extend arenaBase arenaSize freeMem

/-! ## What the operations leave alone

No operation but `extend` touches the arena, whatever the state of the lists and
the bitmap.
-/

section Arena

variable {σ : Type} [Store σ] {t' : Talloc σ}

/-- A flip leaves the arena as it is. -/
theorem toggleBitflag_arena {t : Talloc σ} {i : Nat} (h : t.toggleBitflag i = .ok t') :
    t'.toArena = t.toArena := by
  obtain ⟨_, _, h⟩ := bind_ok h
  obtain ⟨_, _, h⟩ := bind_ok h
  cases h
  rfl

/-- So does a block more. -/
theorem addBlockNext_arena {t : Talloc σ} {g i : Nat} {node : Int}
    (h : t.addBlockNext g i node = .ok t') : t'.toArena = t.toArena := by
  obtain ⟨_, _, h⟩ := bind_ok h
  have harena := toggleBitflag_arena h
  exact harena

/-- And a block less. -/
theorem removeBlock_arena {t : Talloc σ} {g i : Nat} {node : Int}
    (h : t.removeBlock g i node = .ok t') : t'.toArena = t.toArena := by
  obtain ⟨sole, _, h⟩ := bind_ok h
  obtain ⟨_, _, h⟩ := bind_ok h
  have harena := toggleBitflag_arena h
  cases sole with
  | false => exact harena
  | true => exact harena

/-- And a buddy. -/
theorem takeBuddy_arena {t : Talloc σ} {g i : Nat} {ptr : Int} {size : Nat} {r : Int × Talloc σ}
    (h : t.takeBuddy g i ptr size = .ok r) : r.2.toArena = t.toArena := by
  obtain ⟨t₁, hrem, h⟩ := bind_ok h
  cases h
  exact removeBlock_arena hrem

/-- And the loop of `dealloc`. -/
theorem deallocLoop_arena : ∀ (g : Nat) {ptr : Int} {size : Nat} {t : Talloc σ},
    deallocLoop g ptr size t = .ok t' → t'.toArena = t.toArena := by
  intro g
  induction g with
  | zero =>
    intro ptr size t h
    obtain ⟨i, _, h⟩ := bind_ok h
    obtain ⟨flag, _, h⟩ := bind_ok h
    cases flag with
    | true =>
      obtain ⟨_, _, h⟩ := bind_ok h
      cases h
    | false => exact addBlockNext_arena h
  | succ g ih =>
    intro ptr size t h
    obtain ⟨i, _, h⟩ := bind_ok h
    obtain ⟨flag, _, h⟩ := bind_ok h
    cases flag with
    | true =>
      obtain ⟨r, htake, h⟩ := bind_ok h
      exact (ih h).trans (takeBuddy_arena htake)
    | false => exact addBlockNext_arena h

/-- `dealloc` leaves the arena as it is. -/
theorem dealloc_arena {t : Talloc σ} {ptr : Int} {l : Layout} (h : t.dealloc ptr l = .ok t') :
    t'.toArena = t.toArena := by
  obtain ⟨g, _, h⟩ := bind_ok h
  exact deallocLoop_arena g h

/-- So does the loop of `release`. -/
theorem releaseLoop_arena {acme : Int} :
    ∀ (fuel : Nat) {ascending : Bool} {base : Int} {t : Talloc σ},
    releaseLoop acme fuel ascending base t = .ok t' → t'.toArena = t.toArena := by
  intro fuel
  induction fuel with
  | zero =>
    intro ascending base t h
    cases ascending <;> cases h
  | succ fuel ih =>
    intro ascending base t h
    cases ascending with
    | true =>
      obtain ⟨size, _, h⟩ := bind_ok h
      obtain ⟨next, _, h⟩ := bind_ok h
      split at h
      · obtain ⟨p, _, h⟩ := bind_ok h
        obtain ⟨t₁, hdealloc, h⟩ := bind_ok h
        obtain ⟨_, _, h⟩ := bind_ok h
        exact (ih h).trans (dealloc_arena hdealloc)
      · exact ih h
    | false =>
      obtain ⟨delta, _, h⟩ := bind_ok h
      dsimp only at h
      split at h
      · obtain ⟨p, _, h⟩ := bind_ok h
        obtain ⟨t₁, hdealloc, h⟩ := bind_ok h
        obtain ⟨_, _, h⟩ := bind_ok h
        exact (ih h).trans (dealloc_arena hdealloc)
      · cases h
        rfl

/-- And `release` in parts. -/
theorem releaseRec_arena : ∀ (depth : Nat) {t t' : Talloc σ} {mem : Slice},
    releaseRec depth t mem = .ok t' → t'.toArena = t.toArena := by
  intro depth
  induction depth with
  | zero =>
    intro t t' mem h
    cases h
  | succ depth ih =>
    intro t t' mem h
    obtain ⟨_, _, h⟩ := bind_ok h
    obtain ⟨_, _, h⟩ := bind_ok h
    obtain ⟨_, _, h⟩ := bind_ok h
    obtain ⟨_, _, h⟩ := bind_ok h
    obtain ⟨_, _, h⟩ := bind_ok h
    obtain ⟨_, _, h⟩ := bind_ok h
    split at h
    · cases h
      rfl
    · split at h
      · obtain ⟨_, _, h⟩ := bind_ok h
        obtain ⟨t₁, hlow, h⟩ := bind_ok h
        obtain ⟨_, _, h⟩ := bind_ok h
        exact (ih h).trans (ih hlow)
      · exact releaseLoop_arena _ h

/-- `release` leaves the arena as it is. -/
theorem release_arena {t : Talloc σ} {mem : Slice} (h : t.release mem = .ok t') :
    t'.toArena = t.toArena := releaseRec_arena 2 h

/-- So does the first block of a list. -/
theorem removeBlockNext_arena {t : Talloc σ} {g size : Nat} {r : Int × Talloc σ}
    (h : t.removeBlockNext g size = .ok r) : r.2.toArena = t.toArena := by
  obtain ⟨sole, _, h⟩ := bind_ok h
  obtain ⟨_, _, h⟩ := bind_ok h
  obtain ⟨_, _, h⟩ := bind_ok h
  obtain ⟨_, _, h⟩ := bind_ok h
  obtain ⟨t₁, htoggle, h⟩ := bind_ok h
  cases h
  have harena := toggleBitflag_arena htoggle
  cases sole with
  | false => exact harena
  | true => exact harena

/-- And the split of a block. -/
theorem breakDown_arena {base : Int} : ∀ (count : Nat) {g size : Nat} {t : Talloc σ},
    breakDown base count g size t = .ok t' → t'.toArena = t.toArena := by
  intro count
  induction count with
  | zero =>
    intro g size t h
    cases h
    rfl
  | succ count ih =>
    intro g size t h
    obtain ⟨i, _, h⟩ := bind_ok h
    obtain ⟨t₁, hadd, h⟩ := bind_ok h
    exact (ih h).trans (addBlockNext_arena hadd)

/-- `shrink` leaves the arena as it is. -/
theorem shrink_arena {t : Talloc σ} {ptr : Int} {l l' : Layout} (h : t.shrink ptr l l' = .ok t') :
    t'.toArena = t.toArena := by
  unfold shrink at h
  dsimp only at h
  split at h
  · cases h
    rfl
  · obtain ⟨_, _, h⟩ := bind_ok h
    obtain ⟨_, _, h⟩ := bind_ok h
    exact breakDown_arena _ h

section Handler

variable {ω : Type} {oom : OomHandler ω σ} {layout : Layout} {I : ω → Arena → Prop}
  {size : Nat} {w w' : ω} {t : Talloc σ}

/-- The handler keeps `I`. -/
def HandlerKeeps (oom : OomHandler ω σ) (I : ω → Arena → Prop) : Prop :=
  ∀ {w w' : ω} {t t' : Talloc σ} {layout : Layout} {ok : Bool},
    oom w t layout = .ok (ok, w', t') → I w t.toArena → I w' t'.toArena

omit [Store σ] in
/-- What the handler keeps, the first loop of `alloc` does. -/
theorem growLoop_keeps (hoom : HandlerKeeps oom I) :
    ∀ (fuel : Nat) {w : ω} {t : Talloc σ} {ok : Bool},
    growLoop oom layout size fuel w t = .ok (ok, w', t') → I w t.toArena → I w' t'.toArena := by
  intro fuel
  induction fuel with
  | zero =>
    intro w t ok h
    cases h
  | succ fuel ih =>
    intro w t ok h hI
    unfold growLoop at h
    split at h
    · obtain ⟨⟨flag, w₁, t₁⟩, hcall, h⟩ := bind_ok h
      cases flag with
      | true => exact ih h (hoom hcall hI)
      | false =>
        cases h
        exact hoom hcall hI
    · cases h
      exact hI

omit [Store σ] in
/-- So does the second one. -/
theorem findLoop_keeps (hoom : HandlerKeeps oom I) : ∀ (fuel : Nat) {g : Nat} {w : ω} {t : Talloc σ}
    {found : Option (Nat × Nat)}, findLoop oom layout size fuel g w t = .ok (found, w', t') →
    I w t.toArena → I w' t'.toArena := by
  intro fuel
  induction fuel with
  | zero =>
    intro g w t found h
    cases h
  | succ fuel ih =>
    intro g w t found h hI
    unfold findLoop at h
    dsimp only at h
    split at h
    · obtain ⟨⟨flag, w₁, t₁⟩, hcall, h⟩ := bind_ok h
      cases flag with
      | true =>
        obtain ⟨g', _, h⟩ := bind_ok h
        exact ih h (hoom hcall hI)
      | false =>
        cases h
        exact hoom hcall hI
    · cases h
      exact hI

/-- And what follows. -/
theorem allocBlock_keeps (hoom : HandlerKeeps oom I) {fuel : Nat} {ptr : Option Int}
    (h : allocBlock oom layout size fuel w t = .ok (ptr, w', t')) (hI : I w t.toArena) :
    I w' t'.toArena := by
  obtain ⟨g, _, h⟩ := bind_ok h
  split at h
  · obtain ⟨r, hrem, h⟩ := bind_ok h
    obtain ⟨_, _, h⟩ := bind_ok h
    cases h
    rw [removeBlockNext_arena hrem]
    exact hI
  · obtain ⟨⟨found, w₁, t₁⟩, hfind, h⟩ := bind_ok h
    have hI₁ := findLoop_keeps hoom fuel hfind hI
    cases found with
    | none =>
      cases h
      exact hI₁
    | some lgr =>
      obtain ⟨r, hrem, h⟩ := bind_ok h
      obtain ⟨t₂, hbreak, h⟩ := bind_ok h
      obtain ⟨_, _, h⟩ := bind_ok h
      cases h
      rw [breakDown_arena _ hbreak, removeBlockNext_arena hrem]
      exact hI₁

/-- What the handler keeps of the arena, `alloc` keeps. -/
theorem alloc_keeps (hoom : HandlerKeeps oom I) {fuel : Nat} {ptr : Option Int}
    (h : alloc oom fuel w t layout = .ok (ptr, w', t')) (hI : I w t.toArena) : I w' t'.toArena := by
  obtain ⟨⟨flag, w₁, t₁⟩, hgrow, h⟩ := bind_ok h
  have hI₁ := growLoop_keeps hoom fuel hgrow hI
  cases flag with
  | true => exact allocBlock_keeps hoom h hI₁
  | false =>
    cases h
    exact hI₁

end Handler
end Arena

/-- The new instance is of the new arena. -/
theorem relocate_arena {t t' : Talloc FreeLists} {arenaBase : Int} {arenaSize : Nat}
    {freeMem : Slice}
    (h : t.relocate arenaBase arenaSize freeMem = .ok t') :
    t'.toArena = ⟨arenaBase, arenaSize, nextPowerOfTwo arenaSize, t.smlstBlock⟩ := by
  obtain ⟨_, _, h⟩ := bind_ok h
  obtain ⟨_, _, h⟩ := bind_ok h
  dsimp only at h
  split at h
  · obtain ⟨_, _, h⟩ := bind_ok h
    cases h
    rfl
  · cases h
    rfl

/-- `extend` returns an allocator of the new arena. -/
theorem extend_arena {t t' : Talloc FreeLists} {arenaBase : Int} {arenaSize : Nat} {freeMem : Slice}
    (h : t.extend arenaBase arenaSize freeMem = .ok t') :
    t'.toArena = ⟨arenaBase, arenaSize, nextPowerOfTwo arenaSize, t.smlstBlock⟩ := by
  obtain ⟨_, _, h⟩ := bind_ok h
  obtain ⟨_, _, h⟩ := bind_ok h
  obtain ⟨t₁, hrel, h⟩ := bind_ok h
  have h₁ := relocate_arena hrel
  dsimp only at h
  split at h
  · obtain ⟨t₂, hold, h⟩ := bind_ok h
    obtain ⟨_, _, h⟩ := bind_ok h
    exact (release_arena h).trans ((release_arena hold).trans h₁)
  · obtain ⟨t₂, hpure, h⟩ := bind_ok h
    cases hpure
    obtain ⟨_, _, h⟩ := bind_ok h
    exact (release_arena h).trans h₁

end Talloc

end Tauos.Memm
