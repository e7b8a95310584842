import Tauos.Amd64.Paging

/-!
# `map_offset`

`kernel/src/memm/mod.rs`: the recursion over the levels of a page table tree
that maps a span of linear addresses to pages of `page_getter`.

The machine is the memory seen as tables, the state of the `page_getter`
closure, and a `trace` of what the call did with them. The trace is read by
theorems only.

Each level advances its own `base` by its own page size, from where the level
above stands. `Hit acme lvl base a` says that the entry of `a` is met at every
level on the way to a leaf; a page of the span is not hit when the `base` of
some level stands past it inside of its region.
-/

namespace Tauos.Mapper

open Tauos.Rust Tauos.Amd64

/-- What `map_offset` does with the memory and with `page_getter`. -/
inductive Event
  | got (size page : Nat)
  | zeroed (table : Nat)
  | wrote (table index : Nat) (pte : PTE)
  | followed (lvl : Nat) (pte : PTE)
  deriving DecidableEq, Repr

/-- Page tables, the state of `page_getter`, and what has been done so far. -/
structure Machine (γ : Type) where
  mem : Frames
  pages : γ
  trace : List Event

section Model

variable {γ : Type}

/-- `*pte = entry`. -/
def Machine.write (s : Machine γ) (table index : Nat) (pte : PTE) : Machine γ :=
  { s with
    mem := fun f i => if f = table ∧ i = index then pte else s.mem f i
    trace := s.trace ++ [.wrote table index pte] }

/-- `write_bytes(0, 512)` on a table. -/
def Machine.zero (s : Machine γ) (table : Nat) : Machine γ :=
  { s with
    mem := fun f i => if f = table then 0 else s.mem f i
    trace := s.trace ++ [.zeroed table] }

/-- The table of an entry is taken for the next level. -/
def Machine.follow (s : Machine γ) (lvl : Nat) (pte : PTE) : Machine γ :=
  { s with trace := s.trace ++ [.followed lvl pte] }

variable (pageGetter : γ → Nat → Except Fault (Nat × γ))

/-- `page_getter(size)`. -/
def Machine.getPage (s : Machine γ) (size : Nat) : Except Fault (Nat × Machine γ) := do
  let (page, pages) ← pageGetter s.pages size
  return (page, { s with pages, trace := s.trace ++ [.got size page] })

/-- The leaf entry of level `lvl` for the page at `paddr`. -/
def leafEntry (leaves : PTE) (lvl paddr : Nat) : Except Fault PTE := do
  let entry := PTE.P ||| (← PTE.fromPaddr paddr) ||| leaves
  if lvl ≠ PT_LVL then
    if entry.contains PTE.PAT then return entry ||| PTE.PAT_PS
    else return entry ||| PTE.PS
  else return entry

variable (acme : Int) (branches leaves : PTE)

/-- Allocate a page table for an entry that is not present. -/
def newTable (table index : Nat) (s : Machine γ) : Except Fault (Machine γ) := do
  let (page, s) ← s.getPage pageGetter PTE_SIZE
  let s := s.zero page
  return s.write table index (PTE.P ||| (← PTE.fromPaddr page) ||| branches)

/-- The body of the loop of `map_offset`, up to the advance of `base`. -/
def mapEntry (lower : Int → Nat → Machine γ → Except Fault (Machine γ)) (lvl : Nat) (base : Int)
    (table : Nat) (s : Machine γ) : Except Fault (Machine γ) := do
  let index := tableIndex base lvl
  let psAligned := asUsize base &&& (pageSize lvl - 1) == 0
  let remaining ← usizeSub (← usizeAdd (asUsize (← isizeSub acme base)) PTE_SIZE) 1
  if lvl = PT_LVL ∨ (pageSize lvl ≤ remaining ∧ psAligned ∧ lvl < 4) then
    -- create leaf entry, mapping physical to virtual memory
    let (page, s) ← s.getPage pageGetter (pageSize lvl)
    return s.write table index (← leafEntry leaves lvl page)
  else
    -- create and navigate a branch
    let s ← if (s.mem table index).contains PTE.P then pure s
      else newTable pageGetter branches table index s
    let pte := s.mem table index
    lower base pte.getPaddr (s.follow lvl pte)

/-- The loop across the entries of a table. -/
def mapLoop (lower : Int → Nat → Machine γ → Except Fault (Machine γ)) (lvl table : Nat) :
    Nat → Int → Machine γ → Except Fault (Machine γ)
  | 0, _, _ => .error .fuel
  | fuel + 1, base, s =>
    if base < acme then do
      let s ← mapEntry pageGetter acme branches leaves lower lvl base table s
      if tableIndex base lvl = 511 then return s
      else mapLoop lower lvl table fuel (wrappingAdd base (pageSize lvl)) s
    else return s

/-- `map_offset::<LVL>`. A table has 512 entries, and so many turns has the loop. -/
def mapOffset : Nat → Int → Nat → Machine γ → Except Fault (Machine γ)
  | 0, _, _, _ => .error .assertion
  | lvl + 1, base, table, s =>
    if PML4_LVL < lvl + 1 then .error .assertion
    else mapLoop pageGetter acme branches leaves (mapOffset lvl) (lvl + 1) table 512 base s

end Model

/-! ## Which pages are met -/

/-- Level `lvl` puts a leaf at `base`. -/
def LeafAt (acme : Int) (lvl : Nat) (base : Int) : Prop :=
  lvl = PT_LVL ∨ ((pageSize lvl : Int) ≤ acme - base + PTE_SIZE - 1 ∧ (pageSize lvl : Int) ∣ base ∧
    lvl < 4)

instance (acme : Int) (lvl : Nat) (base : Int) : Decidable (LeafAt acme lvl base) :=
  inferInstanceAs (Decidable (_ ∨ _))

/-- Where the loop of level `lvl` that starts at `base` stands in the entry of `a`. -/
def visit (lvl : Nat) (base a : Int) : Int :=
  base + (a / pageSize lvl - base / pageSize lvl) * pageSize lvl

/-- The call on `base` puts a leaf over `a`. -/
def Hit (acme : Int) : Nat → Int → Int → Prop
  | 0, _, _ => False
  | lvl + 1, base, a =>
    base / pageSize (lvl + 1) ≤ a / pageSize (lvl + 1) ∧ visit (lvl + 1) base a < acme ∧
      (LeafAt acme (lvl + 1) (visit (lvl + 1) base a) ∨ Hit acme lvl (visit (lvl + 1) base a) a)

/-- The level of that leaf. -/
def placeLvl (acme : Int) : Nat → Int → Int → Nat
  | 0, _, _ => 0
  | lvl + 1, base, a =>
    if LeafAt acme (lvl + 1) (visit (lvl + 1) base a) then lvl + 1
    else placeLvl acme lvl (visit (lvl + 1) base a) a

/-- No entry that the call follows is a huge page. -/
def Open (acme : Int) (mem : Frames) : Nat → Nat → Int → Prop
  | 0, _, _ => True
  | lvl + 1, table, base => ∀ c, base ≤ c → (pageSize (lvl + 1) : Int) ∣ c - base → c < acme →
      SameTable (lvl + 1) base c → ¬ LeafAt acme (lvl + 1) c →
      (mem table (tableIndex c (lvl + 1))).contains PTE.P = true →
      IsBranch (lvl + 1) (mem table (tableIndex c (lvl + 1))) ∧
        Open acme mem lvl (mem table (tableIndex c (lvl + 1))).getPaddr c

end Tauos.Mapper
