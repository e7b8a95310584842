import Tauos.Mapper.Mapping
import Tauos.Mapper.Setup
import Tauos.Memm.RebasedAlloc
import Tauos.Memm.Realloc

/-!
# The physical memory behind `Mapper::map`

`Mapper::alloc_phys` takes blocks from the allocator that `setup` makes: a `Talloc` over the offset
mapping, whose arena starts one page late. `PhysMem` is such an allocator with its accounting, and
its `allocPhys` hands out pages that are aligned, below the end of physical memory and no longer
free (`PhysMem.supply`), so that the results about `map_offset` apply.

`map_offset` does not look at the state of its `page_getter`; a map between two such states that
commutes with the getters commutes with the call (`mapperMap_mapPages`). With that what is proved of
`PhysMem` holds of the allocator itself.
-/

namespace Tauos.Mapper

open Tauos.Rust Tauos.Utils Tauos.Amd64 Tauos.Memm Tauos.Buddy

/-! ## `page_getter` through a map of its states -/

section MapPages

variable {γ δ : Type} {pageGetter : γ → Nat → Except Fault (Nat × γ)}
  {pageGetter' : δ → Nat → Except Fault (Nat × δ)} (f : γ → δ)

/-- The state of `page_getter` is replaced. -/
def Machine.mapPages (s : Machine γ) : Machine δ := ⟨s.mem, f s.pages, s.trace⟩

/-- The getters do the same, up to `f`. -/
def Commutes (pageGetter : γ → Nat → Except Fault (Nat × γ))
    (pageGetter' : δ → Nat → Except Fault (Nat × δ)) : Prop :=
  ∀ g n, pageGetter' (f g) n = (pageGetter g n).map fun r => (r.1, f r.2)

variable {f} (h : Commutes f pageGetter pageGetter') (branches leaves : PTE) (acme : Int)
include h

/-- A page is obtained in the same way. -/
theorem getPage_mapPages (s : Machine γ) (size : Nat) :
    (s.mapPages f).getPage pageGetter' size
      = (s.getPage pageGetter size).map fun r => (r.1, r.2.mapPages f) := by
  unfold Machine.getPage
  rw [show (s.mapPages f).pages = f s.pages from rfl, h]
  cases pageGetter s.pages size <;> rfl

/-- So is a table. -/
theorem newTable_mapPages (table index : Nat) (s : Machine γ) :
    newTable pageGetter' branches table index (s.mapPages f)
      = (newTable pageGetter branches table index s).map (Machine.mapPages f) := by
  unfold newTable
  rw [getPage_mapPages h]
  cases s.getPage pageGetter PTE_SIZE with
  | error e => rfl
  | ok r =>
    show (PTE.fromPaddr r.1 >>= _) = Except.map _ (PTE.fromPaddr r.1 >>= _)
    cases PTE.fromPaddr r.1 <;> rfl

/-- A pass runs in the same way. -/
theorem mapEntry_mapPages {lower : Int → Nat → Machine γ → Except Fault (Machine γ)}
    {lower' : Int → Nat → Machine δ → Except Fault (Machine δ)}
    (hlower : ∀ base table s, lower' base table (s.mapPages f)
      = (lower base table s).map (Machine.mapPages f)) (lvl : Nat) (base : Int) (table : Nat)
    (s : Machine γ) :
    mapEntry pageGetter' acme branches leaves lower' lvl base table (s.mapPages f)
      = (mapEntry pageGetter acme branches leaves lower lvl base table s).map
        (Machine.mapPages f) := by
  unfold mapEntry
  cases isizeSub acme base with
  | error e => rfl
  | ok d =>
    rw [ok_bind, ok_bind]
    cases usizeAdd (asUsize d) PTE_SIZE with
    | error e => rfl
    | ok d₁ =>
      rw [ok_bind, ok_bind]
      cases usizeSub d₁ 1 with
      | error e => rfl
      | ok remaining =>
        rw [ok_bind, ok_bind]
        dsimp only
        -- a leaf, a table that is there, or a new one
        split
        · rw [getPage_mapPages h]
          cases s.getPage pageGetter (pageSize lvl) with
          | error e => rfl
          | ok r =>
            show (leafEntry leaves lvl r.1 >>= _) = Except.map _ (leafEntry leaves lvl r.1 >>= _)
            cases leafEntry leaves lvl r.1 <;> rfl
        · rw [show (s.mapPages f).mem = s.mem from rfl]
          split
          · exact hlower base (s.mem table (tableIndex base lvl)).getPaddr
              (s.follow lvl (s.mem table (tableIndex base lvl)))
          · rw [newTable_mapPages h]
            cases newTable pageGetter branches table (tableIndex base lvl) s with
            | error e => rfl
            | ok s₁ =>
              exact hlower base (s₁.mem table (tableIndex base lvl)).getPaddr
                (s₁.follow lvl (s₁.mem table (tableIndex base lvl)))

/-- So does the loop. -/
theorem mapLoop_mapPages {lower : Int → Nat → Machine γ → Except Fault (Machine γ)}
    {lower' : Int → Nat → Machine δ → Except Fault (Machine δ)}
    (hlower : ∀ base table s, lower' base table (s.mapPages f)
      = (lower base table s).map (Machine.mapPages f)) (lvl table fuel : Nat) : ∀ base s,
    mapLoop pageGetter' acme branches leaves lower' lvl table fuel base (s.mapPages f)
      = (mapLoop pageGetter acme branches leaves lower lvl table fuel base s).map
        (Machine.mapPages f) := by
  induction fuel with
  | zero => exact fun _ _ => rfl
  | succ fuel ih =>
    intro base s
    unfold mapLoop
    split
    · rw [mapEntry_mapPages h branches leaves acme hlower]
      cases mapEntry pageGetter acme branches leaves lower lvl base table s with
      | error e => rfl
      | ok s₁ =>
        show (if tableIndex base lvl = 511 then _ else _) = Except.map _ (if _ then _ else _)
        split
        · rfl
        · exact ih _ _
    · rfl

/-- So does `map_offset`. -/
theorem mapOffset_mapPages (lvl : Nat) : ∀ base table s,
    mapOffset pageGetter' acme branches leaves lvl base table (s.mapPages f)
      = (mapOffset pageGetter acme branches leaves lvl base table s).map (Machine.mapPages f) := by
  induction lvl with
  | zero => exact fun _ _ _ => rfl
  | succ lvl ih =>
    intro base table s
    unfold mapOffset
    split
    · rfl
    · exact mapLoop_mapPages h branches leaves acme ih _ _ _ _ _

/-- `Mapper::map` sees nothing of its physical memory but the pages. -/
theorem mapperMap_mapPages (base : Int) (size pml4 : Nat) (s : Machine γ) :
    mapperMap pageGetter' base size branches leaves pml4 (s.mapPages f)
      = (mapperMap pageGetter base size branches leaves pml4 s).map
        fun r => (r.1, r.2.mapPages f) := by
  unfold mapperMap
  cases ensure (decide (size ≠ 0)) with
  | error e => rfl
  | ok u =>
    rw [ok_bind, ok_bind]
    cases roundUpPage size with
    | error e => rfl
    | ok n =>
      rw [ok_bind, ok_bind]
      dsimp only
      rw [mapOffset_mapPages h]
      cases mapOffset pageGetter _ branches leaves 4 _ pml4 s <;> rfl

end MapPages

/-! ## The allocator of the mapper -/

/-- `to_phys_addr!`. -/
def toPhysAddr (laddr : Int) : Except Fault Nat := do
  return asUsize (← isizeSub laddr PHYS_LADDR_OFFSET)

/-- `Layout::from_size_align_unchecked`, within its contract. -/
def layoutOf (size align : Nat) : Except Fault Layout :=
  if isPowerOfTwo align = true ∧ size + align ≤ 2 ^ 63 then .ok ⟨size, align⟩
  else .error .undefined

/-- `Mapper::alloc_phys`. The handler refuses at once, so that `alloc` has no need of fuel. -/
def allocPhys (talloc : Talloc FreeLists) (size : Nat) : Except Fault (Nat × Talloc FreeLists) := do
  let (ptr, _, talloc) ← talloc.alloc mapperOomHandler 1 () (← layoutOf size size)
  return (← toPhysAddr (← unwrap ptr), talloc)

/-- An allocator over the offset mapping of `hi` bytes of physical memory, in the arena that starts
at the offset itself. -/
structure PhysMem (hi K : Nat) where
  talloc : Talloc FreeLists
  arena : talloc.toArena = lowArena hi
  small : K ≤ 39
  accounted : ∃ L, Accounted K 12 L talloc

namespace PhysMem

variable {hi K : Nat}

/-- The allocator of `setup`, whose arena starts at the second page. -/
def late (m : PhysMem hi K) : Talloc FreeLists := m.talloc.rebased (PHYS_LADDR_OFFSET + PTE_SIZE)

/-- The physical address is free. -/
def Avail (m : PhysMem hi K) (x : Nat) : Prop := m.talloc.Free (x + PHYS_LADDR_OFFSET)

/-- A layout that was made is valid. -/
theorem layoutOf_ok {size align : Nat} {l : Layout} (h : layoutOf size align = .ok l) :
    l = ⟨size, align⟩ ∧ l.Valid := by
  unfold layoutOf at h
  split at h
  next hc =>
    cases h
    exact ⟨rfl, isPowerOfTwo_iff.mp hc.1, hc.2⟩
  next => cases h

/-- What a page is taken from. -/
theorem alloc_ok (m : PhysMem hi K) {size p : Nat} {t : Talloc FreeLists}
    (h : Mapper.allocPhys m.talloc size = .ok (p, t)) :
    ∃ e b, m.talloc.layoutToSize ⟨size, size⟩ = 2 ^ e ∧ 12 ≤ e ∧ e ≤ K ∧ size ≤ 2 ^ e ∧
      size ∣ 2 ^ e ∧ Talloc.Taken K 12 e m.talloc b t ∧ toPhysAddr b = .ok p ∧
      (⟨size, size⟩ : Layout).Valid ∧ 0 < size ∧
      Talloc.alloc mapperOomHandler 1 () m.talloc ⟨size, size⟩ = .ok (some b, (), t) := by
  obtain ⟨L, hacc⟩ := m.accounted
  obtain ⟨l, hl, h⟩ := bind_ok h
  obtain ⟨⟨ptr, u, t₁⟩, halloc, h⟩ := bind_ok h
  obtain ⟨b, hb, h⟩ := bind_ok h
  obtain ⟨p', hp, h⟩ := bind_ok h
  cases h
  obtain ⟨rfl, hvalid⟩ := layoutOf_ok hl
  obtain ⟨a, ha⟩ := hvalid.align
  have hpos : 0 < size := by
    rw [show size = 2 ^ a from ha]
    exact Nat.two_pow_pos a
  have hs := hacc.inv.soundAt
  obtain ⟨e, hsize, hJe, _, hle, hal⟩ := layoutToSize_spec (a := m.talloc.toArena) hvalid hpos.ne'
    hs.smlst hs.hJ
  obtain ⟨hrun, _⟩ | ⟨q, g, t', hrun, _, htaken, heK⟩ :=
    alloc_refusing hacc.inv hacc.null_not_free hsize hJe () 0
  · rw [hrun] at halloc
    cases halloc
    cases hb
  · rw [hrun] at halloc
    cases halloc
    cases hb
    exact ⟨e, b, hsize, hJe, heK, hle, hal, htaken, hp, hvalid, hpos, hrun⟩

/-- The block goes to the outstanding ones. -/
theorem alloc_accounted (m : PhysMem hi K) {size p : Nat} {t : Talloc FreeLists}
    (h : Mapper.allocPhys m.talloc size = .ok (p, t)) :
    t.toArena = lowArena hi ∧ ∃ L, Accounted K 12 L t := by
  obtain ⟨L, hacc⟩ := m.accounted
  obtain ⟨e, b, hsize, hJe, heK, hle, hal, htaken, _⟩ := m.alloc_ok h
  exact ⟨htaken.shape.arena.trans m.arena, _, hacc.take hsize hJe heK hle hal htaken⟩

/-- `Mapper::alloc_phys`, with the accounting. -/
def allocPhys (m : PhysMem hi K) (size : Nat) : Except Fault (Nat × PhysMem hi K) :=
  match h : Mapper.allocPhys m.talloc size with
  | .error e => .error e
  | .ok (p, t) => .ok (p, {
      talloc := t
      arena := (m.alloc_accounted h).1
      small := m.small
      accounted := (m.alloc_accounted h).2 })

/-- What was allocated is from the allocator. -/
theorem allocPhys_ok {m m' : PhysMem hi K} {size p : Nat} (h : m.allocPhys size = .ok (p, m')) :
    Mapper.allocPhys m.talloc size = .ok (p, m'.talloc) := by
  unfold allocPhys at h
  split at h
  next => cases h
  next p t heq =>
    cases h
    exact heq

/-- The arena is moved by its alignment. -/
theorem sameOffsets (m : PhysMem hi K) :
    Talloc.SameOffsets m.talloc.toArena 12 K (PHYS_LADDR_OFFSET + PTE_SIZE) := by
  have hOff : PHYS_LADDR_OFFSET = -2 ^ 47 := by decide
  have hsmall := m.small
  rw [m.arena]
  have hal : Buddy.Aligned (K + 1) (lowArena hi).arenaBase := by
    show Buddy.Aligned (K + 1) PHYS_LADDR_OFFSET
    rw [hOff]
    exact (dvd_neg).mpr (pow_dvd_pow 2 (by omega))
  have hbase : InIsize (lowArena hi).arenaBase := by
    show InIsize PHYS_LADDR_OFFSET
    exact ⟨by omega, by omega⟩
  have hbase' : InIsize ((lowArena hi).arenaBase + 2 ^ 12) := by
    show InIsize (PHYS_LADDR_OFFSET + 2 ^ 12)
    exact ⟨by omega, by omega⟩
  exact Talloc.sameOffsets_late hal (by omega) hbase hbase'

/-- Allocating is allocating from the allocator. -/
theorem allocPhys_talloc (m : PhysMem hi K) (size : Nat) :
    (m.allocPhys size).map (fun r => (r.1, r.2.talloc)) = Mapper.allocPhys m.talloc size := by
  unfold allocPhys
  split
  next e heq => exact heq.symm
  next p t heq => exact heq.symm

/-- In the late arena the same pages are handed out. -/
theorem allocPhys_late (m : PhysMem hi K) (size : Nat) : Mapper.allocPhys m.late size
    = (Mapper.allocPhys m.talloc size).map
      fun r => (r.1, r.2.rebased (PHYS_LADDR_OFFSET + PTE_SIZE)) := by
  obtain ⟨L, hacc⟩ := m.accounted
  unfold Mapper.allocPhys
  cases hl : layoutOf size size with
  | error e => rfl
  | ok l =>
    rw [ok_bind, ok_bind]
    obtain ⟨rfl, hvalid⟩ := layoutOf_ok hl
    obtain ⟨a, ha⟩ := hvalid.align
    have h0 : size ≠ 0 := by
      rw [show size = 2 ^ a from ha]
      exact (Nat.two_pow_pos a).ne'
    have hs := hacc.inv.soundAt
    obtain ⟨e, hsize, hJe, _⟩ := layoutToSize_spec (a := m.talloc.toArena) hvalid h0 hs.smlst hs.hJ
    obtain ⟨r, t', hrun⟩ : ∃ r t', Talloc.alloc mapperOomHandler 1 () m.talloc ⟨size, size⟩
        = .ok (r, (), t') := by
      obtain ⟨hrun, _⟩ | ⟨q, g, t', hrun, _⟩ :=
        alloc_refusing hacc.inv hacc.null_not_free hsize hJe () 0
      · exact ⟨none, m.talloc, hrun⟩
      · exact ⟨some q, t', hrun⟩
    have hlate : Talloc.alloc mapperOomHandler 1 () m.late ⟨size, size⟩
        = .ok (r, (), t'.rebased (PHYS_LADDR_OFFSET + PTE_SIZE)) :=
      Talloc.alloc_rebased hacc.inv hvalid h0 m.sameOffsets hrun
    rw [hlate, hrun, ok_bind, ok_bind]
    cases r with
    | none => rfl
    | some b =>
      show (toPhysAddr b >>= _) = Except.map _ (toPhysAddr b >>= _)
      cases toPhysAddr b <;> rfl

/-- The allocator of `setup` hands out the pages of `PhysMem`. -/
theorem commutes : Commutes (late : PhysMem hi K → _) allocPhys Mapper.allocPhys := by
  intro m n
  rw [allocPhys_late, ← allocPhys_talloc]
  cases m.allocPhys n <;> rfl

/-- A block of the arena, as a physical page. -/
theorem toPhysAddr_block (m : PhysMem hi K) {e p : Nat} {b : Int} (heK : e ≤ K)
    (hal : Buddy.Aligned e b) (hin : m.talloc.Holds e b) (hp : toPhysAddr b = .ok p) :
    (p : Int) + PHYS_LADDR_OFFSET = b ∧ 2 ^ e ∣ p ∧ p + 2 ^ e ≤ hi := by
  have hOff : PHYS_LADDR_OFFSET = -2 ^ 47 := by decide
  have hsmall := m.small
  obtain ⟨L, hacc⟩ := m.accounted
  have hsize : hi ≤ 2 ^ K := by
    have := hacc.inv.nat.size
    rwa [m.arena] at this
  have hK : 2 ^ K ≤ 2 ^ 39 := Nat.pow_le_pow_right (by omega) hsmall
  obtain ⟨hlo, hhi⟩ := hin
  rw [m.arena] at hlo hhi
  change PHYS_LADDR_OFFSET ≤ b at hlo
  change b + 2 ^ e ≤ PHYS_LADDR_OFFSET + hi at hhi
  have hpos := two_pow_pos e
  have hback : (p : Int) + PHYS_LADDR_OFFSET = b := by
    unfold toPhysAddr at hp
    rw [isizeSub_of_inIsize ⟨by omega, by omega⟩, ok_bind] at hp
    cases hp
    rw [asUsize_of_nonneg (by omega) (by omega)]
    omega
  refine ⟨hback, ?_, ?_⟩
  · have hdvd : (2 : Int) ^ e ∣ p := by
      rw [show (p : Int) = b - PHYS_LADDR_OFFSET by omega, hOff]
      exact Int.dvd_sub hal ((dvd_neg).mpr (pow_dvd_pow 2 (by omega)))
    exact_mod_cast hdvd
  · have : (p : Int) + 2 ^ e ≤ hi := by omega
    exact_mod_cast this

/-- What `page_getter` promises. -/
theorem supply : Supply allocPhys (Avail : PhysMem hi K → Nat → Prop) := by
  refine ⟨fun m l p m' h1 h3 h => ?_⟩
  obtain ⟨e, b, _, _, heK, hle, hdvd, htaken, hp, _⟩ := m.alloc_ok (allocPhys_ok h)
  obtain ⟨hback, hal, hend⟩ := m.toPhysAddr_block heK htaken.aligned htaken.holds hp
  obtain ⟨L, hacc⟩ := m.accounted
  have hsize : hi ≤ 2 ^ K := by
    have := hacc.inv.nat.size
    rwa [m.arena] at this
  have hK : 2 ^ K ≤ 2 ^ 39 := Nat.pow_le_pow_right (by omega) m.small
  have hle' : ((pageSize l : Nat) : Int) ≤ 2 ^ e := by exact_mod_cast hle
  have hwithin : ∀ x, p ≤ x → x < p + pageSize l → Within e b (x + PHYS_LADDR_OFFSET) := by
    intro x hx hx'
    refine ⟨?_, ?_⟩
    · omega
    · omega
  refine ⟨hdvd.trans hal, by omega, fun x hx hx' => ?_, fun x hx => ?_⟩
  · unfold Avail
    rw [hacc.inv.free_iff]
    exact (htaken.covers _).mpr (.inl (hwithin x hx hx'))
  · unfold Avail at hx ⊢
    rw [htaken.inv.free_iff] at hx
    refine ⟨?_, fun hpage => htaken.apart _ (hwithin x hpage.1 hpage.2) hx⟩
    rw [hacc.inv.free_iff]
    exact (htaken.covers _).mpr (.inr hx)

end PhysMem

end Tauos.Mapper
