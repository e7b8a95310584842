import Tauos.Memm.Construct

/-!
# Whole runs of a `Talloc`

`Run arenaBase arenaSize smallestBlock freeMem L t`: the allocator `t`, with
ledger `L`, is reached from `Talloc::new` on a site by calls within their
contracts. Three things hold in every such state, all by the one induction of
`Calls.accounted`:

* `run_agrees`: lists, `avails` and bitmap agree, and the next call returns, or
  is a `release` stopped by an overflow at the edge of the address space; no
  granularity is ever decremented below 0;
* `run_alloc_safe`: a pointer from `alloc` is an aligned block of released
  memory that overlaps nothing else in use;
* `run_canonical`: the state is determined by the set of free addresses, up to
  the order of the lists, and giving back everything one took restores it.
-/

namespace Tauos.Memm

open Tauos.Rust Tauos.Utils Tauos.Buddy

/-- A sequence of calls, each within its contract and of the kind `P`, that returned. -/
inductive Calls (P : Op → Prop) (L₀ : Ledger) (t₀ : Talloc FreeLists) :
    Ledger → Talloc FreeLists → Prop
  | refl : Calls P L₀ t₀ L₀ t₀
  | call {L L' : Ledger} {t t' : Talloc FreeLists} {op : Op} {ptr : Option Int} :
      Calls P L₀ t₀ L t → P op → op.Allowed L t → op.run L t = .ok (ptr, L', t') →
      Calls P L₀ t₀ L' t'

/-- The memory of `free_mem` behind the status data of `t`. -/
def Talloc.behind {σ : Type} (t : Talloc σ) (freeMem : Slice) : Slice :=
  ⟨t.bitmapPtr + t.bitmapLen, (freeMem.ptr + freeMem.len - (t.bitmapPtr + t.bitmapLen)).toNat⟩

/-- The states reached from `Talloc::new` on a site. -/
def Run (arenaBase : Int) (arenaSize smallestBlock : Nat) (freeMem : Slice) (L : Ledger)
    (t : Talloc FreeLists) : Prop :=
  Site arenaBase arenaSize smallestBlock freeMem ∧
  ∃ t₀, Talloc.new arenaBase arenaSize smallestBlock freeMem = .ok t₀ ∧
    Calls (fun _ => True) ⟨[], [t₀.behind freeMem]⟩ t₀ L t

section Calls

variable {P : Op → Prop} {K J : Nat} {L₀ L : Ledger} {t₀ t : Talloc FreeLists}

/-- Each call keeps the accounting. -/
theorem Calls.accounted (h₀ : Accounted K J L₀ t₀) (h : Calls P L₀ t₀ L t) :
    Accounted K J L t ∧ Talloc.SameShape t₀ t := by
  induction h with
  | refl => exact ⟨h₀, Talloc.SameShape.refl t₀⟩
  | call _ _ hall hrun ih =>
    obtain ⟨hacc, hsh⟩ := ih
    obtain ⟨hacc', hsh', _⟩ := Op.accounted hacc hall hrun
    exact ⟨hacc', hsh.trans hsh'⟩

/-- Calls that release nothing leave the released memory as it is. -/
theorem Calls.given_eq (h₀ : Accounted K J L₀ t₀) (hP : ∀ op, P op → NoRelease op.acts)
    (h : Calls P L₀ t₀ L t) : L.given = L₀.given := by
  induction h with
  | refl => rfl
  | call hcalls hp hall hrun ih =>
    obtain ⟨hacc, _⟩ := hcalls.accounted h₀
    obtain ⟨_, _, hgiven⟩ := Op.accounted hacc hall hrun
    exact (hgiven (hP _ hp)).trans ih

end Calls

section Run

variable {arenaBase : Int} {arenaSize smallestBlock : Nat} {freeMem : Slice} {L : Ledger}
  {t : Talloc FreeLists}

/-- A run starts at what `new` leaves on its site, and keeps its shape. -/
theorem Run.start (h : Run arenaBase arenaSize smallestBlock freeMem L t) :
    ∃ K J, Accounted K J L t ∧ smallestBlock = 2 ^ J ∧ nextPowerOfTwo arenaSize = 2 ^ K ∧
      64 ≤ arenaSize ∧
      sliceBytes arenaSize smallestBlock
        = .ok ((K - J + 1) * nodeSize, max (2 ^ (K - J + 1) / 8) 1) ∧
      Talloc.SameShape (Talloc.fresh arenaBase arenaSize K J freeMem) t := by
  obtain ⟨hsite, t₀, hnew, hcalls⟩ := h
  cases hs : sliceBytes arenaSize smallestBlock with
  | error f =>
    -- `extend` computes the lengths first
    have : Talloc.new arenaBase arenaSize smallestBlock freeMem = .error f := by
      unfold Talloc.new Talloc.extend
      rw [show (Talloc.newInvalid smallestBlock).smlstBlock = smallestBlock from rfl, hs]
      rfl
    rw [this] at hnew
    cases hnew
  | ok r =>
    obtain ⟨K, J, rfl, hK, hJ, hJK, hK48, h64, hn, rfl⟩ := sliceBytes_ok hs
    rcases new_spec hsite hK hJ hJK hK48 h64 hn with ⟨herr, _⟩ | ⟨t₁, hok, hsh, hacc⟩
    · rw [hnew] at herr
      cases herr
    · rw [hnew] at hok
      cases hok
      obtain ⟨c, _, hc1, hc2⟩ := hsite.place.room_le hs
      have htail : t₀.behind freeMem = tailOf K J freeMem := by
        have hend : t₀.bitmapPtr + t₀.bitmapLen = freeMem.ptr + statusBytes K J freeMem := by
          rw [hsh.bitmapPtr, hsh.bitmapLen]
          exact Talloc.fresh_end ..
        unfold Talloc.behind tailOf
        rw [hend]
        congr 1
        omega
      rw [htail] at hcalls
      obtain ⟨hacc', hsh'⟩ := hcalls.accounted hacc
      exact ⟨K, J, hacc', rfl, hK, h64, rfl, hsh.trans hsh'⟩

/-- The accounting holds along every run. -/
theorem Run.accounted (h : Run arenaBase arenaSize smallestBlock freeMem L t) :
    ∃ K J, Accounted K J L t ∧
      t.toArena = ⟨arenaBase, arenaSize, nextPowerOfTwo arenaSize, smallestBlock⟩ ∧
      smallestBlock = 2 ^ J ∧ nextPowerOfTwo arenaSize = 2 ^ K ∧
        getBit t.store.bitmap 0 = false := by
  obtain ⟨K, J, hacc, hJ, hK, _, _, hsh⟩ := h.start
  refine ⟨K, J, hacc, ?_, hJ, hK, ?_⟩
  · rw [hsh.arena, hJ]
    rfl
  · rw [hsh.bit0]
    exact getBit_replicate_zero _ _

/-! ## A sample run

A heap of 1 KiB at address 4096 with blocks of at least 32 bytes, all of it
`free_mem`: the status data takes the first 120 bytes. The statements about
runs below are instantiated at this one.
-/

/-- The sample heap with the given free lists, `avails` and first two bitmap bytes. -/
def sample (llists : List (List Int)) (avails : Nat) (b₀ b₁ : BitVec 8) : Talloc FreeLists where
  arenaBase := 4096
  arenaSize := 1024
  arenaSizePow2 := 1024
  smlstBlock := 32
  avails := avails
  llistsPtr := 4112
  llistsLen := 6
  bitmapPtr := 4208
  bitmapLen := 8
  store := ⟨llists, [b₀, b₁, 0, 0, 0, 0, 0, 0]⟩

/-- The sample heap as `new` leaves it. -/
def sampleNew : Talloc FreeLists := sample [[], [4608], [4352], [4224], [], []] 14 0x16 0

/-- The sample heap without its upper half. -/
def sampleBusy : Talloc FreeLists := sample [[], [], [4352], [4224], [], []] 12 0x14 0

/-- After an allocation of 40 bytes: the block at 4224 is split. -/
def sampleTaken : Talloc FreeLists := sample [[], [4608], [4352], [], [4288], []] 22 0x06 0x02

/-- What is outstanding of the sample heap. -/
def sampleLedger (live : List (Int × Layout)) : Ledger := ⟨live, [⟨4216, 904⟩]⟩

/-- The sample heap has a site. -/
theorem sample_site : Site 4096 1024 32 ⟨4096, 1024⟩ := by
  have hs : sliceBytes 1024 (2 ^ 5) = .ok (96, 8) := by decide
  refine Site.of_room (J := 5) (by decide) (by decide) (by decide) (by decide) (by decide) ?_
  intro ll bm h
  rw [hs] at h
  cases h
  decide

/-- Forty bytes may be asked for. -/
theorem sample_alloc_allowed : (Op.alloc ⟨40, 8⟩ []).Allowed (sampleLedger []) sampleNew :=
  ⟨⟨⟨3, rfl⟩, by decide⟩, by decide, trivial⟩

/-- And are handed out. -/
theorem sample_alloc : (Op.alloc ⟨40, 8⟩ []).run (sampleLedger []) sampleNew
    = .ok (some 4224, sampleLedger [(4224, ⟨40, 8⟩)], sampleTaken) := by decide +kernel

/-- The run without a call. -/
theorem sample_run : Run 4096 1024 32 ⟨4096, 1024⟩ (sampleLedger []) sampleNew :=
  ⟨sample_site, sampleNew, by decide +kernel, Calls.refl⟩

/-- Taking the block and giving it back. -/
theorem sample_round_trip :
    Calls (fun op => NoRelease op.acts)
    (sampleLedger []) sampleNew (sampleLedger []) sampleNew := by
  have hdealloc : (Op.act (.dealloc 4224 ⟨40, 8⟩)).run (sampleLedger [(4224, ⟨40, 8⟩)]) sampleTaken
      = .ok (none, sampleLedger [], sampleNew) := by decide +kernel
  refine Calls.call (Calls.call Calls.refl ?_ sample_alloc_allowed sample_alloc) ?_
    (List.mem_singleton.mpr rfl) hdealloc
  · intro m hm
    simp [Op.acts] at hm
  · intro m hm
    simp [Op.acts] at hm

/-! ## The representation invariant -/

/-- The buddy that `dealloc` looks at. -/
def buddyOf (b : Int) (size : Nat) : Int := if isLowerBuddy b size then b + size else b - size

/-- Free lists, `avails` and bitmap agree. -/
structure Talloc.Agrees (t : Talloc FreeLists) : Prop where
  nodup : ∀ g, (t.list g).Nodup
  aligned : ∀ g, ∀ b ∈ t.list g, ((t.arenaSizePow2 >>> g : Nat) : Int) ∣ b
  inside : ∀ g, ∀ b ∈ t.list g,
    t.arenaBase ≤ b ∧ b + (t.arenaSizePow2 >>> g : Nat) ≤ t.arenaBase + t.arenaSize
  avails : ∀ g, t.avails.testBit g = true ↔ t.list g ≠ []
  bits : ∀ g, 1 ≤ g → g < t.llistsLen → ∀ b : Int, ((t.arenaSizePow2 >>> g : Nat) : Int) ∣ b →
    t.arenaBase ≤ b → b < t.arenaBase + t.arenaSizePow2 →
    (t.bitmapOffset b (t.arenaSizePow2 >>> g) >>= t.readBitflag)
        = .ok (decide (b ∈ t.list g) ^^ decide (buddyOf b (t.arenaSizePow2 >>> g) ∈ t.list g)) ∧
      ¬ (b ∈ t.list g ∧ buddyOf b (t.arenaSizePow2 >>> g) ∈ t.list g)

/-- It is the buddy. -/
theorem buddyOf_eq {e : Nat} {b : Int} (he : e < 64) (ha : Aligned e b) :
    buddyOf b (2 ^ e) = buddy e b := by
  have hlow := Natural.isLowerBuddy he ha
  unfold buddyOf buddy
  by_cases hal : Aligned (e + 1) b
  · rw [if_pos (hlow.mpr hal), if_pos hal]
    push_cast
    rfl
  · rw [if_neg (fun hc => hal (hlow.mp hc)), if_neg hal]
    push_cast
    rfl

/-- The invariant of the proofs, in the terms of the source. -/
theorem Talloc.Inv.agrees {K J : Nat} (h : Talloc.Inv K J t) : t.Agrees := by
  have hsize : ∀ g, g ≤ K → t.arenaSizePow2 >>> g = 2 ^ (K - g) := fun g hg => by
    rw [h.nat.pow2, two_pow_shiftRight hg]
  have hK := h.nat.hK
  refine ⟨h.nodup, fun g b hb => ?_, fun g b hb => ?_, h.avail, fun g hg1 hgl b hdvd hlo hhi => ?_⟩
  · obtain ⟨hg, hF⟩ := h.freeBlock_of_mem hb
    rw [hsize g hg]
    push_cast
    exact h.canon.aligned hF
  · obtain ⟨hg, hF⟩ := h.freeBlock_of_mem hb
    rw [hsize g hg]
    push_cast
    exact h.holds hF
  · have hgl' := h.llen
    have hJK := h.nat.hJK
    rw [hsize g (by omega)] at hdvd ⊢
    push_cast at hdvd
    have hal : Aligned (K - g) b := hdvd
    rw [h.nat.pow2] at hhi
    push_cast at hhi
    have hgK : K - (K - g) = g := by omega
    have hlist : ∀ c, t.FreeBlock K (K - g) c ↔ c ∈ t.list g := by
      intro c
      unfold Talloc.FreeBlock
      rw [hgK]
      exact ⟨And.right, fun hc => ⟨by omega, hc⟩⟩
    -- the bit tells if one half is free; both are not
    have hbit := h.bit_iff (show K - g < K by omega) hal hlo hhi
    have hnb : b ∈ t.list g → ¬ buddy (K - g) b ∈ t.list g := fun h1 h2 =>
      h.canon.noBuddy ((hlist b).mpr h1) ((hlist _).mpr h2)
    rw [buddyOf_eq (by omega) hal, h.nat.bitmapOffset (by omega) hlo hhi]
    refine ⟨?_, fun hc => hnb hc.1 hc.2⟩
    have hidx := h.bit_lt_of_span (show J ≤ K - g by omega) (by omega) hlo hhi
    rw [hlist, hlist] at hbit
    show t.readBitflag (bitIndex K t.arenaBase (K - g) b) = _
    rw [Talloc.readBitflag_eq hidx]
    congr 1
    rw [Bool.eq_iff_iff, hbit]
    by_cases h1 : b ∈ t.list g <;> by_cases h2 : buddy (K - g) b ∈ t.list g
    · exact absurd h2 (hnb h1)
    · simp [h1, h2]
    · simp [h1, h2]
    · simp [h1, h2]

/-- Along every run the records agree, and the next call returns unless it is a
`release` at the edge of the address space. -/
theorem run_agrees (h : Run arenaBase arenaSize smallestBlock freeMem L t) :
    t.Agrees ∧ ∀ op : Op, op.Allowed L t → op.run L t ≠ .error .underflow ∧
      ((∃ r, op.run L t = .ok r) ∨
        (op.run L t = .error .overflow ∧ ∃ a ∈ op.acts, a.AtEdge t.toArena)) := by
  obtain ⟨K, J, hacc, _⟩ := h.accounted
  refine ⟨hacc.inv.agrees, fun op hop => ?_⟩
  rcases Op.run_spec hacc hop with ⟨herr, hedge⟩ | ⟨ptr, L', t', hok, _⟩
  · refine ⟨?_, Or.inr ⟨herr, hedge⟩⟩
    rw [herr]
    exact fun hc => by cases hc
  · refine ⟨?_, Or.inl ⟨_, hok⟩⟩
    rw [hok]
    exact fun hc => by cases hc

/-- The ledger of the sample heap when only its lower half is `free_mem`. -/
def sampleParts (live : List (Int × Layout)) : Ledger := ⟨live, [⟨4608, 512⟩, ⟨4216, 392⟩]⟩

/-- The upper half may be released, since nobody has it. -/
theorem sample_release_allowed :
    (Op.act (.release ⟨4608, 512⟩)).Allowed ⟨[], [⟨4216, 392⟩]⟩ sampleBusy where
  ptr := by decide
  len := by decide
  lo := by decide
  hi := by decide
  reserved x hx := by
    obtain ⟨hlo, hhi⟩ := hx
    dsimp only at hlo hhi
    have hlist : ∀ g < 6, ∀ b ∈ sampleBusy.list g,
        b + (sampleBusy.arenaSizePow2 >>> g : Nat) ≤ 4608 := by decide
    refine ⟨fun hfree => ?_, fun hlive => ?_, fun hstatus => ?_⟩
    · obtain ⟨g, b, hb, _, h2⟩ := hfree
      have := hlist g (Talloc.lt_of_mem_list hb) b hb
      omega
    · obtain ⟨q, hq, _⟩ := hlive
      exact absurd hq List.not_mem_nil
    · have h2 : x < 4208 + 8 := hstatus.2
      omega

/-- A run with all calls: the upper half is released, two blocks are taken, one is given back and
the other shrunk. -/
theorem sample_calls :
    Run 4096 1024 32 ⟨4096, 512⟩ (sampleParts [(4224, ⟨40, 8⟩)]) sampleTaken := by
  have hsite : Site 4096 1024 32 ⟨4096, 512⟩ := by
    have hs : sliceBytes 1024 (2 ^ 5) = .ok (96, 8) := by decide
    refine Site.of_room (J := 5) (by decide) (by decide) (by decide) (by decide) (by decide) ?_
    intro ll bm h
    rw [hs] at h
    cases h
    decide
  -- each call is run on the state that the one before has left
  have hrelease : (Op.act (.release ⟨4608, 512⟩)).run ⟨[], [⟨4216, 392⟩]⟩ sampleBusy
      = .ok (none, sampleParts [], sampleNew) := by decide +kernel
  have halloc : (Op.alloc ⟨200, 8⟩ []).run (sampleParts []) sampleNew
      = .ok (some 4352, sampleParts [(4352, ⟨200, 8⟩)],
        sample [[], [4608], [], [4224], [], []] 10 0x12 0) := by decide +kernel
  have halloc' : (Op.alloc ⟨100, 8⟩ []).run (sampleParts [(4352, ⟨200, 8⟩)])
      (sample [[], [4608], [], [4224], [], []] 10 0x12 0)
      = .ok (some 4224, sampleParts [(4224, ⟨100, 8⟩), (4352, ⟨200, 8⟩)],
        sample [[], [4608], [], [], [], []] 2 0x02 0) := by decide +kernel
  have hdealloc : (Op.act (.dealloc 4352 ⟨200, 8⟩)).run
      (sampleParts [(4224, ⟨100, 8⟩), (4352, ⟨200, 8⟩)])
      (sample [[], [4608], [], [], [], []] 2 0x02 0)
      = .ok (none, sampleParts [(4224, ⟨100, 8⟩)],
        sample [[], [4608], [4352], [], [], []] 6 0x06 0) := by decide +kernel
  have hshrink : (Op.act (.shrink 4224 ⟨100, 8⟩ ⟨40, 8⟩)).run (sampleParts [(4224, ⟨100, 8⟩)])
      (sample [[], [4608], [4352], [], [], []] 6 0x06 0)
      = .ok (none, sampleParts [(4224, ⟨40, 8⟩)], sampleTaken) := by decide +kernel
  refine ⟨hsite, sampleBusy, by decide +kernel, ?_⟩
  refine Calls.call (Calls.call (Calls.call (Calls.call (Calls.call Calls.refl trivial
    sample_release_allowed hrelease) trivial ?_ halloc) trivial ?_ halloc') trivial ?_ hdealloc)
    trivial ?_ hshrink
  · exact ⟨⟨⟨3, rfl⟩, by decide⟩, by decide, trivial⟩
  · exact ⟨⟨⟨3, rfl⟩, by decide⟩, by decide, trivial⟩
  · exact List.mem_cons_of_mem _ (List.mem_cons_self ..)
  · exact ⟨List.mem_cons_self .., ⟨⟨3, rfl⟩, by decide⟩, by decide, by decide⟩

/-- After that run the records agree, and giving back the block that was shrunk returns. -/
theorem run_agrees_sample : sampleTaken.Agrees ∧
    ∃ r, (Op.act (.dealloc 4224 ⟨40, 8⟩)).run (sampleParts [(4224, ⟨40, 8⟩)]) sampleTaken
      = .ok r := by
  obtain ⟨hagrees, hnext⟩ := run_agrees sample_calls
  obtain ⟨_, hok | ⟨_, a, ha, hedge⟩⟩ :=
    hnext (Op.act (.dealloc 4224 ⟨40, 8⟩)) (List.mem_singleton_self _)
  · exact ⟨hagrees, hok⟩
  · obtain rfl := List.mem_singleton.mp ha
    exact hedge.elim

/-! ## Allocation safety -/

/-- The released blocks of a slice lie in the slice. -/
theorem Ledger.Given.mem {J : Nat} {x : Int} (h : L.Given J x) : ∃ m ∈ L.given, m.Mem x := by
  obtain ⟨m, hm, h1, h2⟩ := h
  have ha := Talloc.spanAcme_bounds J m
  exact ⟨m, hm, Talloc.le_of_spanFirst_le h1, by omega⟩

/-- A pointer from `alloc` is a block of the size and alignment asked for, in
released memory, apart from everything else. -/
theorem run_alloc_safe (h : Run arenaBase arenaSize smallestBlock freeMem L t) {layout : Layout}
    {script : List Answer} {p : Int} {L' : Ledger} {t' : Talloc FreeLists}
    (hop : (Op.alloc layout script).Allowed L t)
    (hrun : (Op.alloc layout script).run L t = .ok (some p, L', t')) :
    ((t.layoutToSize layout : Nat) : Int) ∣ p ∧ (layout.align : Int) ∣ p ∧
    layout.size ≤ t.layoutToSize layout ∧
    ∃ others, L'.live = (p, layout) :: others ∧
      ∀ x, p ≤ x → x < p + (t.layoutToSize layout : Nat) →
        (∃ m ∈ L'.given, m.Mem x) ∧ (arenaBase ≤ x ∧ x < arenaBase + arenaSize) ∧
        (∀ q ∈ others, ¬ t'.Owns q x) ∧ ¬ t'.Free x ∧ ¬ (0 ≤ x ∧ x < smallestBlock) ∧
        ¬ t'.Status x := by
  obtain ⟨K, J, hacc, harena, hJ, _, _⟩ := h.accounted
  obtain ⟨hv, h0, hs⟩ := hop
  dsimp only [Op.run] at hrun
  rcases alloc_spec hacc hv h0 hs with ⟨herr, _⟩ | ⟨ptr, L₁, s₁, t₁, t', hok, hcon, hsv⟩
  · rw [herr] at hrun
    cases hrun
  rw [hok] at hrun
  rcases hsv with ⟨rfl, rfl⟩ | ⟨p, e, rfl, hsize, _, _, hsz, hal, htk, hacc'⟩
  · cases hrun
  cases hrun
  have hsize' : t.layoutToSize layout = 2 ^ e := by
    rw [hcon.shape.arena] at hsize
    exact hsize
  have hsh := hcon.shape.trans htk.shape
  have hcast : ((2 ^ e : Nat) : Int) = 2 ^ e := by push_cast; rfl
  have hpal : (2 ^ e : Int) ∣ p := htk.aligned
  -- the block is in the ledger, which says the rest of every address of it
  have hown : ∀ x, p ≤ x → x < p + (2 ^ e : Int) → t'.Owns (p, layout) x := by
    intro x h1 h2
    refine ⟨h1, ?_⟩
    show x < p + (t'.layoutToSize layout : Nat)
    rw [hsh.arena, hsize', hcast]
    exact h2
  refine ⟨by rw [hsize', hcast]; exact hpal, ?_, by rw [hsize']; exact hsz, L₁.live, rfl, ?_⟩
  · have : ((layout.align : Nat) : Int) ∣ ((2 ^ e : Nat) : Int) := Int.natCast_dvd_natCast.mpr hal
    rw [hcast] at this
    exact this.trans hpal
  · intro x h1 h2
    rw [hsize', hcast] at h2
    have hx := hown x h1 h2
    have hgiven := (hacc'.account x).mp (Or.inr ⟨_, List.mem_cons_self .., hx⟩)
    refine ⟨hgiven.mem, ?_, ?_, ?_, ?_, hacc'.statusFree hgiven⟩
    · obtain ⟨h3, h4⟩ := htk.holds
      rw [hcon.shape.arena, harena] at h3 h4
      exact ⟨h3.trans h1, by
        show x < _
        exact lt_of_lt_of_le h2 h4⟩
    · exact fun q hq => (List.pairwise_cons.mp hacc'.apart).1 q hq x hx
    · rw [hacc'.inv.free_iff]
      exact hacc'.reserved ⟨_, List.mem_cons_self .., hx⟩
    · rintro ⟨h3, h4⟩
      refine hgiven.not_null ⟨h3, ?_⟩
      rw [hJ] at h4
      push_cast at h4
      rw [zero_add]
      exact h4

/-- An allocation in the sample heap is aligned and not free. -/
theorem run_alloc_safe_sample : ((sampleNew.layoutToSize ⟨40, 8⟩ : Nat) : Int) ∣ 4224 ∧
    ¬ sampleTaken.Free 4224 :=
  have h := run_alloc_safe sample_run sample_alloc_allowed sample_alloc
  ⟨h.1, by
    obtain ⟨_, _, hx⟩ := h.2.2.2
    exact (hx 4224 (le_refl _) (by decide +kernel)).2.2.2.1⟩

/-! ## Independence of history -/

/-- The same blocks are free, recorded in the same way up to the order of the lists. -/
structure Talloc.SameFree (t t' : Talloc FreeLists) : Prop where
  lists : ∀ g b, b ∈ t.list g ↔ b ∈ t'.list g
  avails : t.avails = t'.avails
  bitmap : t.store.bitmap = t'.store.bitmap

/-- The free addresses determine the whole record. -/
theorem Talloc.Inv.sameFree {K J : Nat} {t' : Talloc FreeLists} (h : Talloc.Inv K J t)
    (h' : Talloc.Inv K J t') (hbase : t'.arenaBase = t.arenaBase)
    (hbit0 : getBit t.store.bitmap 0 = getBit t'.store.bitmap 0)
    (hcov : ∀ x, Covers (t.FreeBlock K) x ↔ Covers (t'.FreeBlock K) x) : t.SameFree t' := by
  have hfb := h.canon.ext_of_covers h'.canon hcov
  have hlist : ∀ g b, b ∈ t.list g ↔ b ∈ t'.list g := by
    intro g b
    rcases Nat.lt_or_ge K g with hg | hg
    · have hlen : ∀ {t : Talloc FreeLists}, Talloc.Inv K J t → b ∉ t.list g := by
        intro t h hb
        have h1 := Talloc.lt_of_mem_list hb
        have h2 := h.slen
        have h3 := h.nat.hJK
        have h4 := h.nat.hJ
        omega
      exact ⟨fun hb => absurd hb (hlen h), fun hb => absurd hb (hlen h')⟩
    · have := hfb (K - g) b
      unfold Talloc.FreeBlock at this
      rw [show K - (K - g) = g by omega] at this
      exact ⟨fun hb => (this.mp ⟨by omega, hb⟩).2, fun hb => (this.mpr ⟨by omega, hb⟩).2⟩
  refine ⟨hlist, ?_, ?_⟩
  · apply Nat.eq_of_testBit_eq
    intro g
    rw [Bool.eq_iff_iff, h.avail, h'.avail, not_iff_not, List.eq_nil_iff_forall_not_mem,
      List.eq_nil_iff_forall_not_mem]
    exact forall_congr' fun b => not_congr (hlist g b)
  · apply ext_getBit
    · rw [h.sblen, h'.sblen, h.blen, h'.blen]
    · intro i
      rcases Nat.eq_zero_or_pos i with rfl | hi
      · exact hbit0
      · rw [Bool.eq_iff_iff, h.bits i (by omega), h'.bits i (by omega), hbase]
        exact exists_congr fun e => exists_congr fun b => by rw [hfb e b]

/-- Two runs on one arena that end with the same free addresses end with the same
record, and a run that gives back all it took ends where it started. -/
theorem run_canonical :
    (∀ {freeMem' : Slice} {L' : Ledger} {t' : Talloc FreeLists},
      Run arenaBase arenaSize smallestBlock freeMem L t →
      Run arenaBase arenaSize smallestBlock freeMem' L' t' →
      (∀ x, t.Free x ↔ t'.Free x) → t.SameFree t') ∧
    (∀ {L' : Ledger} {t' : Talloc FreeLists},
      Run arenaBase arenaSize smallestBlock freeMem L t →
      Calls (fun op => NoRelease op.acts) L t L' t' → (∀ q, q ∈ L'.live ↔ q ∈ L.live) →
      t.SameFree t') := by
  constructor
  · intro freeMem' L' t' h h' hfree
    obtain ⟨K, J, hacc, harena, hJ, hK, hbit⟩ := h.accounted
    obtain ⟨K', J', hacc', harena', hJ', hK', hbit'⟩ := h'.accounted
    obtain rfl : K' = K := Nat.pow_right_injective (Nat.le_refl 2) (hK'.symm.trans hK)
    obtain rfl : J' = J := Nat.pow_right_injective (Nat.le_refl 2) (hJ'.symm.trans hJ)
    refine hacc.inv.sameFree hacc'.inv (by rw [harena, harena']) (by rw [hbit, hbit']) fun x => ?_
    rw [← hacc.inv.free_iff, ← hacc'.inv.free_iff]
    exact hfree x
  · intro L' t' h hcalls hlive
    obtain ⟨K, J, hacc, _⟩ := h.accounted
    obtain ⟨hacc', hsh⟩ := hcalls.accounted hacc
    have hgiven := hcalls.given_eq hacc (fun _ hno => hno)
    refine hacc.inv.sameFree hacc'.inv (by rw [hsh.arena]) hsh.bit0.symm fun x => ?_
    have hg : L'.Given J x ↔ L.Given J x := by
      unfold Ledger.Given
      rw [hgiven]
    have hl : L'.Live t'.toArena x ↔ L.Live t.toArena x := by
      unfold Ledger.Live
      rw [hsh.arena]
      exact exists_congr fun q => and_congr_left fun _ => hlive q
    rw [← hacc.inv.free_iff, ← hacc'.inv.free_iff, hacc.free_iff, hacc'.free_iff, hl, hg]

/-- The round trip of the sample heap. -/
theorem run_canonical_sample :
    sampleNew.SameFree sampleNew ∧
      Calls (fun op => NoRelease op.acts) (sampleLedger []) sampleNew (sampleLedger []) sampleNew :=
  ⟨run_canonical.2 sample_run sample_round_trip (fun _ => Iff.rfl), sample_round_trip⟩

end Run

end Tauos.Memm
