import Mathlib.Algebra.Order.BigOperators.Group.Finset
import Tauos.Out.PrintRun

/-!
# Printable messages

As long as the CPUs print characters that the font has, nothing panics: the screen shows the text of
the messages, and every call of `__print` returns.

> `printable_shown` and `print_returns`.

Nothing in `print_returns` is about fairness: no step of a CPU is in vain, and there is one as long
as a CPU is in `__print`.
-/

namespace Tauos.Out

open Tauos.Rust Tauos.X86

variable {n : Nat} {p p' : Printer n} {i : Fin n} {chip : Chip} {term : Term1}

/-! ## The text -/

theorem toList_join (done : Message) : (String.join done).toList = done.flatMap String.toList := by
  have hfold : ∀ (l : Message) (s : String),
      (l.foldl (· ++ ·) s).toList = s.toList ++ l.flatMap String.toList := by
    intro l
    induction l with
    | nil => exact fun s => (List.append_nil _).symm
    | cons piece l ih =>
      intro s
      rw [List.foldl_cons, ih, String.toList_append, List.flatMap_cons, List.append_assoc]
  exact hfold done ""

/-- The font has the characters of the message. -/
def Shown (term : Term1) (m : Message) : Prop :=
  ∀ piece ∈ m, Term1.Printable term.font piece.toList ∧ Term1.KeepsNewlines term.font piece.toList

theorem length_line_text {cols : Nat} (hcols : 0 < cols) (s : List Char) :
    (s.foldl (Console.type cols) Console.empty).line.length ≤ cols := by
  induction s using List.reverseRecOn with
  | nil => exact Nat.zero_le _
  | append_singleton s ch _ =>
    rw [List.foldl_append]
    exact Console.length_line_type _ hcols ch

/-- The pieces are written one after the other. -/
theorem Term1.Fresh.writeFmt (h : term.Fresh) : ∀ done, Shown term done →
    ∃ t, term.writeFmt done = .ok t ∧ Term1.SameShape term t ∧
      t.Shows (Console.text term.columns (String.join done)) := by
  intro done
  induction done using List.reverseRecOn with
  | nil => exact fun _ => ⟨term, rfl, Term1.SameShape.refl term, h.shows⟩
  | append_singleton done piece ih =>
    intro hall
    obtain ⟨t, hdone, hshape, hshows⟩ := ih fun m hm => hall m (List.mem_append_left _ hm)
    obtain ⟨hprint, hkeep⟩ := hall piece (List.mem_append_right _ (List.mem_singleton.mpr rfl))
    rw [Console.text, toList_join] at hshows
    have hline := length_line_text h.columns_pos (done.flatMap String.toList)
    rw [← hshape.columns] at hline hshows
    rw [← hshape.font] at hprint hkeep
    obtain ⟨t', hwrite, hshape', hshows'⟩ :=
      (hshape.valid h.toValid).writeChars piece.toList hshows hline hprint hkeep
    refine ⟨t', writeFmt_append_singleton hdone hwrite, hshape.trans hshape', ?_⟩
    rw [Console.text, toList_join, List.flatMap_append, List.flatMap_singleton, List.foldl_append,
      ← hshape.columns]
    exact hshows'

/-- No call is forgotten. -/
theorem Printer.Next.calls (hs : p.Next p') (i : Fin n) : p.calls i <+: p'.calls i := by
  have hprint : ∀ j m, p.calls i <+: (p.print j m).calls i := by
    intro j m
    show p.calls i <+: Function.update p.calls j (p.calls j ++ [m]) i
    by_cases hij : i = j
    · subst hij
      rw [Function.update_self]
      exact List.prefix_append _ _
    · rw [Function.update_of_ne hij]
  cases hs with
  | call hi => exact hprint ..
  | step hs =>
    cases hs with
    | failed hi hnew => exact hprint ..
    | panic hi hwrite => exact hprint ..
    | _ => exact List.prefix_refl _
  | tick => exact List.prefix_refl _

/-- The font has the characters of the messages printed so far. -/
def Printer.AllShown (term : Term1) (p : Printer n) : Prop := ∀ i, ∀ m ∈ p.calls i, Shown term m

theorem Printer.AllShown.before (h : p'.AllShown term) (hs : p.Next p') : p.AllShown term :=
  fun i m hm => h i m ((hs.calls i).subset hm)

/-- What is left of the message of a CPU in `TERM1` can be shown. -/
theorem Printer.Screen.fresh (h : p.Screen term) (hg : p.Ledger) (hall : p.AllShown term)
    (hfresh : term.Fresh) : ∃ done rest, p.shown.flatMap Prod.snd = done ++ rest ∧
      (p.termLock = none → rest = []) ∧ (∀ i todo, p.stage i = .screen todo → todo = rest) ∧
      Term1.SameShape term p.term ∧ p.term.Shows (Console.text term.columns (String.join done)) ∧
      ∀ piece rest', rest = piece :: rest' → ∃ t, p.term.writeStr piece = .ok t := by
  obtain ⟨done, rest, hdone, hlog, hfree, hrest⟩ := h.written
  have hshown : ∀ piece ∈ done ++ rest, Term1.Printable term.font piece.toList ∧
      Term1.KeepsNewlines term.font piece.toList := by
    intro piece hpiece
    rw [← hlog] at hpiece
    obtain ⟨⟨i, m⟩, hm, hpiece⟩ := List.mem_flatMap.mp hpiece
    refine hall i m ?_ piece hpiece
    rw [← hg.screen]
    exact List.mem_append_left _ (mem_byParty hm)
  have hbefore : Shown term done := fun piece hpiece => hshown piece (List.mem_append_left _ hpiece)
  obtain ⟨t, ht, hshape, hshows⟩ := hfresh.writeFmt done hbefore
  cases hdone.symm.trans ht
  refine ⟨done, rest, hlog, hfree, fun i todo hi => hrest i todo ?_, hshape, hshows,
    fun piece rest' heq => ?_⟩
  · rw [Function.comp_apply, hi]
    rfl
  · -- one piece more
    have hnext : Shown term (done ++ [piece]) := by
      intro piece' hpiece'
      refine hshown piece' ?_
      rw [heq, List.append_cons]
      exact List.mem_append_left _ hpiece'
    obtain ⟨t, ht, _⟩ := hfresh.writeFmt _ hnext
    unfold Term1.writeFmt at ht hdone
    rw [List.foldlM_append, hdone, ok_bind] at ht
    obtain ⟨t', hwrite, _⟩ := bind_ok ht
    exact ⟨t', hwrite⟩

/-- Nobody panics in `TERM1`. -/
theorem Printer.Reached.screen (h : p.Reached chip term) (hbase : chip.base = COM1)
    (hfresh : term.Fresh) (hall : p.AllShown term) : p.Screen term := by
  induction h with
  | refl => exact Printer.screen_init chip term
  | @tail q q' hq hnext ih =>
    have hbefore := hall.before hnext
    have hs := ih hbefore
    obtain ⟨_, hg, _⟩ := Printer.Reached.inv hq hbase
    cases hnext with
    | call hi => exact Serialized.keep hs (by rw [hi]; rfl)
    | tick => exact hs
    | step hstep =>
      obtain hs' | ⟨_, piece, rest', hi, hpanic⟩ := hs.step hstep
      · exact hs'
      · obtain ⟨_, rest, _, _, hrest, _, _, hwrite⟩ := hs.fresh hg hbefore hfresh
        obtain ⟨t, ht⟩ := hwrite piece rest' (hrest _ _ hi).symm
        exact absurd ht (hpanic.not_ok t)

/-- The screen shows the text of whole messages, but for the rest of the one being written. -/
theorem printable_shown (hbase : chip.base = COM1) (hfresh : term.Fresh) (h : p.Reached chip term)
    (hall : p.AllShown term) :
    ¬ p.Lost ∧ Term1.SameShape term p.term ∧ ∃ done rest, p.shown.flatMap Prod.snd = done ++ rest ∧
      (p.termLock = none → rest = []) ∧ (∀ i todo, p.stage i = .screen todo → todo = rest) ∧
      p.term.Shows (Console.text term.columns (String.join done)) := by
  have hs := h.screen hbase hfresh hall
  obtain ⟨_, hg, _⟩ := h.inv hbase
  obtain ⟨done, rest, hlog, hfree, hrest, hshape, hshows, _⟩ := hs.fresh hg hall hfresh
  exact ⟨hs.not_lost, hshape, done, rest, hlog, hfree, hrest, hshows⟩

/-- The font of the sample terminal has the first 16 characters. -/
theorem shown_sample {piece : String}
    (h : piece.toList.all (fun ch => decide (ch.toNat < 16)) = true) :
    Shown (Term1.sample 16) [piece] := by
  intro piece' hpiece
  rw [List.mem_singleton.mp hpiece]
  exact ⟨fun ch hch => .inr (of_decide_eq_true (List.all_eq_true.mp h ch hch)), .inl (by decide)⟩

theorem BothSent.allShown {p : Printer 2} {m m' : Message} (h : BothSent term m m' p)
    (hm : Shown term m) (hm' : Shown term m') : p.AllShown term := by
  refine Fin.forall_fin_two.mpr ⟨?_, ?_⟩
  · rw [h.calls.1]
    exact fun _ hmem => List.mem_singleton.mp hmem ▸ hm
  · rw [h.calls.2]
    exact fun _ hmem => List.mem_singleton.mp hmem ▸ hm'

/-- The messages of two CPUs are on the screen, one after the other. -/
theorem printable_shown_both : ∃ p : Printer 2, p.Reached sampleChip (Term1.sample 16) ∧
    (∀ i, p.stage i = .idle) ∧ p.calls 0 = [["\x01"]] ∧ p.calls 1 = [["\x02"]] ∧
      p.term.Shows (Console.text (Term1.sample 16).columns "\x01\x02") := by
  obtain ⟨p, hp⟩ := exists_bothSent (Term1.sample 16) "\x01" "\x02"
  obtain ⟨t, hwrite⟩ := sample_writes
  obtain ⟨p', h, hidle, hnext, hcalls, _, hshown⟩ := hp.next hwrite
  have hall : p'.AllShown (Term1.sample 16) := by
    unfold Printer.AllShown
    rw [hcalls]
    exact hp.allShown (shown_sample (by decide)) (shown_sample (by decide))
  -- CPU 1 writes, and both are done
  obtain ⟨_, hg, _⟩ := h.inv rfl
  obtain ⟨_, _, _, _, hleft, _, _, hwrites⟩ :=
    (h.screen rfl (Term1.sample_fresh 16) hall).fresh hg hall (Term1.sample_fresh 16)
  obtain ⟨t', hwrite'⟩ := hwrites "\x02" [] (hleft 1 _ hnext).symm
  have h₁ := h.tail (.step (.write hnext hwrite'))
  have h₂ := h₁.tail (.step (.unlock (i := 1) rfl))
  obtain ⟨_, _, done, rest, hlog, hfree, _, hshows⟩ :=
    printable_shown rfl (Term1.sample_fresh 16) h₂ hall
  obtain rfl := hfree rfl
  have hdone : p'.shown.flatMap Prod.snd = done := hlog.trans (List.append_nil _)
  rw [hshown] at hdone
  obtain rfl : ["\x01", "\x02"] = done := hdone
  exact ⟨_, h₂, Fin.forall_fin_two.mpr ⟨hidle, rfl⟩, hcalls ▸ hp.calls.1, hcalls ▸ hp.calls.2,
    hshows⟩

/-! ## The calls return -/

/-- How many steps a CPU is from the end of its call, at most. -/
def Stage.work : Stage → Nat
  | .idle => 0
  | .called m | .forcing m => 2 * m.length + 5
  | .ready m => 2 * m.length + 4
  | .line m rest => rest.length + m.length + 3
  | .waiting m => m.length + 2
  | .screen rest => rest.length + 1

def Once.work {ι α : Type} : Once ι α → Nat
  | .incomplete => 2
  | .running _ => 1
  | .complete _ => 0

theorem Once.work_of_runner {ι α : Type} {o : Once ι α} {i : ι} (h : o.runner = some i) :
    o.work = 1 := by
  cases o with
  | running j => rfl
  | _ => cases h

def Printer.work (p : Printer n) : Nat := p.uart.work + ∑ i, (p.stage i).work

theorem work_lt {x : Stage} (huart : p'.uart.work ≤ p.uart.work)
    (hstage : p'.stage = Function.update p.stage i x) (hx : x.work < (p.stage i).work) :
    p'.work < p.work := by
  refine Nat.add_lt_add_of_le_of_lt huart (Finset.sum_lt_sum (fun j _ => ?_)
    ⟨i, Finset.mem_univ i, ?_⟩)
  · rw [hstage]
    by_cases hji : j = i
    · subst hji
      rw [Function.update_self]
      exact hx.le
    · rw [Function.update_of_ne hji]
  · rw [hstage, Function.update_self]
    exact hx

/-- A step of the CPU that has come to `UART_COM1` first. -/
theorem work_lt_of_uart {x : Stage} (huart : p'.uart.work < p.uart.work)
    (hstage : p'.stage = Function.update p.stage i x) (hx : x.work = (p.stage i).work) :
    p'.work < p.work := by
  refine Nat.add_lt_add_of_lt_of_le huart (Finset.sum_le_sum fun j _ => ?_)
  rw [hstage]
  by_cases hji : j = i
  · subst hji
    rw [Function.update_self]
    exact hx.le
  · rw [Function.update_of_ne hji]

/-- No step is in vain. -/
theorem Printer.Step.work (hs : p.Step i p') (hl : p.Line chip) (hbase : chip.base = COM1)
    (hwrite : ∀ piece rest, p.stage i = .screen (piece :: rest) →
      ∃ t, p.term.writeStr piece = .ok t) : p'.work < p.work := by
  cases hs with
  | force hi huart =>
    exact work_lt_of_uart (by rw [huart]; exact Nat.lt_succ_self 1) rfl (by rw [hi]; rfl)
  | forced hi hnew =>
    have hrun := (hl.once i).mp (by rw [Function.comp_apply, hi]; trivial)
    refine work_lt_of_uart ?_ rfl (by rw [hi]; rfl)
    rw [Once.work_of_runner hrun]
    exact Nat.zero_lt_one
  | failed hi hnew =>
    obtain ⟨_, c', _, hok⟩ := hl.forcing hbase hi
    rw [hnew] at hok
    cases hok
  | deref hi huart => exact work_lt (Nat.le_refl _) rfl (by rw [hi]; exact Nat.lt_succ_self _)
  | tryLock hi hlock =>
    refine work_lt (Nat.le_refl _) rfl ?_
    rw [hi]
    dsimp only [Stage.work]
    omega
  | skip hi hlock =>
    refine work_lt (Nat.le_refl _) rfl ?_
    rw [hi]
    dsimp only [Stage.work]
    omega
  | send hi huart hsend =>
    refine work_lt (Nat.le_refl _) rfl ?_
    rw [hi]
    dsimp only [Stage.work]
    rw [List.length_cons]
    omega
  | unlockLine hi =>
    refine work_lt (Nat.le_refl _) rfl ?_
    rw [hi]
    dsimp only [Stage.work]
    rw [List.length_nil]
    omega
  | lock hi hlock => exact work_lt (Nat.le_refl _) rfl (by rw [hi]; exact Nat.lt_succ_self _)
  | write hi hok => exact work_lt (Nat.le_refl _) rfl (by rw [hi]; exact Nat.lt_succ_self _)
  | panic hi hpanic =>
    obtain ⟨t, ht⟩ := hwrite _ _ hi
    exact absurd ht (hpanic.not_ok t)
  | unlock hi => exact work_lt (Nat.le_refl _) rfl (by rw [hi]; exact Nat.lt_succ_self 0)

/-- Nobody prints anything new. -/
theorem Printer.Step.calls_eq (hs : p.Step i p') (hl : p.Line chip) (hbase : chip.base = COM1)
    (hwrite : ∀ piece rest, p.stage i = .screen (piece :: rest) →
      ∃ t, p.term.writeStr piece = .ok t) : p'.calls = p.calls := by
  cases hs with
  | failed hi hnew =>
    obtain ⟨_, c', _, hok⟩ := hl.forcing hbase hi
    rw [hnew] at hok
    cases hok
  | panic hi hpanic =>
    obtain ⟨t, ht⟩ := hwrite _ _ hi
    exact absurd ht (hpanic.not_ok t)
  | _ => rfl

/-- A CPU in `__print` can go on, or waits for one that can. -/
theorem Printer.Line.progress (hl : p.Line chip) (hs : p.Screen term) (hbase : chip.base = COM1)
    (hleaves : ∀ n, ∃ m, n ≤ m ∧ chip.leaves m = true)
    (hwrite : ∀ i piece rest, p.stage i = .screen (piece :: rest) →
      ∃ t, p.term.writeStr piece = .ok t) (hi : p.stage i ≠ .idle) : ∃ j p', p.Step j p' := by
  -- who initialises the port, or has the screen, can go on
  have hforcing : ∀ j m, p.stage j = .forcing m → ∃ p', p.Step j p' := by
    intro j m hj
    obtain ⟨_, c, _, hnew⟩ := hl.forcing hbase hj
    exact ⟨_, .forced hj hnew⟩
  have hscreen : ∀ j rest, p.stage j = .screen rest → ∃ p', p.Step j p' := by
    intro j rest hj
    cases rest with
    | nil => exact ⟨_, .unlock hj⟩
    | cons piece rest =>
      obtain ⟨t, ht⟩ := hwrite j piece rest hj
      exact ⟨_, .write hj ht⟩
  cases hstage : p.stage i with
  | idle => exact absurd hstage hi
  | called m =>
    cases huart : p.uart with
    | incomplete => exact ⟨i, _, .force hstage huart⟩
    | complete port => exact ⟨i, _, .deref hstage huart⟩
    -- the CPU waits for the one that initialises the port
    | running j =>
      have hj := (hl.once j).mpr (by rw [huart]; rfl)
      rw [Function.comp_apply] at hj
      cases hj' : p.stage j with
      | forcing m => exact ⟨j, hforcing j m hj'⟩
      | _ =>
        rw [hj'] at hj
        exact hj.elim
  | forcing m => exact ⟨i, hforcing i m hstage⟩
  | ready m =>
    by_cases hlock : p.uartLock = none
    · exact ⟨i, _, .tryLock hstage hlock⟩
    · exact ⟨i, _, .skip hstage hlock⟩
  | line m rest =>
    cases rest with
    | nil => exact ⟨i, _, .unlockLine hstage⟩
    | cons piece rest =>
      obtain ⟨c, hs⟩ := hl.can_send hleaves hstage
      exact ⟨i, _, hs⟩
  | waiting m =>
    cases hlock : p.termLock with
    | none => exact ⟨i, _, .lock hstage hlock⟩
    -- and here for the one that has the screen
    | some j =>
      have hj := (hs.guard j).mpr hlock
      obtain ⟨rest, hrest⟩ := Option.isSome_iff_exists.mp hj
      rw [Function.comp_apply] at hrest
      cases hj' : p.stage j with
      | screen rest => exact ⟨j, hscreen j rest hj'⟩
      | _ =>
        rw [hj'] at hrest
        cases hrest
  | screen rest => exact ⟨i, hscreen i rest hstage⟩

/-- The CPUs go on in `__print` as long as one of them can. -/
def Printer.Goes (ρ : Nat → Printer n) : Prop :=
  ∀ k, (∃ i, (ρ k).Step i (ρ (k + 1))) ∨ ρ (k + 1) = ρ k ∧ ¬ ∃ i p', (ρ k).Step i p'

/-- Every call returns, in whatever order the CPUs go on. -/
theorem print_returns {ρ : Nat → Printer n} (hbase : chip.base = COM1) (hfresh : term.Fresh)
    (hleaves : ∀ n, ∃ m, n ≤ m ∧ chip.leaves m = true) (h : (ρ 0).Reached chip term)
    (hall : (ρ 0).AllShown term) (hgoes : Printer.Goes ρ) :
    ∃ k, ∀ i, (ρ k).stage i = .idle := by
  have hrest : ∀ w k, (ρ k).work ≤ w → (ρ k).Reached chip term → (ρ k).AllShown term →
      ∃ k', ∀ i, (ρ k').stage i = .idle := by
    intro w
    induction w using Nat.strong_induction_on with
    | h w ih =>
      intro k hw h hall
      obtain ⟨hl, hg, _⟩ := h.inv hbase
      have hs := h.screen hbase hfresh hall
      obtain ⟨_, _, _, _, hleft, _, _, hnext⟩ := hs.fresh hg hall hfresh
      have hwrite : ∀ i piece rest, (ρ k).stage i = .screen (piece :: rest) →
          ∃ t, (ρ k).term.writeStr piece = .ok t :=
        fun i piece rest hi => hnext piece rest (hleft i _ hi).symm
      by_cases hidle : ∀ i, (ρ k).stage i = .idle
      · exact ⟨k, hidle⟩
      obtain ⟨i, hi⟩ := not_forall.mp hidle
      obtain ⟨j, hstep⟩ | ⟨_, hstuck⟩ := hgoes k
      · have hlt := hstep.work hl hbase (hwrite j)
        refine ih _ (Nat.lt_of_lt_of_le hlt hw) (k + 1) (Nat.le_refl _) (h.tail (.step hstep)) ?_
        unfold Printer.AllShown
        rw [hstep.calls_eq hl hbase (hwrite j)]
        exact hall
      · exact absurd (hl.progress hs hbase hleaves hwrite hi) hstuck
  exact hrest _ 0 (Nat.le_refl _) h hall

theorem exists_goes (p : Printer n) : ∃ ρ, ρ 0 = p ∧ Printer.Goes ρ := by
  have hnext : ∀ p : Printer n, ∃ p', (∃ i, p.Step i p') ∨ p' = p ∧ ¬ ∃ i p', p.Step i p' := by
    intro p
    by_cases h : ∃ i p', p.Step i p'
    · obtain ⟨i, p', hs⟩ := h
      exact ⟨p', .inl ⟨i, hs⟩⟩
    · exact ⟨p, .inr ⟨rfl, h⟩⟩
  choose next hnext using hnext
  refine ⟨fun k => next^[k] p, rfl, fun k => ?_⟩
  dsimp only
  rw [Function.iterate_succ_apply']
  exact hnext _

/-- Two CPUs that have sent their message, in whatever order they go on. -/
theorem print_returns_both : ∃ ρ : Nat → Printer 2, Printer.Goes ρ ∧
    BothSent (Term1.sample 16) ["\x01"] ["\x02"] (ρ 0) ∧ ∃ k, ∀ i, (ρ k).stage i = .idle := by
  obtain ⟨p, hp⟩ := exists_bothSent (Term1.sample 16) "\x01" "\x02"
  obtain ⟨ρ, rfl, hgoes⟩ := exists_goes p
  exact ⟨ρ, hgoes, hp, print_returns rfl (Term1.sample_fresh 16) (fun n => ⟨n, Nat.le_refl n, rfl⟩)
    hp.reached (hp.allShown (shown_sample (by decide)) (shown_sample (by decide))) hgoes⟩

end Tauos.Out
