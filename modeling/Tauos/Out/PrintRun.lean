import Tauos.Out.Print

/-!
# What is printed on several processors

For every run of the CPUs, the messages are on the serial line and on the screen one after the
other, never mixed:

> `line_in_order` and `screen_in_order`.

The line may lack messages, since `try_lock` does not wait. The screen lacks none, until a CPU
panics while it writes there: then it stays as it is, and so does every CPU that prints
(`panic_silences`).

The invariant is `Line`, `Ledger` and `Screen`: the state of the chip, the messages of each CPU, and
the state of the terminal.
-/

namespace Tauos.Out

open Tauos.Rust Tauos.X86

variable {n : Nat} {p p' : Printer n} {i : Fin n} {chip : Chip} {term : Term1}

/-! ## `UART_COM1` -/

/-- The CPU runs `UartPort::new`. -/
def Stage.Forcing : Stage → Prop
  | .forcing _ => True
  | _ => False

/-- The CPU has had the value of `UART_COM1`. -/
def Stage.Forced : Stage → Prop
  | .idle | .called _ | .forcing _ => False
  | _ => True

theorem Stage.lineLeft_of_not_forced {x : Stage} (h : ¬ x.Forced) : x.lineLeft = none := by
  cases x with
  | line m rest => exact absurd trivial h
  | _ => rfl

/-- The CPU that runs the function of a `Once`. -/
def Once.runner {ι α : Type} : Once ι α → Option ι
  | .running i => some i
  | _ => none

/-- The chip after `UartPort::new`. -/
structure Chip.Opened (chip c : Chip) : Prop where
  base : c.base = COM1
  dlab : c.dlab = false
  loopback : c.loopback = false
  leaves : c.leaves = chip.leaves
  line : c.line <+: chip.line

/-- Nothing has been sent. -/
structure Printer.Unforced (chip : Chip) (p : Printer n) : Prop where
  same : chip.SameRegisters p.chip
  line : p.chip.line = chip.line
  sent : p.sent = []
  lock : p.uartLock = none
  stage : ∀ i, ¬ (p.stage i).Forced

/-- What is sent is on the line. -/
structure Printer.Sends (chip : Chip) (port : UartPort) (c : Chip) (p : Printer n) : Prop where
  opened : chip.Opened c
  port : port = UartPort.of c.base chip.version
  sent : Serialized (fun done => c.Printed (done.flatMap strBytes)) p.uartLock
    (Stage.lineLeft ∘ p.stage) p.sent p.chip

/-- The state of `UART_COM1`. -/
structure Printer.Line (chip : Chip) (p : Printer n) : Prop where
  once : Guarded p.uart.runner (Stage.Forcing ∘ p.stage)
  before : (∀ port, p.uart ≠ .complete port) → p.Unforced chip
  after : ∀ port, p.uart = .complete port → ∃ c, p.Sends chip port c

theorem new_opens (hbase : chip.base = COM1) {c : Chip} (hsame : chip.SameRegisters c)
    (hline : c.line = chip.line) : ∃ c', chip.Opened c' ∧
      UartPort.new COM1 c
        = .ok (.ok (UartPort.of c'.base chip.version, chip.version.found), c') := by
  have hc : c.base = COM1 := hsame.base.trans hbase
  obtain ⟨c', hnew, hbase', _, hleaves, _, hlcr, hmcr, _, _, hline'⟩ :=
    new_configures (c := c) (by rw [hc]; decide)
  refine ⟨c', ⟨hbase'.trans hc, ?_, ?_, hleaves.trans hsame.leaves, hline ▸ hline'⟩, ?_⟩
  · rw [Chip.dlab, hlcr]
    rfl
  · rw [Chip.loopback, hmcr]
    rfl
  · rw [hbase', ← hsame.version, ← hc]
    exact hnew

theorem Printer.line_init (chip : Chip) (term : Term1) : (Printer.init n chip term).Line chip := by
  refine ⟨guarded_none fun i hi => hi, fun _ => ?_, fun port hport => ?_⟩
  · exact ⟨Chip.SameRegisters.refl chip, rfl, rfl, rfl, fun i hi => hi⟩
  · cases hport

/-- A CPU that has had the value of `UART_COM1` finds it there. -/
theorem Printer.Line.forced (h : p.Line chip) (hi : (p.stage i).Forced) :
    ∃ port, p.uart = .complete port := by
  by_contra hno
  exact (h.before fun port hport => hno ⟨port, hport⟩).stage i hi

/-- A step that leaves `UART_COM1` alone. -/
theorem Printer.Line.keep (h : p.Line chip) {x : Stage}
    (hforcing : x.Forcing ↔ (p.stage i).Forcing) (hleft : x.lineLeft = (p.stage i).lineLeft)
    (hforced : x.Forced → ∃ port, p.uart = .complete port) (huart : p'.uart = p.uart)
    (hchip : p'.chip = p.chip) (hlock : p'.uartLock = p.uartLock) (hsent : p'.sent = p.sent)
    (hstage : p'.stage = Function.update p.stage i x) : p'.Line chip := by
  refine ⟨?_, fun hno => ?_, fun port hport => ?_⟩
  · rw [huart, hstage]
    exact h.once.keep hforcing
  · rw [huart] at hno
    have hbefore := h.before hno
    refine ⟨hchip ▸ hbefore.same, by rw [hchip, hbefore.line], hsent.trans hbefore.sent,
      hlock.trans hbefore.lock, fun j hj => ?_⟩
    rw [hstage] at hj
    by_cases hji : j = i
    · subst hji
      rw [Function.update_self] at hj
      obtain ⟨port, hport⟩ := hforced hj
      exact hno port hport
    · rw [Function.update_of_ne hji] at hj
      exact hbefore.stage j hj
  · rw [huart] at hport
    obtain ⟨c, hsends⟩ := h.after port hport
    refine ⟨c, hsends.opened, hsends.port, ?_⟩
    rw [hlock, hsent, hchip, hstage]
    exact hsends.sent.keep hleft

/-- A step of a CPU that has the value of `UART_COM1`. -/
theorem Printer.Line.sends (h : p.Line chip) {x : Stage} {port : UartPort}
    (hport : p.uart = .complete port) (hforcing : x.Forcing ↔ (p.stage i).Forcing)
    (huart : p'.uart = p.uart) (hstage : p'.stage = Function.update p.stage i x)
    (hsent : ∀ c, p.Sends chip port c → Serialized (fun done => c.Printed (done.flatMap strBytes))
      p'.uartLock (Stage.lineLeft ∘ Function.update p.stage i x) p'.sent p'.chip) :
    p'.Line chip := by
  have hport' := huart.trans hport
  refine ⟨?_, fun hno => absurd hport' (hno port), fun port' hp => ?_⟩
  · rw [huart, hstage]
    exact h.once.keep hforcing
  · rw [hport'] at hp
    cases hp
    obtain ⟨c, hsends⟩ := h.after port hport
    exact ⟨c, hsends.opened, hsends.port, hstage ▸ hsent c hsends⟩

theorem Printer.Line.tick (h : p.Line chip) : Printer.Line chip { p with chip := p.chip.tick } := by
  refine ⟨h.once, fun hno => ?_, fun port hport => ?_⟩
  · have hbefore := h.before hno
    exact ⟨hbefore.same.trans tick_same, tick_line.trans hbefore.line, hbefore.sent, hbefore.lock,
      hbefore.stage⟩
  · obtain ⟨c, hsends⟩ := h.after port hport
    exact ⟨c, hsends.opened, hsends.port, hsends.sent.change fun done hdone => hdone.tick⟩

/-- `UartPort::new` finds the chip as it was, and does not fail. -/
theorem Printer.Line.forcing (h : p.Line chip) (hbase : chip.base = COM1) {m : Message}
    (hi : p.stage i = .forcing m) : p.Unforced chip ∧ ∃ c, chip.Opened c ∧ UartPort.new COM1 p.chip
      = .ok (.ok (UartPort.of c.base chip.version, chip.version.found), c) := by
  have hrun := (h.once i).mp (by rw [Function.comp_apply, hi]; trivial)
  have hbefore := h.before fun port hport => by rw [hport] at hrun; cases hrun
  exact ⟨hbefore, new_opens hbase hbefore.same hbefore.line⟩

/-- A CPU that has the line can send the next piece. -/
theorem Printer.Line.can_send (h : p.Line chip)
    (hleaves : ∀ n, ∃ m, n ≤ m ∧ chip.leaves m = true) {m rest : Message} {piece : String}
    (hi : p.stage i = .line m (piece :: rest)) :
    ∃ c, p.Step i { p.goto i (.line m rest) with chip := c } := by
  obtain ⟨port, hport⟩ := h.forced (by rw [hi]; trivial)
  obtain ⟨c, hsends⟩ := h.after port hport
  obtain ⟨done, _, hdone, _⟩ := hsends.sent.written
  obtain ⟨_, c', _, least, hleast⟩ := writeStr_settles chip.version hsends.opened.dlab
    hsends.opened.loopback (by rw [hsends.opened.leaves]; exact hleaves) _ piece p.chip hdone
  rw [hsends.port] at hport
  exact ⟨c', .send hi hport (hleast least (Nat.le_refl _))⟩

theorem Printer.Line.step (h : p.Line chip) (hbase : chip.base = COM1) (hs : p.Step i p') :
    p'.Line chip := by
  cases hs with
  -- the first CPU to get there opens the port; nothing is on the line
  | force hi huart =>
    have hbefore := h.before fun port hport => by rw [huart] at hport; cases hport
    have honce := h.once
    rw [huart] at honce
    refine ⟨honce.acquire trivial, fun _ => ⟨hbefore.same, hbefore.line, hbefore.sent, hbefore.lock,
      fun j hj => ?_⟩, fun port hport => by cases hport⟩
    by_cases hji : j = i
    · subst hji
      rw [show (p.goto j _).stage j = _ from Function.update_self ..] at hj
      exact hj
    · rw [show (p.goto i _).stage j = _ from Function.update_of_ne hji ..] at hj
      exact hbefore.stage j hj
  -- the port is there: the ledger of the line starts from the chip as `new` leaves it
  | @forced m port ver c hi hnew =>
    obtain ⟨hbefore, c', hopened, hok⟩ := h.forcing hbase hi
    rw [hnew] at hok
    cases hok
    refine ⟨h.once.release (by rw [hi]; trivial) id, fun hno => absurd rfl (hno _),
      fun port hport => ?_⟩
    cases hport
    refine ⟨c, hopened, rfl, ?_⟩
    show Serialized _ p.uartLock _ p.sent c
    rw [hbefore.lock, hbefore.sent]
    refine serialized_nil (fun j => ?_) ⟨Chip.SameRegisters.refl c, (List.append_nil _).symm⟩
    by_cases hji : j = i
    · subst hji
      rw [Function.comp_apply, show (p.goto j _).stage j = .called m from Function.update_self ..]
      rfl
    · rw [Function.comp_apply, show (p.goto i _).stage j = _ from Function.update_of_ne hji ..]
      exact Stage.lineLeft_of_not_forced (hbefore.stage j)
  -- `new` does not fail on this chip
  | failed hi hnew =>
    obtain ⟨_, c', _, hok⟩ := h.forcing hbase hi
    rw [hnew] at hok
    cases hok
  | deref hi huart =>
    exact h.keep (by rw [hi]; exact Iff.rfl) (by rw [hi]; rfl) (fun _ => ⟨_, huart⟩) rfl rfl rfl
      rfl rfl
  -- from here to `unlockLine` the CPU holds the line
  | tryLock hi hlock =>
    obtain ⟨port, hport⟩ := h.forced (by rw [hi]; trivial)
    refine h.sends hport (by rw [hi]; exact Iff.rfl) rfl rfl fun c hc => ?_
    have hsent := hc.sent
    rw [hlock] at hsent
    exact hsent.acquire rfl
  | skip hi hlock =>
    exact h.keep (by rw [hi]; exact Iff.rfl) (by rw [hi]; rfl)
      (fun _ => h.forced (by rw [hi]; trivial)) rfl rfl rfl rfl rfl
  | send hi huart hsend =>
    refine h.sends huart (by rw [hi]; exact Iff.rfl) rfl rfl fun c hc => ?_
    refine hc.sent.write (by rw [hi]; rfl) rfl fun done hdone => ?_
    rw [flatMap_append_singleton]
    rw [hc.port] at hsend
    exact writeStr_printed hc.opened.dlab hc.opened.loopback _ _ _ _ _ _ hdone hsend
  | unlockLine hi =>
    obtain ⟨port, hport⟩ := h.forced (by rw [hi]; trivial)
    exact h.sends hport (by rw [hi]; exact Iff.rfl) rfl rfl fun c hc =>
      hc.sent.release (by rw [hi]; rfl) rfl
  -- the steps in `TERM1` leave the line alone
  | lock hi hlock =>
    exact h.keep (by rw [hi]; exact Iff.rfl) (by rw [hi]; rfl)
      (fun _ => h.forced (by rw [hi]; trivial)) rfl rfl rfl rfl rfl
  | write hi hwrite =>
    exact h.keep (by rw [hi]; exact Iff.rfl) (by rw [hi]; rfl)
      (fun _ => h.forced (by rw [hi]; trivial)) rfl rfl rfl rfl rfl
  | panic hi hwrite =>
    exact h.keep (by rw [hi]; exact Iff.rfl) (by rw [hi]; rfl) False.elim rfl rfl rfl rfl rfl
  | unlock hi =>
    exact h.keep (by rw [hi]; exact Iff.rfl) (by rw [hi]; rfl) False.elim rfl rfl rfl rfl rfl

theorem Printer.Line.next (h : p.Line chip) (hbase : chip.base = COM1) (hs : p.Next p') :
    p'.Line chip := by
  cases hs with
  | call hi =>
    exact h.keep (by rw [hi]; exact Iff.rfl) (by rw [hi]; rfl) False.elim rfl rfl rfl rfl rfl
  | step hs => exact h.step hbase hs
  | tick => exact h.tick

/-! ## Who has printed what -/

/-- What the CPUs have called `__print` with is on the screen or still to come, and what is not on
the line was called while another CPU was printing. -/
structure Printer.Ledger (p : Printer n) : Prop where
  screen : handed p.shown (Stage.pending ∘ p.stage) = p.calls
  line : ∀ i, (handed p.sent (Stage.unsent ∘ p.stage) i).Sublist (p.calls i)
  alone : ∀ i, (∀ j, j ≠ i → p.calls j = []) →
    handed p.sent (Stage.unsent ∘ p.stage) i = p.calls i

theorem Printer.ledger_init (chip : Chip) (term : Term1) : (Printer.init n chip term).Ledger :=
  ⟨rfl, fun _ => List.Sublist.refl [], fun _ _ => rfl⟩

/-- A CPU in `UART_COM1` has called `__print`. -/
theorem Printer.Ledger.calls_ne_nil (h : p.Ledger) (hi : (p.stage i).lineLeft ≠ none) :
    p.calls i ≠ [] := by
  cases hstage : p.stage i with
  | line m rest =>
    rw [← h.screen, handed, Function.comp_apply, hstage]
    exact List.append_ne_nil_of_right_ne_nil _ (List.cons_ne_nil m [])
  | _ =>
    rw [hstage] at hi
    exact absurd rfl hi

/-- A step that leaves the messages where they are. -/
theorem Printer.Ledger.keep (h : p.Ledger) {x : Stage} (hpending : x.pending = (p.stage i).pending)
    (hunsent : x.unsent = (p.stage i).unsent) (hcalls : p'.calls = p.calls)
    (hsent : p'.sent = p.sent) (hshown : p'.shown = p.shown)
    (hstage : p'.stage = Function.update p.stage i x) : p'.Ledger := by
  have hline : handed p'.sent (Stage.unsent ∘ p'.stage)
      = handed p.sent (Stage.unsent ∘ p.stage) := by
    rw [hsent, hstage, handed_keep hunsent]
  refine ⟨?_, fun j => ?_, fun j => ?_⟩
  · rw [hshown, hstage, handed_keep hpending, hcalls, h.screen]
  · rw [hline, hcalls]
    exact h.line j
  · rw [hline, hcalls]
    exact h.alone j

/-- A CPU has a message to print. -/
theorem Printer.Ledger.print (h : p.Ledger) (hpending : (p.stage i).pending = [])
    (hunsent : (p.stage i).unsent = []) {m : Message} (hcalls : p'.calls = (p.print i m).calls)
    (hsent : p'.sent = p.sent) (hshown : p'.shown = p.shown)
    (hstage : p'.stage = (p.print i m).stage) : p'.Ledger := by
  have hline : handed p'.sent (Stage.unsent ∘ p'.stage)
      = Function.update (handed p.sent (Stage.unsent ∘ p.stage)) i
        (handed p.sent (Stage.unsent ∘ p.stage) i ++ [m]) := by
    rw [hsent, hstage]
    exact handed_add hunsent rfl
  have hcalls' : p'.calls = Function.update p.calls i (p.calls i ++ [m]) := hcalls
  refine ⟨?_, fun j => ?_, fun j hothers => ?_⟩
  · rw [hshown, hstage, hcalls', ← h.screen]
    exact handed_add hpending rfl
  · rw [hline, hcalls']
    by_cases hji : j = i
    · subst hji
      rw [Function.update_self, Function.update_self]
      exact (h.line j).append (List.Sublist.refl [m])
    · rw [Function.update_of_ne hji, Function.update_of_ne hji]
      exact h.line j
  · rw [hcalls'] at hothers
    rw [hline, hcalls']
    by_cases hji : j = i
    · subst hji
      rw [Function.update_self, Function.update_self, h.alone j fun k hk => ?_]
      have hk' := hothers k hk
      rwa [Function.update_of_ne hk] at hk'
    · -- CPU `i` prints, too
      have hi := hothers i (Ne.symm hji)
      rw [Function.update_self] at hi
      exact absurd hi (List.append_ne_nil_of_right_ne_nil _ (List.cons_ne_nil m []))

theorem Printer.Ledger.step (h : p.Ledger) (hl : p.Line chip) (hbase : chip.base = COM1)
    (hs : p.Step i p') : p'.Ledger := by
  cases hs with
  | force hi huart => exact h.keep (by rw [hi]; rfl) (by rw [hi]; rfl) rfl rfl rfl rfl
  | forced hi hnew => exact h.keep (by rw [hi]; rfl) (by rw [hi]; rfl) rfl rfl rfl rfl
  | failed hi hnew =>
    obtain ⟨_, c', _, hok⟩ := hl.forcing hbase hi
    rw [hnew] at hok
    cases hok
  | deref hi huart => exact h.keep (by rw [hi]; rfl) (by rw [hi]; rfl) rfl rfl rfl rfl
  -- the message enters the ledger of the line
  | @tryLock m hi hlock =>
    have hline : handed (p.sent ++ [(i, m)]) (Stage.unsent ∘ Function.update p.stage i (.line m m))
        = handed p.sent (Stage.unsent ∘ p.stage) := handed_log (by rw [hi]; rfl) rfl
    refine ⟨(handed_keep (by rw [hi]; rfl)).trans h.screen, fun j => ?_, fun j hothers => ?_⟩
    · exact hline ▸ h.line j
    · exact hline ▸ h.alone j hothers
  -- the message is dropped, so what is on the line is a part of the calls
  | @skip m hi hlock =>
    have hscreen : handed p.shown (Stage.pending ∘ Function.update p.stage i (.waiting m))
        = handed p.shown (Stage.pending ∘ p.stage) := handed_keep (by rw [hi]; rfl)
    have hline := handed_update p.sent Stage.unsent p.stage i (.waiting m)
    have hlast : handed p.sent (Stage.unsent ∘ p.stage) i = byParty i p.sent ++ [m] := by
      rw [handed, Function.comp_apply, hi]
      rfl
    refine ⟨hscreen.trans h.screen, fun j => ?_, fun j hothers => ?_⟩
    · show (handed p.sent (Stage.unsent ∘ Function.update p.stage i _) j).Sublist (p.calls j)
      rw [hline]
      by_cases hji : j = i
      · subst hji
        rw [Function.update_self]
        have hsub := h.line j
        rw [hlast] at hsub
        exact ((List.Sublist.refl _).append (List.nil_sublist [m])).trans hsub
      · rw [Function.update_of_ne hji]
        exact h.line j
    · -- another CPU has the lock
      obtain ⟨port, hport⟩ := hl.forced (by rw [hi]; trivial)
      obtain ⟨c, hsends⟩ := hl.after port hport
      obtain ⟨k, hk⟩ := Option.ne_none_iff_exists'.mp hlock
      have hleft : (p.stage k).lineLeft.isSome = true := (hsends.sent.guard k).mpr hk
      have hki : k ≠ i := by
        intro hki
        rw [hki, hi] at hleft
        cases hleft
      have hcalls := h.calls_ne_nil (Option.isSome_iff_ne_none.mp hleft)
      by_cases hkj : k = j
      · subst hkj
        show handed p.sent (Stage.unsent ∘ Function.update p.stage i _) k = p.calls k
        rw [hline, Function.update_of_ne hki]
        exact h.alone k hothers
      · exact absurd (hothers k hkj) hcalls
  | send hi huart hsend => exact h.keep (by rw [hi]; rfl) (by rw [hi]; rfl) rfl rfl rfl rfl
  | unlockLine hi => exact h.keep (by rw [hi]; rfl) (by rw [hi]; rfl) rfl rfl rfl rfl
  -- the message enters the ledger of the screen
  | @lock m hi hlock =>
    have hline : handed p.sent (Stage.unsent ∘ Function.update p.stage i (.screen m))
        = handed p.sent (Stage.unsent ∘ p.stage) := handed_keep (by rw [hi]; rfl)
    refine ⟨(handed_log (by rw [hi]; rfl) rfl).trans h.screen, fun j => ?_, fun j hothers => ?_⟩
    · exact hline ▸ h.line j
    · exact hline ▸ h.alone j hothers
  | write hi hwrite => exact h.keep (by rw [hi]; rfl) (by rw [hi]; rfl) rfl rfl rfl rfl
  | panic hi hwrite => exact h.print (by rw [hi]; rfl) (by rw [hi]; rfl) rfl rfl rfl rfl
  | unlock hi => exact h.keep (by rw [hi]; rfl) (by rw [hi]; rfl) rfl rfl rfl rfl

theorem Printer.Ledger.next (h : p.Ledger) (hl : p.Line chip) (hbase : chip.base = COM1)
    (hs : p.Next p') : p'.Ledger := by
  cases hs with
  | call hi => exact h.print (by rw [hi]; rfl) (by rw [hi]; rfl) rfl rfl rfl rfl
  | step hs => exact h.step hl hbase hs
  | tick => exact ⟨h.screen, h.line, h.alone⟩

/-! ## `TERM1` -/

/-- What is shown is on the screen. -/
def Printer.Screen (term : Term1) (p : Printer n) : Prop :=
  Serialized (fun done t => term.writeFmt done = .ok t) p.termLock (Stage.screenLeft ∘ p.stage)
    p.shown p.term

theorem Printer.screen_init (chip : Chip) (term : Term1) : (Printer.init n chip term).Screen term :=
  serialized_nil (fun _ => rfl) rfl

theorem writeFmt_append_singleton {t t' t'' : Term1} {done : Message} {piece : String}
    (h : t.writeFmt done = .ok t') (hwrite : t'.writeStr piece = .ok t'') :
    t.writeFmt (done ++ [piece]) = .ok t'' := by
  unfold Term1.writeFmt at h ⊢
  rw [List.foldlM_append, h, ok_bind, List.foldlM_cons, hwrite]
  rfl

/-- A CPU panics in `TERM1`, and keeps its lock. -/
theorem Printer.Screen.lost (h : p.Screen term) {piece : String} {rest info : Message} {t : Term1}
    (hi : p.stage i = .screen (piece :: rest)) :
    Printer.Lost { p.print i info with term := t } := by
  refine ⟨i, Serialized.lock_eq h (by rw [Function.comp_apply, hi]; rfl), fun j => ?_⟩
  by_cases hji : j = i
  · subst hji
    rw [show (p.print j info).stage j = _ from Function.update_self ..]
    rfl
  · rw [show (p.print i info).stage j = _ from Function.update_of_ne hji ..]
    by_contra hleft
    refine hji (h.guard.unique (Option.isSome_iff_ne_none.mpr hleft) ?_)
    rw [Function.comp_apply, hi]
    rfl

/-- The lock of `TERM1` is not with a CPU outside. -/
theorem Printer.Screen.not_lost (h : p.Screen term) : ¬ p.Lost := by
  intro hlost
  obtain ⟨i, hi, hout⟩ := hlost
  have hin := (h.guard i).mpr hi
  exact Option.isSome_iff_ne_none.mp hin (hout i)

/-- A step of a CPU that does not panic in `TERM1`. -/
theorem Printer.Screen.step (h : p.Screen term) (hs : p.Step i p') : p'.Screen term ∨
    p'.Lost ∧ ∃ piece rest, p.stage i = .screen (piece :: rest) ∧
      Panics (p.term.writeStr piece) := by
  cases hs with
  | force hi huart => exact .inl (Serialized.keep h (by rw [hi]; rfl))
  | forced hi hnew => exact .inl (Serialized.keep h (by rw [hi]; rfl))
  | failed hi hnew => exact .inl (Serialized.keep h (by rw [hi]; rfl))
  | deref hi huart => exact .inl (Serialized.keep h (by rw [hi]; rfl))
  | tryLock hi hlock => exact .inl (Serialized.keep h (by rw [hi]; rfl))
  | skip hi hlock => exact .inl (Serialized.keep h (by rw [hi]; rfl))
  | send hi huart hsend => exact .inl (Serialized.keep h (by rw [hi]; rfl))
  | unlockLine hi => exact .inl (Serialized.keep h (by rw [hi]; rfl))
  | lock hi hlock =>
    unfold Printer.Screen at h
    rw [hlock] at h
    exact .inl (h.acquire rfl)
  | write hi hwrite =>
    exact .inl (Serialized.write h (by rw [hi]; rfl) rfl
      fun done hdone => writeFmt_append_singleton hdone hwrite)
  | panic hi hwrite => exact .inr ⟨h.lost hi, _, _, hi, hwrite⟩
  | unlock hi => exact .inl (Serialized.release h (by rw [hi]; rfl) rfl)

theorem Printer.Screen.next (h : p.Screen term) (hs : p.Next p') : p'.Screen term ∨ p'.Lost := by
  cases hs with
  | call hi => exact .inl (Serialized.keep h (by rw [hi]; rfl))
  | step hs => exact (h.step hs).imp_right And.left
  | tick => exact .inl h

/-- `TERM1` stays lost: it does not change, and no call returns. -/
structure Printer.Frozen (p p' : Printer n) : Prop where
  lost : p'.Lost
  term : p'.term = p.term
  shown : p'.shown = p.shown
  idle : ∀ i, p'.stage i = .idle → p.stage i = .idle ∧ p'.calls i = p.calls i

theorem Printer.Frozen.trans {p'' : Printer n} (h : p.Frozen p') (h' : p'.Frozen p'') :
    p.Frozen p'' := by
  refine ⟨h'.lost, h'.term.trans h.term, h'.shown.trans h.shown, fun i hi => ?_⟩
  obtain ⟨hidle', hcalls'⟩ := h'.idle i hi
  obtain ⟨hidle, hcalls⟩ := h.idle i hidle'
  exact ⟨hidle, hcalls'.trans hcalls⟩

/-- A step without the lock of `TERM1`. -/
theorem Printer.Lost.goto (h : p.Lost) {x : Stage} (hlock : p'.termLock = p.termLock)
    (hterm : p'.term = p.term) (hshown : p'.shown = p.shown)
    (hstage : p'.stage = Function.update p.stage i x)
    (hcalls : ∀ j, j ≠ i → p'.calls j = p.calls j) (hx : x.screenLeft = none) (hidle : x ≠ .idle) :
    p.Frozen p' := by
  obtain ⟨k, hk, hout⟩ := h
  refine ⟨⟨k, hlock.trans hk, fun j => ?_⟩, hterm, hshown, fun j hj => ?_⟩
  · rw [hstage]
    by_cases hji : j = i
    · subst hji
      rw [Function.update_self]
      exact hx
    · rw [Function.update_of_ne hji]
      exact hout j
  · rw [hstage] at hj
    by_cases hji : j = i
    · subst hji
      rw [Function.update_self] at hj
      exact absurd hj hidle
    · rw [Function.update_of_ne hji] at hj
      exact ⟨hj, hcalls j hji⟩

theorem Printer.Lost.step (h : p.Lost) (hs : p.Step i p') : p.Frozen p' := by
  obtain ⟨k, hk, hout⟩ := h
  have h : p.Lost := ⟨k, hk, hout⟩
  have hnone := hout i
  have hsame : ∀ j, j ≠ i → p.calls j = p.calls j := fun _ _ => rfl
  cases hs with
  | force hi huart => exact h.goto rfl rfl rfl rfl hsame rfl nofun
  | forced hi hnew => exact h.goto rfl rfl rfl rfl hsame rfl nofun
  | failed hi hnew =>
    exact h.goto rfl rfl rfl rfl (fun j hji => Function.update_of_ne hji ..) rfl nofun
  | deref hi huart => exact h.goto rfl rfl rfl rfl hsame rfl nofun
  | tryLock hi hlock => exact h.goto rfl rfl rfl rfl hsame rfl nofun
  | skip hi hlock => exact h.goto rfl rfl rfl rfl hsame rfl nofun
  | send hi huart hsend => exact h.goto rfl rfl rfl rfl hsame rfl nofun
  | unlockLine hi => exact h.goto rfl rfl rfl rfl hsame rfl nofun
  | lock hi hlock =>
    rw [hk] at hlock
    cases hlock
  | write hi hwrite =>
    rw [hi] at hnone
    cases hnone
  | panic hi hwrite =>
    rw [hi] at hnone
    cases hnone
  | unlock hi =>
    rw [hi] at hnone
    cases hnone

theorem Printer.Lost.next (h : p.Lost) (hs : p.Next p') : p.Frozen p' := by
  cases hs with
  | call hi => exact h.goto rfl rfl rfl rfl (fun j hji => Function.update_of_ne hji ..) rfl nofun
  | step hs => exact h.step hs
  | tick => exact ⟨h, rfl, rfl, fun i hi => ⟨hi, rfl⟩⟩

theorem Printer.Lost.later (h : p.Lost) (hlater : Relation.ReflTransGen Printer.Next p p') :
    p.Frozen p' := by
  induction hlater with
  | refl => exact ⟨h, rfl, rfl, fun i hi => ⟨hi, rfl⟩⟩
  | tail _ hnext ih => exact ih.trans (ih.lost.next hnext)

/-! ## Every run -/

/-- The invariant of the printer. -/
theorem Printer.Reached.inv (h : p.Reached chip term) (hbase : chip.base = COM1) :
    p.Line chip ∧ p.Ledger ∧ (p.Screen term ∨ p.Lost) := by
  induction h with
  | refl =>
    exact ⟨Printer.line_init chip term, Printer.ledger_init chip term,
      .inl (Printer.screen_init chip term)⟩
  | tail _ hnext ih =>
    obtain ⟨hl, hg, hs⟩ := ih
    refine ⟨hl.next hbase hnext, hg.next hl hbase hnext, ?_⟩
    obtain hs | hlost := hs
    · exact hs.next hnext
    · exact .inr (hlost.next hnext).lost

/-- What is on the line are whole messages, but for the rest of the one being sent, after what was
left there by `UartPort::new`. Each CPU's are in order. A message is dropped only if other CPUs
print. -/
theorem line_in_order (hbase : chip.base = COM1) (h : p.Reached chip term) :
    (∃ kept rest, kept <+: chip.line ∧
      p.chip.line ++ rest.flatMap strBytes = kept ++ (p.sent.flatMap Prod.snd).flatMap strBytes ∧
      (p.uartLock = none → rest = []) ∧ ∀ i m todo, p.stage i = .line m todo → todo = rest) ∧
    (∀ i j, (p.stage i).lineLeft ≠ none → (p.stage j).lineLeft ≠ none → i = j) ∧
    (∀ i, (byParty i p.sent).Sublist (p.calls i)) ∧
    ∀ i, p.stage i = .idle → (∀ j, j ≠ i → p.calls j = []) → byParty i p.sent = p.calls i := by
  obtain ⟨hl, hg, _⟩ := h.inv hbase
  have hhanded : ∀ i, (byParty i p.sent).Sublist (handed p.sent (Stage.unsent ∘ p.stage) i) :=
    fun i => List.sublist_append_left ..
  refine ⟨?_, fun i j hi hj => ?_, fun i => (hhanded i).trans (hg.line i), fun i hi hothers => ?_⟩
  -- before the port is open, nothing is on the line
  · by_cases hforced : ∃ port, p.uart = .complete port
    · obtain ⟨port, hport⟩ := hforced
      obtain ⟨c, hsends⟩ := hl.after port hport
      obtain ⟨done, rest, ⟨_, hline⟩, hlog, hfree, hrest⟩ := hsends.sent.written
      refine ⟨c.line, rest, hsends.opened.line, ?_, hfree, fun i m todo hi => ?_⟩
      · rw [hline, hlog, List.flatMap_append, List.append_assoc]
      · exact hrest i todo (by rw [Function.comp_apply, hi]; rfl)
    · have hbefore := hl.before fun port hport => hforced ⟨port, hport⟩
      refine ⟨chip.line, [], List.prefix_refl _, ?_, fun _ => rfl, fun i m todo hi => ?_⟩
      · rw [hbefore.line, hbefore.sent]
        rfl
      · exact absurd (by rw [hi]; trivial) (hbefore.stage i)
  · obtain ⟨port, hport⟩ := hl.forced (p := p) (i := i) (by
      by_contra hno
      exact hi (Stage.lineLeft_of_not_forced hno))
    obtain ⟨c, hsends⟩ := hl.after port hport
    exact hsends.sent.guard.unique (Option.isSome_iff_ne_none.mpr hi)
      (Option.isSome_iff_ne_none.mpr hj)
  · have halone := hg.alone i hothers
    rw [handed, Function.comp_apply, hi] at halone
    exact (List.append_nil _).symm.trans halone

/-- Two CPUs have sent a message each, and wait for `TERM1`. -/
structure BothSent (term : Term1) (m m' : Message) (p : Printer 2) : Prop where
  reached : p.Reached sampleChip term
  stage : p.stage 0 = .waiting m ∧ p.stage 1 = .waiting m'
  calls : p.calls 0 = [m] ∧ p.calls 1 = [m']
  sent : p.sent = [(0, m), (1, m')]
  uartLock : p.uartLock = none
  term : p.term = term
  termLock : p.termLock = none
  shown : p.shown = []

/-- CPU 1 calls `__print` while CPU 0 runs `UartPort::new`, and is behind it on the line. -/
theorem exists_bothSent (term : Term1) (piece piece' : String) :
    ∃ p, BothSent term [piece] [piece'] p := by
  have hleaves : ∀ n, ∃ m, n ≤ m ∧ sampleChip.leaves m = true := fun n => ⟨n, Nat.le_refl n, rfl⟩
  have h₁ : Printer.Reached sampleChip term ((Printer.init 2 sampleChip term).print 0 [piece]) :=
    .single (.call rfl)
  have h₂ := h₁.tail (.step (.force (i := 0) (m := [piece]) rfl rfl))
  have h₃ := h₂.tail (.call (i := 1) (m := [piece']) rfl)
  obtain ⟨_, c, _, hnew⟩ :=
    (Printer.Reached.inv h₃ rfl).1.forcing rfl (i := 0) (m := [piece]) rfl
  have h₄ := h₃.tail (.step (.forced (i := 0) (m := [piece]) rfl hnew))
  have h₅ := h₄.tail (.step (.deref (i := 0) (m := [piece]) rfl rfl))
  have h₆ := h₅.tail (.step (.tryLock (i := 0) (m := [piece]) rfl rfl))
  have h₇ := h₆.tail (.step (.deref (i := 1) (m := [piece']) rfl rfl))
  obtain ⟨c₁, hsend⟩ := (Printer.Reached.inv h₇ rfl).1.can_send hleaves (i := 0) rfl
  have h₈ := h₇.tail (.step hsend)
  have h₉ := h₈.tail (.step (.unlockLine (i := 0) (m := [piece]) rfl))
  have h₁₀ := h₉.tail (.step (.tryLock (i := 1) (m := [piece']) rfl rfl))
  obtain ⟨c₂, hsend'⟩ := (Printer.Reached.inv h₁₀ rfl).1.can_send hleaves (i := 1) rfl
  have h₁₁ := h₁₀.tail (.step hsend')
  have h₁₂ := h₁₁.tail (.step (.unlockLine (i := 1) (m := [piece']) rfl))
  exact ⟨_, h₁₂, ⟨rfl, rfl⟩, ⟨rfl, rfl⟩, rfl, rfl, rfl, rfl, rfl⟩

/-- What two CPUs have sent is on the line, one message after the other. -/
theorem line_in_order_both : ∃ p : Printer 2, p.Reached sampleChip (Term1.sample 1) ∧
    p.calls 0 = [["tau"]] ∧ p.calls 1 = [["os"]] ∧
      p.chip.line = strBytes "tau" ++ strBytes "os" ∧ byParty 1 p.sent = [["os"]] := by
  obtain ⟨p, hp⟩ := exists_bothSent (Term1.sample 1) "tau" "os"
  obtain ⟨⟨kept, rest, hkept, hline, hfree, _⟩, _⟩ := line_in_order rfl hp.reached
  rw [hfree hp.uartLock, hp.sent, List.prefix_nil.mp hkept] at hline
  refine ⟨p, hp.reached, hp.calls.1, hp.calls.2, ?_, ?_⟩
  · exact (List.append_nil _).symm.trans hline
  · rw [hp.sent]
    rfl

/-- Until a CPU panics in `TERM1`, what is on the screen are whole messages, but for the rest of the
one being written, and each CPU's are in order, none missing. -/
theorem screen_in_order (hbase : chip.base = COM1) (h : p.Reached chip term) (hlost : ¬ p.Lost) :
    (∃ done rest, term.writeFmt done = .ok p.term ∧ p.shown.flatMap Prod.snd = done ++ rest ∧
      (p.termLock = none → rest = []) ∧ ∀ i todo, p.stage i = .screen todo → todo = rest) ∧
    (∀ i j, (p.stage i).screenLeft ≠ none → (p.stage j).screenLeft ≠ none → i = j) ∧
    ∀ i, byParty i p.shown ++ (p.stage i).pending = p.calls i := by
  obtain ⟨_, hg, hs⟩ := h.inv hbase
  have hs : p.Screen term := hs.resolve_right hlost
  obtain ⟨done, rest, hdone, hlog, hfree, hrest⟩ := hs.written
  refine ⟨⟨done, rest, hdone, hlog, hfree, fun i todo hi => ?_⟩, fun i j hi hj => ?_, fun i => ?_⟩
  · exact hrest i todo (by rw [Function.comp_apply, hi]; rfl)
  · exact hs.guard.unique (Option.isSome_iff_ne_none.mpr hi) (Option.isSome_iff_ne_none.mpr hj)
  · exact congrFun hg.screen i

/-- CPU 0 writes its message to the screen, and CPU 1 gets `TERM1` after it. -/
theorem BothSent.next {p : Printer 2} {piece : String} {m : Message} {t : Term1}
    (h : BothSent term [piece] m p) (hwrite : term.writeStr piece = .ok t) :
    ∃ p' : Printer 2, p'.Reached sampleChip term ∧ p'.stage 0 = .idle ∧ p'.stage 1 = .screen m ∧
      p'.calls = p.calls ∧ p'.term = t ∧ p'.shown = [(0, [piece]), (1, m)] := by
  have h₁ := h.reached.tail (.step (.lock (i := 0) h.stage.1 h.termLock))
  have h₂ := h₁.tail (.step (.write (i := 0) (show _ = Stage.screen [piece] from rfl)
    (h.term ▸ hwrite)))
  have h₃ := h₂.tail (.step (.unlock (i := 0) rfl))
  have h₄ := h₃.tail (.step (.lock (i := 1) (m := m) h.stage.2 rfl))
  refine ⟨_, h₄, rfl, rfl, rfl, rfl, ?_⟩
  show p.shown ++ [(0, [piece])] ++ [(1, m)] = _
  rw [h.shown]
  rfl

theorem sample_writes : ∃ t, (Term1.sample 16).writeStr "\x01" = .ok t := by
  have hsome : ((Term1.sample 16).writeStr "\x01").toOption.isSome = true := by decide +kernel
  cases hwrite : (Term1.sample 16).writeStr "\x01" with
  | error e =>
    rw [hwrite] at hsome
    cases hsome
  | ok t => exact ⟨t, rfl⟩

/-- What the first of two CPUs has written is on the screen, and the second is about to write. -/
theorem screen_in_order_both : ∃ p : Printer 2, p.Reached sampleChip (Term1.sample 16) ∧
    p.stage 1 = .screen ["\x02"] ∧ (Term1.sample 16).writeFmt ["\x01"] = .ok p.term ∧
      byParty 0 p.shown = [["\x01"]] := by
  obtain ⟨p, hp⟩ := exists_bothSent (Term1.sample 16) "\x01" "\x02"
  obtain ⟨t, hwrite⟩ := sample_writes
  obtain ⟨p', h, hidle, hnext, hcalls, _, hshown⟩ := hp.next hwrite
  have hlost : ¬ p'.Lost := by
    intro hlost
    obtain ⟨_, _, hno⟩ := hlost
    have hleft := hno 1
    rw [hnext] at hleft
    cases hleft
  obtain ⟨⟨done, rest, hdone, hlog, _, hrest⟩, _, hall⟩ := screen_in_order rfl h hlost
  obtain rfl := hrest 1 _ hnext
  rw [hshown] at hlog
  obtain rfl : ["\x01"] = done := List.append_cancel_right hlog
  have hfirst := hall 0
  rw [hidle, hcalls, hp.calls.1] at hfirst
  exact ⟨p', h, hnext, hdone, (List.append_nil _).symm.trans hfirst⟩

/-- What a CPU in `TERM1` does next. -/
theorem Printer.Step.of_screen {piece : String} {rest : Message} (hs : p.Step i p')
    (hi : p.stage i = .screen (piece :: rest)) :
    (∃ t, p.term.writeStr piece = .ok t) ∨ ∃ info t, p' = { p.print i info with term := t } := by
  cases hs with
  | write hi' hwrite =>
    rw [hi] at hi'
    cases hi'
    exact .inl ⟨_, hwrite⟩
  | panic hi' hwrite => exact .inr ⟨_, _, rfl⟩
  | force hi' | forced hi' | failed hi' | deref hi' | tryLock hi' | skip hi' | send hi'
  | unlockLine hi' | lock hi' | unlock hi' =>
    rw [hi] at hi'
    cases hi'

theorem Panics.not_ok {α : Type} {x : Except Fault α} (h : Panics x) (a : α) : x ≠ .ok a := by
  intro ha
  rw [ha] at h
  rcases h with h | h | h <;> cases h

/-- After a panic in `TERM1` the screen does not change any more and no call of `__print` returns,
on any CPU. -/
theorem panic_silences {q q' : Printer n} {piece : String} {rest : Message}
    (hbase : chip.base = COM1) (h : p.Reached chip term) (hi : p.stage i = .screen (piece :: rest))
    (hpanic : Panics (p.term.writeStr piece)) (hs : p.Step i q)
    (hlater : Relation.ReflTransGen Printer.Next q q') :
    q'.Lost ∧ q'.term = q.term ∧ q'.shown = p.shown ∧
      ∀ j, q'.stage j = .idle → p.stage j = .idle ∧ q'.calls j = p.calls j := by
  obtain ⟨_, _, hscreen⟩ := h.inv hbase
  have hscreen : p.Screen term := hscreen.resolve_right fun hlost => by
    obtain ⟨_, _, hout⟩ := hlost
    have hnone := hout i
    rw [hi] at hnone
    cases hnone
  obtain ⟨t, hwrite⟩ | ⟨info, t, rfl⟩ := hs.of_screen hi
  · exact absurd hwrite (hpanic.not_ok t)
  have hfrozen := (hscreen.lost hi).later hlater
  refine ⟨hfrozen.lost, hfrozen.term, hfrozen.shown, fun j hj => ?_⟩
  obtain ⟨hidle, hcalls⟩ := hfrozen.idle j hj
  by_cases hji : j = i
  · subst hji
    cases (Function.update_self ..).symm.trans hidle
  · exact ⟨(Function.update_of_ne hji ..).symm.trans hidle,
      hcalls.trans (Function.update_of_ne hji ..)⟩

/-- One of two CPUs gets to the screen. -/
theorem one_reaches_screen (piece : String) : ∃ p : Printer 2,
    p.Reached sampleChip (Term1.sample 1) ∧ p.stage 0 = .screen [piece] ∧
      p.term = Term1.sample 1 := by
  obtain ⟨p, hp⟩ := exists_bothSent (Term1.sample 1) piece "\n"
  exact ⟨_, hp.reached.tail (.step (.lock (i := 0) hp.stage.1 hp.termLock)), rfl, hp.term⟩

/-- A font with one glyph, and the character after it. -/
theorem panic_silences_sample : ∃ p : Printer 2,
    p.Reached sampleChip (Term1.sample 1) ∧ p.Lost := by
  obtain ⟨p, h, hi, hterm⟩ := one_reaches_screen "\x01"
  have hpanic : Panics (p.term.writeStr "\x01") := by
    rw [hterm]
    exact .inr (.inr rfl)
  have hs : p.Step 0 { p.print 0 ["\n"] with term := Term1.sample 1 } := .panic hi hpanic
  exact ⟨_, h.tail (.step hs), (panic_silences rfl h hi hpanic hs .refl).1⟩

end Tauos.Out
