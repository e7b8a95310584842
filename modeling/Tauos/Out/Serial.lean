import Tauos.Out.UartMasks

/-!
# The serial line

`uart.rs` on a chip, in whatever state the chip is found.

> `new_configures`: `UartPort::new` finds out which chip it is, but for a 16550, which it takes for
> a 16450 with the same masks. It leaves the chip at 115200 baud, with 8 bits and no parity, and
> puts nothing on the line.
> `print_in_order`: what is printed goes to the line byte for byte, whenever the chip sends its
> bytes, and printing returns if the chip goes on sending.

A 16550 has its FIFO reported as not functional, and that is bit 7 without bit 6; `identify_uart`
asks for bit 6 first. The interrupts are switched off before the divisor latch access bit is known:
if it was set, they stay as they were.
-/

namespace Tauos.Out

open Tauos.Rust Tauos.X86 Tauos.Amd64

/-- What `identify_uart` takes a chip for. -/
def UartChipVersion.found : UartChipVersion → UartChipVersion
  | V16550 => V16450
  | ver => ver

/-- The ports of the registers. -/
def UartPort.of (base : Nat) (ver : UartChipVersion) : UartPort where
  thbr := ⟨base + 0, 0xFF⟩
  rbr := ⟨base + 0, 0xFF⟩
  dll := ⟨base + 0, 0xFF⟩
  ier := ⟨base + 1, ierMask ver⟩
  dlh := ⟨base + 1, 0xFF⟩
  iir := ⟨base + 2, iirMask ver⟩
  fcr := ⟨base + 2, fcrMask ver⟩
  lcr := ⟨base + 3, LCR.all⟩
  mcr := ⟨base + 4, mcrMask ver⟩
  lsr := ⟨base + 5, LSR.all⟩
  msr := ⟨base + 6, MSR.all⟩
  scr := ⟨base + 7, 0xFF⟩

/-- `write_fmt` of a message: `write_str` for each of its pieces. -/
def UartPort.writeFmt {σ : Type} [Device σ] (self : UartPort) (fuel : Nat) (pieces : List String) :
    PortM σ Unit := pieces.forM (self.writeStr fuel)

theorem portAdd_of_lt {port offset : Nat} (h : port + offset < 2 ^ 16) :
    portAdd port offset = .ok (port + offset) := if_pos h

theorem ports_eq {base : Nat} (h : base + 7 < 2 ^ 16) (ver : UartChipVersion) :
    UartPort.ports base ver = .ok (UartPort.of base ver) := by
  have hadd : ∀ k, k ≤ 7 → portAdd base k = .ok (base + k) := fun k hk => portAdd_of_lt (by omega)
  unfold UartPort.ports THBR_OFFSET RBR_OFFSET DLL_OFFSET IER_OFFSET DLH_OFFSET IIR_OFFSET FCR_OFFSET
    LCR_OFFSET MCR_OFFSET LSR_OFFSET MSR_OFFSET SCR_OFFSET
  simp only [hadd _ (show 0 ≤ 7 by decide), hadd _ (show 1 ≤ 7 by decide),
    hadd _ (show 2 ≤ 7 by decide), hadd _ (show 3 ≤ 7 by decide), hadd _ (show 4 ≤ 7 by decide),
    hadd _ (show 5 ≤ 7 by decide), hadd _ (show 6 ≤ 7 by decide), hadd _ (show 7 ≤ 7 by decide),
    ok_bind]
  rfl

/-- The masks of a 16450 are those of a 16550. -/
theorem of_found (base : Nat) (ver : UartChipVersion) :
    UartPort.of base ver.found = UartPort.of base ver := by
  cases ver <;> rfl

/-! ## The registers of a chip through the ports -/

section Registers

variable {c : Chip} {base : Nat} {ver : UartChipVersion} (hb : c.base = base)

def Chip.setDll (c : Chip) (data : BitVec 8) : Chip := { c with dll := data }

def Chip.setDlh (c : Chip) (data : BitVec 8) : Chip := { c with dlh := data }

def Chip.setLcr (c : Chip) (data : BitVec 8) : Chip := { c with lcr := data }

def Chip.setMcr (c : Chip) (data : BitVec 8) : Chip := { c with mcr := data }

def Chip.receive (c : Chip) (data : BitVec 8) : Chip :=
  { c with received := data, dataReady := true }

def Chip.taken (c : Chip) : Chip := { c with dataReady := false }

@[simp] theorem receive_line (c : Chip) (data : BitVec 8) : (c.receive data).line = c.line := rfl

@[simp] theorem taken_line (c : Chip) : c.taken.line = c.line := rfl

@[simp] theorem setDll_line (c : Chip) (data : BitVec 8) : (c.setDll data).line = c.line := rfl

@[simp] theorem setDlh_line (c : Chip) (data : BitVec 8) : (c.setDlh data).line = c.line := rfl

@[simp] theorem setLcr_line (c : Chip) (data : BitVec 8) : (c.setLcr data).line = c.line := rfl

@[simp] theorem setMcr_line (c : Chip) (data : BitVec 8) : (c.setMcr data).line = c.line := rfl

/-- Zero goes to the interrupt enable register, or to the divisor latch if that is open. -/
def Chip.zeroSecond (c : Chip) : Chip :=
  { c with
    dlh := if c.dlab = true then 0 else c.dlh
    ier := if c.dlab = true then c.ier else 0 }

@[simp] theorem zeroSecond_line (c : Chip) : c.zeroSecond.line = c.line := rfl

theorem and_all (v : BitVec 8) : v &&& 0xFF = v := BitVec.and_allOnes

include hb

theorem lcr_read :
    (UartPort.of base ver).lcr.read c = .ok ((c.lcr, c.lcr &&& ~~~0xFF), c.tick) := by
  rw [IoPort.read_chip c (k := 3) (by rw [hb]; rfl) (by decide)]
  show Except.ok ((c.lcr &&& 0xFF, _), c.tick) = _
  rw [and_all]
  rfl

theorem lcr_write (data : BitVec 8) :
    (UartPort.of base ver).lcr.write data c = .ok (data &&& ~~~0xFF, c.tick.setLcr data) := by
  rw [IoPort.write_chip c data (k := 3) (by rw [hb]; rfl) (by decide)]
  show Except.ok (_, c.tick.setLcr (data &&& 0xFF)) = _
  rw [and_all]
  rfl

theorem dll_write (data : BitVec 8) (h : c.dlab = true) :
    (UartPort.of base ver).dll.write data c = .ok (data &&& ~~~0xFF, c.tick.setDll data) := by
  rw [IoPort.write_chip c data (k := 0) (by rw [hb]; rfl) (by decide)]
  show Except.ok (_, if c.dlab = true then c.tick.setDll (data &&& 0xFF) else _) = _
  rw [if_pos h, and_all]
  rfl

theorem dlh_write (data : BitVec 8) (h : c.dlab = true) :
    (UartPort.of base ver).dlh.write data c = .ok (data &&& ~~~0xFF, c.tick.setDlh data) := by
  rw [IoPort.write_chip c data (k := 1) (by rw [hb]; rfl) (by decide)]
  show Except.ok (_, if c.dlab = true then c.tick.setDlh (data &&& 0xFF) else _) = _
  rw [if_pos h, and_all]
  rfl

theorem ier_write_zero : (UartPort.of base ver).ier.write 0 c
    = .ok (0 &&& ~~~ierMask ver, c.tick.zeroSecond) := by
  rw [IoPort.write_chip c 0 (k := 1) (by rw [hb]; rfl) (by decide)]
  have hz : ∀ m : BitVec 8, 0 &&& m = 0 := fun _ => BitVec.zero_and
  have hwrite : c.tick.write (0 &&& ierMask ver) 1 = c.tick.zeroSecond := by
    rw [hz]
    unfold Chip.zeroSecond
    by_cases h : c.tick.dlab = true
    · rw [if_pos h, if_pos h]
      exact if_pos h
    · rw [if_neg h, if_neg h]
      refine (if_neg h).trans ?_
      rw [hz]
  show Except.ok (_, c.tick.write (0 &&& ierMask ver) 1) = _
  rw [hwrite]
  rfl

theorem fcr_write (data : BitVec 8) :
    (UartPort.of base ver).fcr.write data c
      = .ok (data &&& ~~~fcrMask ver, c.tick.write (data &&& fcrMask ver) 2) := by
  rw [IoPort.write_chip c data (k := 2) (by rw [hb]; rfl) (by decide)]
  rfl

theorem mcr_read : (UartPort.of base ver).mcr.read c
    = .ok ((c.mcr &&& mcrMask ver, c.mcr &&& ~~~mcrMask ver), c.tick) := by
  rw [IoPort.read_chip c (k := 4) (by rw [hb]; rfl) (by decide)]
  rfl

theorem mcr_write (data : BitVec 8) :
    (UartPort.of base ver).mcr.write data c = .ok (data &&& ~~~mcrMask ver,
      c.tick.setMcr (data &&& mcrMask ver &&& mcrMask c.version)) := by
  rw [IoPort.write_chip c data (k := 4) (by rw [hb]; rfl) (by decide)]
  rfl

/-- In loopback mode a byte is received. -/
theorem rbr_write (data : BitVec 8) (hd : c.dlab = false) (hl : c.loopback = true) :
    (UartPort.of base ver).rbr.write data c = .ok (data &&& ~~~0xFF,
      c.tick.receive data) := by
  rw [IoPort.write_chip c data (k := 0) (by rw [hb]; rfl) (by decide)]
  show Except.ok (_, if c.dlab = true then _ else if c.loopback = true then
    c.tick.receive (data &&& 0xFF) else _) = _
  rw [if_neg (by rw [hd]; exact Bool.false_ne_true), if_pos hl, and_all]
  rfl

theorem thbr_read (hd : c.dlab = false) : (UartPort.of base ver).thbr.read c
    = .ok ((c.received, c.received &&& ~~~0xFF), c.tick.taken) := by
  rw [IoPort.read_chip c (k := 0) (by rw [hb]; rfl) (by decide)]
  have hread : c.tick.read 0 = (c.received, c.tick.taken) :=
    if_neg (by rw [show c.tick.dlab = c.dlab from rfl, hd]; exact Bool.false_ne_true)
  rw [hread]
  show Except.ok ((c.received &&& 0xFF, _), _) = _
  rw [and_all]
  rfl

end Registers

/-! ## Configuration -/

section Configuration

variable {c : Chip} {base : Nat} {ver : UartChipVersion}

/-- The divisor of the baud rate. -/
def divisor (rate : BaudRate) : BitVec 16 := BitVec.ofNat 16 (UART_FREQUENCY / rate.discriminant)

theorem dlab_setLcr (c : Chip) (lcr : BitVec 8) :
    (c.setLcr (lcr ||| LCR.DIVISOR_LATCH_ACCESS_BIT)).dlab = true := containsFlags_or lcr _

theorem dlab_setDll (c : Chip) (data : BitVec 8) : (c.tick.setDll data).dlab = c.dlab := rfl

/-- `set_baud_rate` writes the two halves of the divisor, and nothing else changes. -/
theorem setBaudRate_chip (ver : UartChipVersion) (hb : c.base = base) (rate : BaudRate) :
    ∃ c', (UartPort.of base ver).setBaudRate rate c = .ok ((), c') ∧
      ({ c with
        dll := (divisor rate).setWidth 8
        dlh := (divisor rate >>> 8).setWidth 8 } : Chip).SameRegisters c' ∧
      c'.line = c.line := by
  have hlo : ((divisor rate &&& 255).setWidth 8 : BitVec 8) = (divisor rate).setWidth 8 := by
    cases rate <;> decide
  unfold UartPort.setBaudRate
  rw [show BitVec.ofNat 16 (UART_FREQUENCY / rate.discriminant) = divisor rate from rfl]
  dsimp only
  rw [hlo]
  generalize (divisor rate).setWidth 8 = lo, (divisor rate >>> 8).setWidth 8 = hi
  -- the divisor is written with the access bit set
  let c₂ := c.tick.tick.setLcr (c.lcr ||| LCR.DIVISOR_LATCH_ACCESS_BIT)
  let c₃ := c₂.tick.setDll lo
  have h₂ : c₂.dlab = true := dlab_setLcr _ _
  have h₃ : c₃.dlab = true := (dlab_setDll c₂ lo).trans h₂
  rw [PortM.bind_ok (lcr_read hb), PortM.bind_ok (lcr_write (c := c.tick) hb _),
    PortM.bind_ok (dll_write (c := c₂) hb lo h₂), PortM.bind_ok (dlh_write (c := c₃) hb hi h₃),
    PortM.bind_ok (lcr_write (c := c₃.tick.setDlh hi) hb _)]
  refine ⟨(c₃.tick.setDlh hi).tick.setLcr c.lcr, rfl, ?_, ?_⟩
  · refine ⟨?_, ?_, ?_, ?_, ?_, ?_, ?_, ?_, ?_, ?_⟩
    all_goals simp only [c₂, c₃, Chip.setLcr, Chip.setDll, Chip.setDlh, Chip.tick]
  · simp [c₂, c₃]

/-- A write to the FIFO control register. -/
theorem write_fcr (data : BitVec 8) :
    ({ c with fcr := if UartChipVersion.V16550 ≤ c.version then data else c.fcr } : Chip).SameRegisters
      (c.write data 2) ∧ (c.write data 2).line <+: c.line := by
  by_cases hv : UartChipVersion.V16550 ≤ c.version
  · rw [show c.write data 2 = _ from if_pos hv, if_pos hv]
    refine ⟨⟨rfl, rfl, rfl, rfl, rfl, rfl, rfl, rfl, rfl, rfl⟩, ?_⟩
    unfold Chip.line
    dsimp only
    split
    · rw [List.append_nil]
      exact List.prefix_append _ _
    · exact List.prefix_refl _
  · rw [show c.write data 2 = _ from if_neg hv, if_neg hv]
    exact ⟨Chip.SameRegisters.refl c, List.prefix_refl _⟩

/-- The registers after `reset_to_default`. -/
structure Chip.Default (c : Chip) (ver : UartChipVersion) (c' : Chip) : Prop where
  base : c'.base = c.base
  version : c'.version = c.version
  dll : c'.dll = 1
  dlh : c'.dlh = 0
  ier : c'.ier = if c.dlab = true then c.ier else 0
  fcr : c'.fcr = if UartChipVersion.V16550 ≤ c.version then 0b10100111 &&& fcrMask ver else c.fcr
  lcr : c'.lcr = LCR.WORD_LENGTH_8_BITS
  mcr : c'.mcr = 0b00001111
  leaves : c'.leaves = c.leaves

theorem Chip.Default.same {c' c'' : Chip} (h : c.Default ver c') (h' : c'.SameRegisters c'') :
    c.Default ver c'' where
  base := h'.base.trans h.base
  version := h'.version.trans h.version
  dll := h'.dll.trans h.dll
  dlh := h'.dlh.trans h.dlh
  ier := h'.ier.trans h.ier
  fcr := h'.fcr.trans h.fcr
  lcr := h'.lcr.trans h.lcr
  mcr := h'.mcr.trans h.mcr
  leaves := h'.leaves.trans h.leaves

theorem mcr_default (v w : UartChipVersion) :
    (0b00001111 : BitVec 8) &&& mcrMask v &&& mcrMask w = 0b00001111 := by
  cases v <;> cases w <;> decide

theorem resetToDefault_chip (ver : UartChipVersion) (hb : c.base = base) :
    ∃ c', (UartPort.of base ver).resetToDefault c = .ok ((), c') ∧ c.Default ver c' ∧
      c'.line <+: c.line := by
  unfold UartPort.resetToDefault
  obtain ⟨c₁, hrate, hsame, hline⟩ :=
    setBaudRate_chip ver (c := c.tick.zeroSecond) hb .BR115200
  have hb₁ : c₁.base = base := hsame.base.trans hb
  let c₂ := c₁.tick.setLcr (LCR.WORD_LENGTH_8_BITS ||| LCR.NO_PARITY)
  rw [PortM.bind_ok (ier_write_zero hb), PortM.bind_ok hrate, PortM.bind_ok (lcr_write hb₁ _),
    PortM.bind_ok (fcr_write (c := c₂) hb₁ _)]
  generalize hd : (FCR.ENABLE_FIFOS ||| FCR.CLEAR_RECEIVE_FIFO ||| FCR.CLEAR_TRANSMIT_FIFO |||
    FCR.ENABLE_64_BYTE_FIFO ||| FCR.INTERRUPT_TRIGGER_LEVEL_8_32) &&& fcrMask ver = data
  obtain ⟨hfcr, hprefix⟩ := write_fcr (c := c₂.tick) data
  rw [PortM.bind_ok (mcr_write (hfcr.base.trans hb₁) _)]
  refine ⟨_, rfl, ?_, ?_⟩
  · exact {
      base := hfcr.base.trans hsame.base
      version := hfcr.version.trans hsame.version
      dll := hfcr.dll.trans hsame.dll
      dlh := hfcr.dlh.trans hsame.dlh
      ier := hfcr.ier.trans hsame.ier
      fcr := by
        have hv : c₁.version = c.version := hsame.version
        have hf : c₁.fcr = c.fcr := hsame.fcr
        rw [← hv, ← hf, show (0b10100111 : BitVec 8) &&& fcrMask ver = data from hd]
        exact hfcr.fcr
      lcr := hfcr.lcr
      mcr := mcr_default _ _
      leaves := hfcr.leaves.trans hsame.leaves }
  · have hall : c₂.tick.line = c.line := by simp [c₂, hline]
    rw [hall] at hprefix
    exact (tick_line (c := c₂.tick.write data 2)).symm ▸ hprefix

theorem loopback_setMcr (c : Chip) (mcr : BitVec 8) (v w : UartChipVersion) :
    (c.setMcr ((mcr ||| MCR.LOOPBACK_ENABLED) &&& mcrMask v &&& mcrMask w)).loopback = true := by
  have hmask : ∀ (x : BitVec 8) (v : UartChipVersion), (x ||| MCR.LOOPBACK_ENABLED) &&& mcrMask v
      = (x &&& mcrMask v) ||| MCR.LOOPBACK_ENABLED := by
    intro x v
    rw [BitVec.and_or_distrib_right, show MCR.LOOPBACK_ENABLED &&& mcrMask v = MCR.LOOPBACK_ENABLED by
      cases v <;> decide]
  rw [hmask, hmask]
  exact containsFlags_or _ _

/-- The test passes if the divisor latch is closed, and the registers are as before. -/
theorem test_chip (ver : UartChipVersion) (hb : c.base = base) (hd : c.dlab = false)
    (hm : c.mcr &&& mcrMask ver &&& mcrMask c.version = c.mcr) :
    ∃ c', (UartPort.of base ver).test c = .ok (.ok (), c') ∧ c.SameRegisters c' ∧
      c'.line = c.line := by
  unfold UartPort.test
  let m := c.mcr &&& mcrMask ver
  let c₂ := c.tick.tick.setMcr
    ((m ||| MCR.LOOPBACK_ENABLED) &&& mcrMask ver &&& mcrMask c.tick.version)
  let c₃ := c₂.tick.receive 0x2B
  have hloop : c₂.loopback = true := loopback_setMcr _ _ _ _
  have hb₂ : c₂.base = base ∧ c₂.dlab = false ∧ c₂.version = c.version := ⟨hb, hd, rfl⟩
  have hb₃ : c₃.base = base ∧ c₃.dlab = false ∧ c₃.version = c.version := hb₂
  have hb₄ : c₃.tick.taken.base = base ∧ c₃.tick.taken.version = c.version := ⟨hb₃.1, hb₃.2.2⟩
  have hrestore : m &&& mcrMask ver &&& mcrMask c₃.tick.taken.version = c.mcr := by
    rw [hb₄.2, show m &&& mcrMask ver = m from by rw [BitVec.and_assoc, BitVec.and_self]]
    exact hm
  rw [PortM.bind_ok (mcr_read hb), PortM.bind_ok (mcr_write (c := c.tick) hb _),
    PortM.bind_ok (rbr_write (c := c₂) hb₂.1 _ hb₂.2.1 hloop),
    PortM.bind_ok (thbr_read (c := c₃) hb₃.1 hb₃.2.1),
    if_neg (show ¬ (c₃.received ≠ 0x2B) from fun h => h rfl),
    PortM.bind_ok (mcr_write (c := c₃.tick.taken) hb₄.1 m), hrestore]
  refine ⟨_, rfl, ?_, ?_⟩
  · refine ⟨?_, ?_, ?_, ?_, ?_, ?_, ?_, ?_, ?_, ?_⟩
    all_goals simp only [c₂, c₃, Chip.setMcr, Chip.receive, Chip.taken, Chip.tick]
  · simp [c₂, c₃]

/-- What a chip reports after `identify_uart` has asked for the FIFO. -/
def UartChipVersion.reported : UartChipVersion → BitVec 8
  | V8250 | V16450 => 0b00000001
  | V16550 => 0b10000001
  | V16550A => 0b11000001
  | V16750 => 0b11100001

theorem fifoState_reported (h : UartChipVersion.V16550 ≤ c.version → c.fcr = 0xE7) :
    c.fifoState ||| 1 = c.version.reported := by
  unfold Chip.fifoState
  cases hv : c.version with
  | V8250 | V16450 =>
    show (if _ then (0 : BitVec 8) else 0) ||| 1 = 1
    rw [ite_self]
    rfl
  | V16550 | V16550A | V16750 =>
    rw [h (by rw [hv]; decide)]
    rfl

/-- A write to the scratch register, which an 8250 does not have. -/
def Chip.setScr (c : Chip) (data : BitVec 8) : Chip :=
  { c with scr := if UartChipVersion.V16450 ≤ c.version then data else c.scr }

theorem scr_write (data : BitVec 8) : c.write data 7 = c.setScr data := by
  unfold Chip.setScr
  by_cases h : UartChipVersion.V16450 ≤ c.version
  · rw [if_pos h]
    exact if_pos h
  · rw [if_neg h]
    exact if_neg h

@[simp] theorem setScr_line (data : BitVec 8) : (c.setScr data).line = c.line := rfl

/-- What `identify_uart` leaves. -/
structure Chip.Identified (c c' : Chip) : Prop where
  base : c'.base = c.base
  version : c'.version = c.version
  ier : c'.ier = c.ier
  lcr : c'.lcr = c.lcr
  leaves : c'.leaves = c.leaves
  fcr : c'.fcr = if UartChipVersion.V16550 ≤ c.version then 0xE7 else c.fcr
  line : c'.line <+: c.line

theorem identifyUart_chip (hbase : c.base + 7 < 2 ^ 16) :
    ∃ c', identifyUart c.base c = .ok (c.version.found, c') ∧ c.Identified c' := by
  have hadd : ∀ (k : Nat) (s : Chip), k ≤ 7 → lift (portAdd c.base k) s = .ok (c.base + k, s) := by
    intro k s hk
    rw [portAdd_of_lt (by omega)]
    rfl
  have hout : ∀ (k : Nat) (d : BitVec 8) (s : Chip), s.base = c.base → k ≤ 7 →
      out8 (c.base + k) d s = .ok ((), s.tick.write d k) := by
    intro k d s hs hk
    rw [← hs]
    exact congrArg (fun s => Except.ok ((), s)) (out_chip s d (by omega))
  have hin : ∀ (k : Nat) (s : Chip), s.base = c.base → k ≤ 7 →
      in8 (c.base + k) s = .ok (s.tick.read k) := by
    intro k s hs hk
    rw [← hs]
    exact congrArg Except.ok (inp_chip s (by omega))
  obtain ⟨hfcr, hprefix⟩ := write_fcr (c := c.tick) 0xE7
  rw [tick_line] at hprefix
  unfold identifyUart FCR_OFFSET IIR_OFFSET SCR_OFFSET
  rw [PortM.bind_ok (hadd 2 c (by decide)), PortM.bind_ok (hout 2 _ c rfl (by decide)),
    PortM.bind_ok (hadd 2 _ (by decide))]
  generalize c.tick.write 0xE7 2 = c₁ at hfcr hprefix
  have hread : in8 (c.base + 2) c₁ = .ok (c.version.reported, c₁.tick) := by
    rw [hin 2 c₁ hfcr.base (by decide), show c.version = c₁.tick.version from hfcr.version.symm,
      ← fifoState_reported]
    · rfl
    · intro hv
      have hv' : UartChipVersion.V16550 ≤ c.version := hfcr.version ▸ hv
      exact hfcr.fcr.trans (if_pos hv')
  rw [PortM.bind_ok hread]
  have hstop : c.Identified c₁.tick := {
    base := hfcr.base
    version := hfcr.version
    ier := hfcr.ier
    lcr := hfcr.lcr
    leaves := hfcr.leaves
    fcr := hfcr.fcr
    line := tick_line (c := c₁) ▸ hprefix }
  -- without a FIFO that works, the scratch register decides
  let c₂ := c₁.tick.tick.setScr 0x2A
  have hscratch : ∀ f : BitVec 8 → PortM Chip UartChipVersion, (do
      out8 (← lift (portAdd c.base 7)) 0x2A
      f (← in8 (← lift (portAdd c.base 7)))) c₁.tick
      = f (if UartChipVersion.V16450 ≤ c.version then 0x2A else 0xFF) c₂.tick := by
    intro f
    have hscr : in8 (c.base + 7) c₂
        = .ok (if UartChipVersion.V16450 ≤ c.version then 0x2A else 0xFF, c₂.tick) := by
      rw [hin 7 c₂ hfcr.base (by decide), show c.version = c₁.version from hfcr.version.symm]
      show Except.ok (if UartChipVersion.V16450 ≤ c₁.version then
        if UartChipVersion.V16450 ≤ c₁.version then (0x2A : BitVec 8) else c₁.scr else 0xFF, _) = _
      by_cases h : UartChipVersion.V16450 ≤ c₁.version
      · rw [if_pos h, if_pos h, if_pos h]
      · rw [if_neg h, if_neg h]
    rw [PortM.bind_ok (hadd 7 _ (by decide)), PortM.bind_ok (hout 7 _ c₁.tick hfcr.base (by decide)),
      PortM.bind_ok (hadd 7 _ (by decide)), scr_write, PortM.bind_ok hscr]
  have hlast : c.Identified c₂.tick := {
    base := hstop.base
    version := hstop.version
    ier := hstop.ier
    lcr := hstop.lcr
    leaves := hstop.leaves
    fcr := hstop.fcr
    line := by
      rw [tick_line, setScr_line, tick_line]
      exact hstop.line }
  cases hv : c.version with
  | V16750 => exact ⟨_, rfl, hstop⟩
  | V16550A => exact ⟨_, rfl, hstop⟩
  | V16550 =>
    rw [hv] at hscratch
    exact ⟨_, hscratch _, hlast⟩
  | V16450 =>
    rw [hv] at hscratch
    exact ⟨_, hscratch _, hlast⟩
  | V8250 =>
    rw [hv] at hscratch
    exact ⟨_, hscratch _, hlast⟩

/-- `UartPort::new` on any chip whose ports are below 2¹⁶: it finds the version, sets the chip up,
passes the test, and puts nothing on the line. -/
theorem new_configures (hbase : c.base + 7 < 2 ^ 16) :
    ∃ c', UartPort.new c.base c
        = .ok (.ok (UartPort.of c.base c.version, c.version.found), c') ∧
      c'.base = c.base ∧ c'.version = c.version ∧ c'.leaves = c.leaves ∧
      (c'.dll, c'.dlh) = (1, 0) ∧
      c'.lcr = LCR.WORD_LENGTH_8_BITS ∧ c'.mcr = 0b00001111 ∧
      c'.ier = (if c.dlab = true then c.ier else 0) ∧
      c'.fcr = (if UartChipVersion.V16550 ≤ c.version then 0b10100111 &&& fcrMask c.version
        else c.fcr) ∧
      c'.line <+: c.line := by
  obtain ⟨c₁, hidentify, h₁⟩ := identifyUart_chip hbase
  obtain ⟨c₂, hreset, h₂, hline⟩ := resetToDefault_chip c.version.found h₁.base
  have hclosed : c₂.dlab = false := by
    unfold Chip.dlab
    rw [h₂.lcr]
    rfl
  obtain ⟨c₃, htest, h₃, hsame⟩ := test_chip c.version.found (h₂.base.trans h₁.base) hclosed
    (by rw [h₂.mcr, mcr_default])
  have hdefault := h₂.same h₃
  refine ⟨c₃, ?_, hdefault.base.trans h₁.base, hdefault.version.trans h₁.version,
    hdefault.leaves.trans h₁.leaves, ?_, hdefault.lcr, hdefault.mcr, ?_, ?_, ?_⟩
  · unfold UartPort.new
    rw [PortM.bind_ok hidentify]
    unfold UartPort.newOf
    have hports : lift (UartPort.ports c.base c.version.found) c₁
        = .ok (UartPort.of c.base c.version.found, c₁) := by
      rw [ports_eq hbase]
      rfl
    rw [PortM.bind_ok hports, PortM.bind_ok hreset, PortM.bind_ok htest, of_found]
    rfl
  · rw [hdefault.dll, hdefault.dlh]
  · have hd : c₁.dlab = c.dlab := congrArg (containsFlags · _) h₁.lcr
    rw [hdefault.ier, h₁.ier, hd]
  · rw [hdefault.fcr, h₁.version, h₁.fcr]
    cases c.version <;> rfl
  · rw [hsame]
    exact hline.trans h₁.line

theorem new_configures_sample : ∃ c', UartPort.new COM1 sampleChip
    = .ok (.ok (UartPort.of COM1 .V16550A, .V16550A), c') := by
  obtain ⟨c', hnew, -⟩ := new_configures (c := sampleChip) (by decide)
  exact ⟨c', hnew⟩

end Configuration

/-! ## What is printed -/

section Printing

variable {c₀ c : Chip} {base : Nat} {ver : UartChipVersion}

/-- The transmitter is empty after some of the next accesses. -/
def Chip.DrainsIn (n : Nat) (c : Chip) : Prop := ∃ k, k ≤ n ∧ (Chip.tick^[k + 1] c).queue = []

theorem ticks_now (c : Chip) (k : Nat) : (Chip.tick^[k] c).now = c.now + k ∧
    (Chip.tick^[k] c).leaves = c.leaves ∧ (Chip.tick^[k] c).queue.length ≤ c.queue.length := by
  induction k with
  | zero => exact ⟨rfl, rfl, Nat.le_refl _⟩
  | succ k ih =>
    obtain ⟨hnow, hleaves, hlen⟩ := ih
    rw [Function.iterate_succ_apply']
    refine ⟨?_, hleaves, ?_⟩
    · show (Chip.tick^[k] c).now + 1 = _
      omega
    · show ((Chip.tick^[k] c).queue.drop _).length ≤ _
      rw [List.length_drop]
      omega

/-- A chip that goes on sending sends everything that waits. -/
theorem drains_of_leaves (hleaves : ∀ n, ∃ m, n ≤ m ∧ c₀.leaves m = true) :
    ∀ (len : Nat) (c : Chip), c.leaves = c₀.leaves → c.queue.length ≤ len →
      ∃ k, (Chip.tick^[k] c).queue = [] := by
  intro len
  induction len with
  | zero => exact fun c _ hlen => ⟨0, List.eq_nil_of_length_eq_zero (Nat.le_zero.1 hlen)⟩
  | succ len ih =>
    intro c hc hlen
    -- the byte in front leaves at `m`
    obtain ⟨m, hm, hgone⟩ := hleaves c.now
    obtain ⟨hnow, hsame, hshort⟩ := ticks_now c (m - c.now)
    have hnext : (Chip.tick^[m - c.now] c).tick.queue.length ≤ len := by
      show ((Chip.tick^[m - c.now] c).queue.drop
        (if (Chip.tick^[m - c.now] c).leaves (Chip.tick^[m - c.now] c).now = true then 1 else 0)).length
          ≤ len
      rw [hsame, hnow, hc, Nat.add_sub_cancel' hm, if_pos hgone, List.length_drop]
      omega
    obtain ⟨k, hk⟩ := ih (Chip.tick^[m - c.now] c).tick (hsame.trans hc) hnext
    refine ⟨k + 1 + (m - c.now), ?_⟩
    rw [Function.iterate_add_apply, Function.iterate_succ_apply]
    exact hk

theorem drainsIn_of_leaves (hleaves : ∀ n, ∃ m, n ≤ m ∧ c.leaves m = true) : ∃ n, c.DrainsIn n := by
  obtain ⟨k, hk⟩ := drains_of_leaves hleaves _ c.tick rfl (Nat.le_refl _)
  exact ⟨k, k, Nat.le_refl k, hk⟩

/-- What holds while `l` is printed. -/
def Chip.Printed (c₀ : Chip) (l : List (BitVec 8)) (c : Chip) : Prop :=
  c₀.SameRegisters c ∧ c.line = c₀.line ++ l

theorem Chip.Printed.tick {l : List (BitVec 8)} (h : c₀.Printed l c) : c₀.Printed l c.tick :=
  ⟨h.1.trans tick_same, tick_line.trans h.2⟩

/-- A poll of the line status register. -/
theorem poll_chip (hb : c.base = base) : (do
      return containsFlags (← (UartPort.of base ver).lsr.read).1
        LSR.EMPTY_TRANSMITTER_HOLDING_REGISTER : PortM Chip Bool) c
    = .ok (decide (c.tick.queue = []), c.tick) := by
  rw [PortM.bind_ok (IoPort.read_chip c (k := 5) (by rw [hb]; rfl) (by decide))]
  show Except.ok (containsFlags (((if c.tick.dataReady = true then LSR.DATA_READY else 0) |||
    (if c.tick.queue = [] then LSR.EMPTY_TRANSMITTER_HOLDING_REGISTER else 0)) &&& LSR.all) _, _) = _
  by_cases hq : c.tick.queue = []
  · rw [if_pos hq, decide_eq_true hq]
    split <;> rfl
  · rw [if_neg hq, decide_eq_false hq]
    split <;> rfl

theorem depth_pos (c : Chip) : 0 < c.depth := by
  unfold Chip.depth
  split
  · split <;> decide
  · decide

/-- A byte for an empty transmitter goes on the line. -/
theorem thbr_chip (ver : UartChipVersion) (hd : c₀.dlab = false) (hl : c₀.loopback = false)
    {l : List (BitVec 8)} (h : c₀.Printed l c) (hq : c.queue = []) (byte : BitVec 8) :
    ∃ c', (do let _ ← (UartPort.of c₀.base ver).thbr.write byte : PortM Chip Unit) c
        = .ok ((), c') ∧
      c₀.Printed (l ++ [byte]) c' := by
  have hdlab : c.tick.dlab = false := (h.1.trans tick_same).dlab.trans hd
  have hloop : c.tick.loopback = false := (h.1.trans tick_same).loopback.trans hl
  have hempty : c.tick.queue = [] := tick_queue_nil hq
  rw [PortM.bind_ok (IoPort.write_chip c byte (k := 0) (by rw [h.1.base]; rfl) (by decide))]
  have hwrite : c.tick.write (byte &&& 0xFF) 0 = { c.tick with queue := [byte] } := by
    rw [and_all]
    show (if c.tick.dlab = true then _ else c.tick.transmit byte) = _
    rw [if_neg (by rw [hdlab]; exact Bool.false_ne_true)]
    unfold Chip.transmit
    rw [if_neg (by rw [hloop]; exact Bool.false_ne_true),
      if_pos (by rw [hempty]; exact depth_pos c.tick), hempty]
    rfl
  refine ⟨_, rfl, ?_⟩
  show c₀.Printed (l ++ [byte]) (c.tick.write (byte &&& 0xFF) 0)
  rw [hwrite]
  refine ⟨h.tick.1.trans ⟨rfl, rfl, rfl, rfl, rfl, rfl, rfl, rfl, rfl, rfl⟩, ?_⟩
  have hline := h.tick.2
  unfold Chip.line at hline ⊢
  rw [hempty, List.append_nil] at hline
  show c.tick.sent ++ [byte] = _
  rw [hline, List.append_assoc]

theorem writeByte_printed (hd : c₀.dlab = false) (hl : c₀.loopback = false) (fuel : Nat)
    (l : List (BitVec 8)) (byte : BitVec 8) :
    Spec (c₀.Printed l) ((UartPort.of c₀.base ver).writeByte fuel byte) fun _ =>
      c₀.Printed (l ++ [byte]) := by
  unfold UartPort.writeByte
  have hpoll : Spec (c₀.Printed l) (do
      return containsFlags (← (UartPort.of c₀.base ver).lsr.read).1
        LSR.EMPTY_TRANSMITTER_HOLDING_REGISTER) fun b c =>
      if b = true then c₀.Printed l c ∧ c.queue = [] else c₀.Printed l c := by
    intro c b c' h hrun
    rw [poll_chip h.1.base] at hrun
    cases hrun
    by_cases hq : c.tick.queue = []
    · rw [decide_eq_true hq, if_pos rfl]
      exact ⟨h.tick, hq⟩
    · rw [decide_eq_false hq, if_neg Bool.false_ne_true]
      exact h.tick
  refine Spec.bind (Spec.spin hpoll fuel) fun _ => ?_
  intro c u c' h hrun
  obtain ⟨c'', hwrite, hprinted⟩ := thbr_chip ver hd hl h.1 h.2 byte
  cases hwrite.symm.trans hrun
  exact hprinted

theorem writeByte_settles (ver : UartChipVersion) (hd : c₀.dlab = false) (hl : c₀.loopback = false)
    (hleaves : ∀ n, ∃ m, n ≤ m ∧ c₀.leaves m = true) (l : List (BitVec 8)) (byte : BitVec 8) :
    Settles (c₀.Printed l) (fun fuel => (UartPort.of c₀.base ver).writeByte fuel byte) fun _ =>
      c₀.Printed (l ++ [byte]) := by
  have hspin : ∀ n, Settles (fun c => c₀.Printed l c ∧ c.DrainsIn n) (fun fuel => spin (do
      return containsFlags (← (UartPort.of c₀.base ver).lsr.read).1
        LSR.EMPTY_TRANSMITTER_HOLDING_REGISTER) fuel) fun _ c => c₀.Printed l c ∧ c.queue = [] := by
    refine Settles.spin (V := fun n c => c₀.Printed l c ∧ c.DrainsIn n) fun n c h => ?_
    obtain ⟨hprinted, k, hk, hdrained⟩ := h
    refine ⟨decide (c.tick.queue = []), c.tick, poll_chip hprinted.1.base, ?_⟩
    by_cases hq : c.tick.queue = []
    · rw [decide_eq_true hq, if_pos rfl]
      exact ⟨hprinted.tick, hq⟩
    · rw [decide_eq_false hq, if_neg Bool.false_ne_true]
      cases k with
      | zero => exact absurd hdrained hq
      | succ k => exact ⟨k, hk, hprinted.tick, k, Nat.le_refl k, hdrained⟩
  have hstart : Settles (c₀.Printed l) (fun fuel => spin (do
      return containsFlags (← (UartPort.of c₀.base ver).lsr.read).1
        LSR.EMPTY_TRANSMITTER_HOLDING_REGISTER) fuel) fun _ c => c₀.Printed l c ∧ c.queue = [] := by
    intro c h
    obtain ⟨n, hn⟩ := drainsIn_of_leaves (c := c) (by rw [h.1.leaves]; exact hleaves)
    exact hspin n c ⟨h, hn⟩
  refine Settles.bind hstart fun _ => Settles.now fun c h => ?_
  obtain ⟨c', hwrite, hprinted⟩ := thbr_chip ver hd hl h.1 h.2 byte
  exact ⟨(), c', hwrite, hprinted⟩

theorem writeStr_printed (hd : c₀.dlab = false) (hl : c₀.loopback = false) (fuel : Nat)
    (l : List (BitVec 8)) (piece : String) :
    Spec (c₀.Printed l) ((UartPort.of c₀.base ver).writeStr fuel piece) fun _ =>
      c₀.Printed (l ++ strBytes piece) := by
  refine (Spec.forM (I := fun done => c₀.Printed (l ++ done)) (fun done byte => ?_)
    (strBytes piece) []).weaken (fun c h => ?_) fun _ _ h => h
  · rw [← List.append_assoc]
    exact writeByte_printed hd hl fuel (l ++ done) byte
  · rw [List.append_nil]
    exact h

theorem writeStr_settles (ver : UartChipVersion) (hd : c₀.dlab = false) (hl : c₀.loopback = false)
    (hleaves : ∀ n, ∃ m, n ≤ m ∧ c₀.leaves m = true) (l : List (BitVec 8)) (piece : String) :
    Settles (c₀.Printed l) (fun fuel => (UartPort.of c₀.base ver).writeStr fuel piece) fun _ =>
      c₀.Printed (l ++ strBytes piece) := by
  have hbytes := Settles.forM (I := fun done => c₀.Printed (l ++ done)) (fun done byte => by
    rw [← List.append_assoc]
    exact writeByte_settles ver hd hl hleaves (l ++ done) byte) (strBytes piece) []
  rw [List.append_nil] at hbytes
  exact hbytes

theorem flatMap_append_singleton (pieces : List String) (piece : String) :
    (pieces ++ [piece]).flatMap strBytes = pieces.flatMap strBytes ++ strBytes piece := by
  rw [List.flatMap_append, List.flatMap_singleton]

theorem writeFmt_printed (hd : c₀.dlab = false) (hl : c₀.loopback = false) (fuel : Nat)
    (pieces : List String) :
    Spec (c₀.Printed []) ((UartPort.of c₀.base ver).writeFmt fuel pieces) fun _ =>
      c₀.Printed (pieces.flatMap strBytes) := by
  refine Spec.forM (I := fun done => c₀.Printed (done.flatMap strBytes)) (fun done piece => ?_)
    pieces []
  rw [flatMap_append_singleton]
  exact writeStr_printed hd hl fuel _ piece

theorem writeFmt_settles (hd : c₀.dlab = false) (hl : c₀.loopback = false)
    (hleaves : ∀ n, ∃ m, n ≤ m ∧ c₀.leaves m = true) (pieces : List String) :
    Settles (c₀.Printed []) (fun fuel => (UartPort.of c₀.base ver).writeFmt fuel pieces) fun _ =>
      c₀.Printed (pieces.flatMap strBytes) := by
  refine Settles.forM (I := fun done => c₀.Printed (done.flatMap strBytes)) (fun done piece => ?_)
    pieces []
  rw [flatMap_append_singleton]
  exact writeStr_settles ver hd hl hleaves _ piece

/-- What `write_fmt` puts on the line are the bytes of the message, in order, each of them once. It
returns if the chip goes on sending. -/
theorem print_in_order (c : Chip) (ver : UartChipVersion) (pieces : List String)
    (hd : c.dlab = false) (hl : c.loopback = false) :
    (∀ fuel c', (UartPort.of c.base ver).writeFmt fuel pieces c = .ok ((), c') →
      c'.line = c.line ++ pieces.flatMap strBytes ∧ c.SameRegisters c') ∧
    ((∀ n, ∃ m, n ≤ m ∧ c.leaves m = true) → ∃ c' least, ∀ fuel, least ≤ fuel →
      (UartPort.of c.base ver).writeFmt fuel pieces c = .ok ((), c')) := by
  have hstart : c.Printed [] c := ⟨Chip.SameRegisters.refl c, (List.append_nil _).symm⟩
  refine ⟨fun fuel c' hrun => ?_, fun hleaves => ?_⟩
  · obtain ⟨hsame, hline⟩ := writeFmt_printed hd hl fuel pieces c () c' hstart hrun
    exact ⟨hline, hsame⟩
  · obtain ⟨_, c', -, least, hleast⟩ := writeFmt_settles hd hl hleaves pieces c hstart
    exact ⟨c', least, hleast⟩

theorem print_in_order_sample : ∃ c' least, ∀ fuel, least ≤ fuel →
    (UartPort.of COM1 .V16550A).writeFmt fuel ["tau", "os"] sampleChip = .ok ((), c') := by
  exact (print_in_order sampleChip .V16550A ["tau", "os"] rfl rfl).2
    fun n => ⟨n, Nat.le_refl n, rfl⟩

end Printing

end Tauos.Out
