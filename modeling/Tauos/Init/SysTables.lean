import Mathlib.Tactic.IntervalCases
import Tauos.Amd64.Idt

/-!
# The tables of a processor

`setup_sys_tables` of `kernel/src/init.rs` makes the descriptor tables of a CPU and loads them. The
addresses of the tables and of the handlers are those that the allocator and the linker give; all
of them are canonical, as the addresses of objects and functions are.

> `exceptions_delivered`: where the CPU goes on after an exception.
-/

namespace Tauos.Init

open Tauos.Rust Tauos.X86 Tauos.Amd64

/-- The functions that `setup_sys_tables` has gates for. -/
inductive Isr
  | divByZeroFault
  | debugException
  | nakedBreakpointTrapWrapper
  | doubleFaultAbort
  | nakedPageFaultWrapper
  | nakedGeneralProtectionFaultWrapper
  | segmentNotPresentFault
  | alignmentCheckFault
  deriving DecidableEq, Repr

/-- The kernel's code segment in the global table. -/
def KRNL_CODE_SEG_IDX : BitVec 16 := 1

/-- Its selector. -/
def KRNL_CODE_SEG_SEL : SegSel := SegSel.newGdt .ring0 KRNL_CODE_SEG_IDX

/-- The code segment of user programs. -/
def USER_CODE_SEG_IDX : BitVec 16 := 2

/-- Its selector. -/
def USER_CODE_SEG_SEL : SegSel := SegSel.newGdt .ring3 USER_CODE_SEG_IDX

/-- The data segment, which is loaded by its index. -/
def DATA_SEG_IDX : BitVec 16 := 3

/-- The task state segment, in two entries. -/
def TSS_SEG_IDX : BitVec 16 := 4

/-- Its selector. -/
def TSS_SEG_SEL : SegSel := SegSel.newGdt .ring0 TSS_SEG_IDX

/-- The tables, and the registers that they are loaded into. `data` goes to `ds`, `es`, `fs`, `gs`
and `ss`. -/
structure SysTables where
  gdt : List (BitVec 64)
  idt : IDT
  gdtr : TableReg
  cs : SegSel
  data : BitVec 16
  tr : SegSel
  idtr : TableReg

/-- `setup_sys_tables`, with the handlers and the three tables where they are. -/
def setupSysTables (addr : Isr → Object 1) (tss : Object 104) (gdtBase : Object 48)
    (idtBase : Object 4096) : Except Fault SysTables := do
  let tssDesc := SysSegDesc.new tss.addr TaskStateSeg.LIMIT .avlTss .ring0 false
  let gdt := [0, CodeSegDesc.default ||| CodeSegDesc.DPL_RING0,
    CodeSegDesc.default ||| CodeSegDesc.DPL_RING3, DataSegDesc.default, tssDesc.toBits.1,
    tssDesc.toBits.2]
  let gate (isr : Isr) : Except Fault IntTrapGate :=
    IntTrapGate.new (addr isr).addr KRNL_CODE_SEG_SEL 0 .interruptGate .ring0
  let idt ← IDT.empty
  let idt := { idt with
    divByZeroFault := ← gate .divByZeroFault
    debug := ← gate .debugException
    breakPointTrap := ← gate .nakedBreakpointTrapWrapper
    doubleFaultAbort := ← gate .doubleFaultAbort
    pageFault := ← gate .nakedPageFaultWrapper
    generalProtectionFault := ← gate .nakedGeneralProtectionFaultWrapper
    segmentNotPresentFault := ← gate .segmentNotPresentFault
    alignmentCheckFault := ← gate .alignmentCheckFault }
  return ⟨gdt, idt, lgdt gdt gdtBase.addr, KRNL_CODE_SEG_SEL, DATA_SEG_IDX, TSS_SEG_SEL,
    lidt (16 * idt.entries.length) idtBase.addr⟩

/-- The vectors that the comments of `IDT` give. -/
def Isr.vector : Isr → BitVec 8
  | .divByZeroFault => 0
  | .debugException => 1
  | .nakedBreakpointTrapWrapper => 3
  | .doubleFaultAbort => 8
  | .segmentNotPresentFault => 11
  | .nakedGeneralProtectionFaultWrapper => 13
  | .nakedPageFaultWrapper => 14
  | .alignmentCheckFault => 17

/-- The vectors that are reserved. -/
def reservedVectors : List (BitVec 8) := [9, 15, 20, 22, 23, 24, 25, 26, 27, 31]

/-- What a vector has in the table. -/
inductive Field
  | isr (isr : Isr)
  | missing
  | reserved

/-- The vectors of the exceptions. -/
def fields : List Field :=
  [.isr .divByZeroFault, .isr .debugException, .missing, .isr .nakedBreakpointTrapWrapper, .missing,
    .missing, .missing, .missing, .isr .doubleFaultAbort, .reserved, .missing,
    .isr .segmentNotPresentFault, .missing, .isr .nakedGeneralProtectionFaultWrapper,
    .isr .nakedPageFaultWrapper, .reserved, .missing, .isr .alignmentCheckFault, .missing, .missing,
    .reserved, .missing, .reserved, .reserved, .reserved, .reserved, .reserved, .reserved, .missing,
    .missing, .missing, .reserved]

/-- The gate of a handler. -/
def isrGate (target : BitVec 64) : IntTrapGate :=
  ⟨target.setWidth 16, 8, 0, 0x8E, (target >>> 16).setWidth 16, (target >>> 32).setWidth 32, 0⟩

/-- `IntTrapGate::missing(Ssdt::InterruptGate)`. -/
def missingGate : IntTrapGate := ⟨0, 0, 0, 0x0E, 0, 0, 0⟩

/-- Its words in memory. -/
def Field.words (addr : Isr → Object 1) : Field → BitVec 64 × BitVec 64
  | .isr i => (isrGate (addr i).addr).words
  | .missing => missingGate.words
  | .reserved => reservedWords 0

variable {addr : Isr → Object 1} {tss : Object 104} {gdtBase : Object 48} {idtBase : Object 4096}
  {t : SysTables} {mem : BitVec 64 → BitVec 64}

/-- `IntTrapGate::new`, as `setup_sys_tables` calls it. -/
theorem isrGate_eq (target : BitVec 64) :
    IntTrapGate.new target KRNL_CODE_SEG_SEL 0 .interruptGate .ring0 = .ok (isrGate target) := rfl

/-- And the gates of `IDT::empty`. -/
theorem missingGate_eq : IntTrapGate.missing .interruptGate = .ok missingGate := rfl

/-- The fields of the table, the interrupts last. -/
theorem entries_eq (h : setupSysTables addr tss gdtBase idtBase = .ok t) :
    t.idt.entries = fields.map (Field.words addr) ++ List.replicate 224 missingGate.words := by
  unfold setupSysTables IDT.empty at h
  dsimp only at h
  simp only [isrGate_eq, missingGate_eq, ok_bind] at h
  cases h
  show fields.map (Field.words addr) ++ (List.replicate 224 missingGate).map IntTrapGate.words = _
  rw [List.map_replicate]

/-- What the processor sees of the gate of a handler. -/
theorem decode_isrGate (target : BitVec 64) :
    Gate.decode (isrGate target).words.1 (isrGate target).words.2
      = ⟨target, 8, 0, 0b01110, 0, true⟩ := by
  have h := decode_words ((target >>> 16).setWidth 16) 8 (target.setWidth 16) 0x8E 0
    ((target >>> 32).setWidth 32) 0
  rw [target_parts] at h
  exact h

/-- The gate of each handler is at its vector. -/
theorem entries_isr (h : setupSysTables addr tss gdtBase idtBase = .ok t) (isr : Isr) :
    t.idt.entries[isr.vector.toNat]? = some (isrGate (addr isr).addr).words := by
  rw [entries_eq h]
  cases isr <;> rfl

/-- The field may be at this vector. -/
def Field.fits (v : Nat) : Field → Bool
  | .isr i => v == i.vector.toNat
  | .missing => !reservedVectors.contains (BitVec.ofNat 8 v)
  | .reserved => reservedVectors.contains (BitVec.ofNat 8 v)

/-- All of them may be where they are. -/
theorem fields_fit : ∀ v < 32, fields[v]?.any (Field.fits v) = true := by decide

/-- The other vectors have no gate, or one that is not present. -/
theorem entries_other (h : setupSysTables addr tss gdtBase idtBase = .ok t) {v : BitVec 8}
    (hno : ∀ isr : Isr, v ≠ isr.vector) : t.idt.entries[v.toNat]?
      = some (if v ∈ reservedVectors then reservedWords 0 else missingGate.words) := by
  have hv := v.isLt
  rw [entries_eq h]
  rcases Nat.lt_or_ge v.toNat 32 with hlt | hge
  · rw [List.getElem?_append_left (by rw [List.length_map]; exact hlt), List.getElem?_map]
    have hfits := fields_fit v.toNat hlt
    cases hf : fields[v.toNat]? with
    | none =>
      rw [hf] at hfits
      cases hfits
    | some f =>
      rw [hf, Option.any_some] at hfits
      cases f with
      | isr i => exact absurd (BitVec.eq_of_toNat_eq (eq_of_beq hfits)) (hno i)
      | missing =>
        rw [Field.fits, BitVec.ofNat_toNat, BitVec.setWidth_eq, Bool.not_eq_true',
          ← Bool.not_eq_true, List.contains_iff_mem] at hfits
        rw [if_neg hfits]
        rfl
      | reserved =>
        rw [Field.fits, BitVec.ofNat_toNat, BitVec.setWidth_eq, List.contains_iff_mem] at hfits
        rw [if_pos hfits]
        rfl
  · -- the vectors for interrupts
    have hnot : v ∉ reservedVectors := by
      intro hmem
      have hall : ∀ w ∈ reservedVectors, w.toNat < 32 := by decide
      have := hall v hmem
      omega
    rw [List.getElem?_append_right (by rw [List.length_map]; exact hge), if_neg hnot,
      List.getElem?_replicate, if_pos]
    rw [List.length_map]
    show v.toNat - 32 < 224
    omega

/-- The table of 256 gates is covered. -/
theorem idtr_limit (h : setupSysTables addr tss gdtBase idtBase = .ok t) :
    t.idtr.limit.toNat = 4095 := by
  have hload : t.idtr = lidt (16 * t.idt.entries.length) idtBase.addr := by
    cases h
    rfl
  rw [hload, entries_eq h, List.length_append, List.length_map, List.length_replicate]
  rfl

/-- The tables are loaded from where they are. -/
theorem loaded_bases (h : setupSysTables addr tss gdtBase idtBase = .ok t) :
    t.gdtr.base = gdtBase.addr ∧ t.idtr.base = idtBase.addr := by
  cases h
  exact ⟨rfl, rfl⟩

/-- The descriptors, and the selectors that are loaded. -/
theorem gdt_eq (h : setupSysTables addr tss gdtBase idtBase = .ok t) :
    t.gdt = [0, 0x00209C0000000000, 0x0020FC0000000000, 0x0000900000000000,
      (SysSegDesc.new tss.addr TaskStateSeg.LIMIT .avlTss .ring0 false).toBits.1,
      (SysSegDesc.new tss.addr TaskStateSeg.LIMIT .avlTss .ring0 false).toBits.2] ∧
    t.gdtr.limit.toNat = 47 ∧ t.cs = 8 ∧ t.tr = 32 ∧ t.data = 3 := by
  cases h
  exact ⟨rfl, rfl, rfl, rfl, rfl⟩

/-- The segments of the kernel and of user programs are conforming. -/
theorem codeSegments (h : setupSysTables addr tss gdtBase idtBase = .ok t)
    (hgdt : Holds mem t.gdtr.base t.gdt) :
    codeSegment mem t.gdtr 8 = .ok ⟨true, 0, true⟩ ∧
      codeSegment mem t.gdtr 19 = .ok ⟨true, 3, true⟩ := by
  obtain ⟨hwords, hlimit, _⟩ := gdt_eq h
  have hbase := (loaded_bases h).1
  have hkrnl : descriptor mem t.gdtr 8 8 = .ok 0x00209C0000000000 :=
    descriptor_of_get hbase (by decide) hgdt (by decide) (by decide) (by rw [hlimit]; decide)
      (by rw [hwords]; rfl)
  have huser : descriptor mem t.gdtr 19 8 = .ok 0x0020FC0000000000 :=
    descriptor_of_get hbase (by decide) hgdt (by decide) (by decide) (by rw [hlimit]; decide)
      (by rw [hwords]; rfl)
  unfold codeSegment
  rw [hkrnl, huser]
  exact ⟨rfl, rfl⟩

/-- `ltr` gets the segment that was made. -/
theorem tss_segment (h : setupSysTables addr tss gdtBase idtBase = .ok t)
    (hgdt : Holds mem t.gdtr.base t.gdt) : taskSegment mem t.gdtr 32 = .ok ⟨tss.addr, 103⟩ := by
  obtain ⟨hwords, hlimit, _⟩ := gdt_eq h
  have hbase := (loaded_bases h).1
  let d := SysSegDesc.new tss.addr TaskStateSeg.LIMIT .avlTss .ring0 false
  have hlo : descriptor mem t.gdtr 32 16 = .ok d.toBits.1 :=
    descriptor_of_get hbase (by decide) hgdt (by decide) (by decide) (by rw [hlimit]; decide)
      (by rw [hwords]; rfl)
  have hhi : readWord mem (t.gdtr.base + BitVec.ofNat 64 (8 * (((32 : BitVec 16) >>> 3).toNat + 1)))
      = .ok d.toBits.2 := by
    have hword := hgdt 5 d.toBits.2 (by rw [hwords]; rfl)
    rw [hbase] at hword
    rw [hbase]
    exact (gdtBase.read mem (by decide)).trans (congrArg Except.ok hword)
  obtain ⟨htype, hpresent, hbaseHi, hmid1, hmid0, hbaseLo, hlimitHi, hlimitLo⟩ :=
    system_words d.flags d.baseHi d.reserved d.baseMid1 d.gLimitHi d.baseMid0 d.baseLo d.limitLo
  have hword : d.toBits.1 =
      d.baseMid1 ++ d.gLimitHi ++ d.flags ++ d.baseMid0 ++ d.baseLo ++ d.limitLo := rfl
  unfold taskSegment
  rw [hlo, hhi]
  show (if d.toBits.1.extractLsb' 40 5 ≠ 0b01001 then _ else _) = _
  -- an available segment of the kernel's level, present
  have hflags : d.flags = 0x89 := by
    show Ssdt.avlTss.toBits ||| PrivLvl.ring0.toBits <<< 5 ||| 0b1000_0000 = (0x89 : BitVec 8)
    decide
  have htype' : d.toBits.1.extractLsb' 40 5 = 0b01001 := by
    rw [hword, htype, hflags]
    rfl
  have hpresent' : d.toBits.1.getLsbD 47 = true := by
    rw [hword, hpresent, hflags]
    rfl
  have haddr : d.toBits.2.extractLsb' 0 32 ++ d.toBits.1.extractLsb' 56 8 ++
      d.toBits.1.extractLsb' 32 8 ++ d.toBits.1.extractLsb' 16 16 = tss.addr := by
    rw [hword, show d.toBits.2 = d.reserved ++ d.baseHi from rfl, hbaseHi, hmid1, hmid0, hbaseLo]
    exact base_parts_append tss.addr
  rw [if_neg (not_not_intro htype'), if_neg (by rw [hpresent']; exact Bool.noConfusion), haddr,
    if_neg (not_not_intro (tss.addr_canonical (by decide)))]
  have hlim : d.toBits.1.extractLsb' 48 4 ++ d.toBits.1.extractLsb' 0 16 = 103 := by
    rw [hword, hlimitHi, hlimitLo]
    show (((TaskStateSeg.LIMIT >>> 16) &&& 0b111).setWidth 8 |||
      (BitVec.ofBool false).setWidth 8 <<< 7).extractLsb' 0 4 ++ TaskStateSeg.LIMIT.setWidth 16
        = (103 : BitVec 20)
    decide
  rw [hlim]

/-- Every gate is open to the kernel, and to what no instruction asks for. -/
theorem gate_open {software : Bool} {cpl : BitVec 2} (hopen : software = true → cpl = 0)
    (dpl : BitVec 2) : ¬ (software = true ∧ dpl < cpl) := by
  rintro ⟨hsoft, hlt⟩
  rw [hopen hsoft] at hlt
  exact BitVec.not_lt_zero hlt

/-- Through the gate of a handler: the code segment is conforming, so the level stays. -/
theorem isrGate_enter {gdtr : TableReg} (hseg : codeSegment mem gdtr 8 = .ok ⟨true, 0, true⟩)
    {software : Bool} {cpl : BitVec 2} (hopen : software = true → cpl = 0) {target : BitVec 64}
    (htarget : CanonicalForm target) :
    Gate.enter mem gdtr software cpl ⟨target, 8, 0, 0b01110, 0, true⟩
      = .ok ⟨8 ||| cpl.setWidth 16, target, cpl, 0, true⟩ := by
  have hsel : ∀ l : BitVec 2, (8 : BitVec 16).extractLsb' 2 14 ++ l = 8 ||| l.setWidth 16 := by
    decide
  have hlow : ¬ cpl < 0#2 := BitVec.not_lt_zero
  unfold Gate.enter
  rw [if_neg (fun h => h (.inl rfl)), if_neg (gate_open hopen _), if_neg Bool.noConfusion]
  show (codeSegment mem gdtr 8).bind _ = _
  rw [hseg]
  show (if cpl < 0#2 then Except.error Refused.generalProtection
    else if true = false then .error .notPresent
    else if ¬ CanonicalForm target then .error .generalProtection
    else .ok (⟨(8 : BitVec 16).extractLsb' 2 14 ++ cpl, target, cpl, 0, true⟩ : Target)) = _
  rw [if_neg hlow, if_neg Bool.noConfusion, if_neg (not_not_intro htarget), hsel cpl]

/-- No level but the kernel's may ask for an exception. -/
theorem enter_closed {gdtr : TableReg} {gate : Gate} {cpl : BitVec 2} (hdpl : gate.dpl = 0)
    (hcpl : cpl ≠ 0) : gate.enter mem gdtr true cpl = .error .generalProtection := by
  have hlt : gate.dpl < cpl := by
    rw [hdpl]
    exact (BitVec.pos_iff_ne_zero cpl).mpr hcpl
  unfold Gate.enter
  split
  · rfl
  · exact if_pos ⟨rfl, hlt⟩

/-- All vectors are covered. -/
theorem idtr_covers (h : setupSysTables addr tss gdtBase idtBase = .ok t) (v : BitVec 8) :
    16 * v.toNat + 15 ≤ t.idtr.limit.toNat := by
  have hv := v.isLt
  rw [idtr_limit h]
  omega

/-- The processor gets to the gate of each vector. -/
theorem deliver_entry (h : setupSysTables addr tss gdtBase idtBase = .ok t)
    (hidt : Holds mem t.idtr.base (pairWords t.idt.entries)) (software : Bool) (cpl : BitVec 2)
    {v : BitVec 8} {e : BitVec 64 × BitVec 64} (he : t.idt.entries[v.toNat]? = some e) :
    deliver mem t.gdtr t.idtr software cpl v
      = (Gate.decode e.1 e.2).enter mem t.gdtr software cpl := by
  have hv := v.isLt
  exact deliver_of_gate software cpl (loaded_bases h).2 (by omega) hidt (idtr_covers h v) he

/-- An exception gets to its handler. -/
theorem deliver_isr (h : setupSysTables addr tss gdtBase idtBase = .ok t)
    (hgdt : Holds mem t.gdtr.base t.gdt) (hidt : Holds mem t.idtr.base (pairWords t.idt.entries))
    (software : Bool) (cpl : BitVec 2) (hopen : software = true → cpl = 0) (isr : Isr) :
    deliver mem t.gdtr t.idtr software cpl isr.vector
      = .ok ⟨t.cs ||| cpl.setWidth 16, (addr isr).addr, cpl, 0, true⟩ := by
  obtain ⟨_, _, hcs, _⟩ := gdt_eq h
  rw [deliver_entry h hidt software cpl (entries_isr h isr), decode_isrGate, hcs]
  exact isrGate_enter (codeSegments h hgdt).1 hopen ((addr isr).addr_canonical (by decide))

/-- Where the CPU goes on after an exception at any level: in the handler of the vector, at the
level and on the stack that it was on, with interrupts masked. An instruction that asks for one at
another level than the kernel's raises a general protection fault, and a vector without a handler
raises another exception. The code segments are conforming, the task segment is the one that was
made, and the selector in the data segment registers is null. -/
theorem exceptions_delivered (h : setupSysTables addr tss gdtBase idtBase = .ok t)
    (hgdt : Holds mem t.gdtr.base t.gdt) (hidt : Holds mem t.idtr.base (pairWords t.idt.entries)) :
    (∀ software cpl (isr : Isr), (software = true → cpl = 0) →
      deliver mem t.gdtr t.idtr software cpl isr.vector
        = .ok ⟨t.cs ||| cpl.setWidth 16, (addr isr).addr, cpl, 0, true⟩) ∧
    (∀ cpl v, cpl ≠ 0 → deliver mem t.gdtr t.idtr true cpl v = .error .generalProtection) ∧
    (∀ software cpl v, (software = true → cpl = 0) → (∀ isr : Isr, v ≠ isr.vector) →
      deliver mem t.gdtr t.idtr software cpl v
        = .error (if v ∈ reservedVectors then .generalProtection else .notPresent)) ∧
    codeSegment mem t.gdtr t.cs = .ok ⟨true, 0, true⟩ ∧
    codeSegment mem t.gdtr USER_CODE_SEG_SEL = .ok ⟨true, 3, true⟩ ∧
    taskSegment mem t.gdtr t.tr = .ok ⟨tss.addr, 103⟩ ∧ t.data >>> 2 = 0 := by
  obtain ⟨_, _, hcs, htr, hdata⟩ := gdt_eq h
  obtain ⟨hkrnl, huser⟩ := codeSegments h hgdt
  refine ⟨fun software cpl isr hopen => deliver_isr h hgdt hidt software cpl hopen isr,
    fun cpl v hcpl => ?_, fun software cpl v hopen hno => ?_, by rw [hcs]; exact hkrnl, huser,
    by rw [htr]; exact tss_segment h hgdt, by rw [hdata]; rfl⟩
  · by_cases hisr : ∃ isr : Isr, v = isr.vector
    · obtain ⟨isr, rfl⟩ := hisr
      rw [deliver_entry h hidt true cpl (entries_isr h isr), decode_isrGate]
      exact enter_closed rfl hcpl
    · rw [deliver_entry h hidt true cpl (entries_other h fun isr he => hisr ⟨isr, he⟩)]
      refine enter_closed ?_ hcpl
      split
      · rfl
      · rfl
  · rw [deliver_entry h hidt software cpl (entries_other h hno)]
    split
    · rfl
    · -- the gate is of the kernel's level, and not present
      exact if_neg (gate_open hopen _)

/-- Memory with two tables, the second one above the first one. -/
def twoTables (base base' : BitVec 64) (ws ws' : List (BitVec 64)) (a : BitVec 64) : BitVec 64 :=
  if a < base' then ws.getD ((a - base).toNat / 8) 0 else ws'.getD ((a - base').toNat / 8) 0

/-- The index of a word from its address. -/
theorem word_index (base : BitVec 64) {k : Nat} (hk : 8 * k < 2 ^ 64) :
    (base + BitVec.ofNat 64 (8 * k) - base).toNat / 8 = k := by
  rw [BitVec.add_comm, BitVec.add_sub_cancel, BitVec.toNat_ofNat, Nat.mod_eq_of_lt hk,
    Nat.mul_div_cancel_left k (by omega)]

/-- The first table is there if it ends below the second one. -/
theorem twoTables_first {base base' : BitVec 64} {ws : List (BitVec 64)} (ws' : List (BitVec 64))
    (h : base.toNat + 8 * ws.length ≤ base'.toNat) :
    Holds (twoTables base base' ws ws') base ws := by
  intro k w hw
  obtain ⟨hk, _⟩ := List.getElem?_eq_some_iff.mp hw
  have hb := base'.isLt
  have hlt : base + BitVec.ofNat 64 (8 * k) < base' := by
    rw [BitVec.lt_def, BitVec.toNat_add, BitVec.toNat_ofNat]
    omega
  unfold twoTables
  rw [if_pos hlt, word_index base (by omega), List.getD_eq_getElem?_getD, hw]
  rfl

/-- The second one is there if it ends in memory. -/
theorem twoTables_second {base base' : BitVec 64} (ws : List (BitVec 64)) {ws' : List (BitVec 64)}
    (h : base'.toNat + 8 * ws'.length ≤ 2 ^ 64) :
    Holds (twoTables base base' ws ws') base' ws' := by
  intro k w hw
  obtain ⟨hk, _⟩ := List.getElem?_eq_some_iff.mp hw
  have hge : ¬ base' + BitVec.ofNat 64 (8 * k) < base' := by
    rw [BitVec.lt_def, BitVec.toNat_add, BitVec.toNat_ofNat]
    omega
  unfold twoTables
  rw [if_neg hge, word_index base' (by omega), List.getD_eq_getElem?_getD, hw]
  rfl

/-- Objects below 4 GiB. -/
def lowObject (size : Nat) (base : BitVec 32) (h : size ≤ 2 ^ 32) : Object size where
  addr := base.setWidth 64
  canonical := by
    have := base.isLt
    left
    rw [BitVec.toNat_setWidth]
    omega

/-- Tables that are in memory where they are loaded from. -/
theorem tables_in_pages (addr : Isr → Object 1) : ∃ (t : SysTables) (mem : BitVec 64 → BitVec 64),
    setupSysTables addr (lowObject _ 0x3000 (by decide)) (lowObject _ 0x1000 (by decide))
      (lowObject _ 0x2000 (by decide)) = .ok t ∧
    Holds mem t.gdtr.base t.gdt ∧ Holds mem t.idtr.base (pairWords t.idt.entries) := by
  obtain ⟨t, h⟩ : ∃ t, setupSysTables addr (lowObject _ 0x3000 (by decide))
    (lowObject _ 0x1000 (by decide)) (lowObject _ 0x2000 (by decide)) = .ok t := ⟨_, rfl⟩
  obtain ⟨hgdt, hidt⟩ := loaded_bases h
  have hlen : t.gdt.length = 6 := by rw [(gdt_eq h).1]; rfl
  have hlen' : (pairWords t.idt.entries).length = 512 := by
    rw [pairWords_length, entries_eq h, List.length_append, List.length_map, List.length_replicate]
    rfl
  refine ⟨t, twoTables 0x1000 0x2000 t.gdt (pairWords t.idt.entries), h, ?_, ?_⟩
  · rw [hgdt]
    exact twoTables_first _ (by rw [hlen]; decide)
  · rw [hidt]
    exact twoTables_second _ (by rw [hlen']; decide)

/-- Tables in the pages at 0x1000 and 0x2000: a page fault in a user program gets to its handler, at
level 3, while an `int3` there does not. -/
theorem exceptions_delivered_pages : ∃ (t : SysTables) (mem : BitVec 64 → BitVec 64),
    setupSysTables (fun _ => lowObject _ 0x100000 (by decide)) (lowObject _ 0x3000 (by decide))
      (lowObject _ 0x1000 (by decide)) (lowObject _ 0x2000 (by decide)) = .ok t ∧
    deliver mem t.gdtr t.idtr false 3 14 = .ok ⟨0x0B, 0x100000, 3, 0, true⟩ ∧
    deliver mem t.gdtr t.idtr true 3 3 = .error .generalProtection ∧
    deliver mem t.gdtr t.idtr false 0 6 = .error .notPresent := by
  obtain ⟨t, mem, h, hgdt, hidt⟩ := tables_in_pages fun _ => lowObject _ 0x100000 (by decide)
  obtain ⟨hisr, hclosed, hother, _⟩ := exceptions_delivered h hgdt hidt
  refine ⟨t, mem, h, ?_, hclosed 3 3 (by decide), ?_⟩
  · have hpage := hisr false 3 .nakedPageFaultWrapper Bool.noConfusion
    rw [(gdt_eq h).2.2.1] at hpage
    exact hpage
  · exact hother false 0 6 Bool.noConfusion fun isr => by cases isr <;> decide

end Tauos.Init
