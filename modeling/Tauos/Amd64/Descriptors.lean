import Mathlib.Tactic.Common
import Tauos.Rust.Word
import Tauos.Rust.Fields

/-!
# System descriptors

`amd64/src/segmentation.rs` and `interrupts.rs`: the descriptors of system segments, of interrupt
and trap gates, and of call gates. Their values are spread over several fields, and the type, the
privilege level and the present bit share one byte.

> `descriptors_faithful_iff`: what is faithful about `new` and the setters of the three kinds.

Three things go wrong: `new` drops bit 19 of a limit, `set_dpl` writes the level over the bits of
the type, and the type of a system segment cannot be set.
-/

namespace Tauos.Amd64

open Tauos.Rust

/-- The rings. -/
inductive PrivLvl
  | ring0 | ring1 | ring2 | ring3
  deriving DecidableEq, Repr

/-- `self as u8`. -/
def PrivLvl.toBits : PrivLvl → BitVec 8
  | ring0 => 0b00
  | ring1 => 0b01
  | ring2 => 0b10
  | ring3 => 0b11

/-- `PrivLvl::from_bits`. -/
def PrivLvl.fromBits (bits : BitVec 8) : Except Fault PrivLvl :=
  if bits = 0b00 then .ok ring0
  else if bits = 0b01 then .ok ring1
  else if bits = 0b10 then .ok ring2
  else if bits = 0b11 then .ok ring3
  else .error .assertion

/-- System-Segment Descriptor Type. -/
inductive Ssdt
  | ldt | avlTss | busyTss | callGate | interruptGate | trapGate
  deriving DecidableEq, Repr

/-- `self as u8`. -/
def Ssdt.toBits : Ssdt → BitVec 8
  | ldt => 0b0010
  | avlTss => 0b1001
  | busyTss => 0b1011
  | callGate => 0b1100
  | interruptGate => 0b1110
  | trapGate => 0b1111

/-- `Ssdt::from_bits`. -/
def Ssdt.fromBits (bits : BitVec 8) : Except Fault Ssdt :=
  if bits = 0b0010 then .ok ldt
  else if bits = 0b1001 then .ok avlTss
  else if bits = 0b1011 then .ok busyTss
  else if bits = 0b1100 then .ok callGate
  else if bits = 0b1110 then .ok interruptGate
  else if bits = 0b1111 then .ok trapGate
  else .error .assertion

/-- `matches!(ssdt, Ssdt::InterruptGate | Ssdt::TrapGate)`. -/
def Ssdt.isIntTrap (ssdt : Ssdt) : Bool := ssdt == interruptGate || ssdt == trapGate

/-- The bits of a selector. -/
abbrev SegSel := BitVec 16

/-! ## The flags of a descriptor -/

/-- The level under a mask. -/
def dplOf (mask flags : BitVec 8) : Except Fault PrivLvl :=
  PrivLvl.fromBits ((flags &&& mask) >>> mask.ctz)

/-- `flags & !mask | dpl as u8`: the level is not shifted under the mask. -/
def withDpl (mask flags : BitVec 8) (dpl : PrivLvl) : BitVec 8 := flags &&& ~~~mask ||| dpl.toBits

/-- The type under a mask. -/
def ssdtOf (mask flags : BitVec 8) : Except Fault Ssdt := Ssdt.fromBits (flags &&& mask)

/-- The type is written into the flags. -/
def withSsdt (mask flags : BitVec 8) (ssdt : Ssdt) : BitVec 8 := flags &&& ~~~mask ||| ssdt.toBits

/-- A flag is read. -/
def flagOf (flag flags : BitVec 8) : Bool := flags &&& flag == flag

/-- A flag is written. -/
def withFlag (flag flags : BitVec 8) (on : Bool) : BitVec 8 :=
  if on then flags ||| flag else flags &&& ~~~flag

/-! ## System segments -/

/-- `SysSegDesc`, by its fields. -/
structure SysSegDesc where
  limitLo : BitVec 16
  baseLo : BitVec 16
  baseMid0 : BitVec 8
  flags : BitVec 8
  gLimitHi : BitVec 8
  baseMid1 : BitVec 8
  baseHi : BitVec 32
  reserved : BitVec 32
  deriving DecidableEq, Repr

namespace SysSegDesc

def FLAG_PRESENT : BitVec 8 := 0b1000_0000
def DPL_MASK : BitVec 8 := 0b0110_0000
def SSDT_MASK : BitVec 8 := 0b0000_1111
def GRANULARITY : BitVec 8 := 0b1000_0000
def LIMIT_MASK : BitVec 8 := 0b0000_1111

/-- `SysSegDesc::new`. -/
def new (base : BitVec 64) (limit : BitVec 32) (ssdt : Ssdt) (priviledge : PrivLvl)
    (pageGranularityLimit : Bool) : SysSegDesc :=
  { limitLo := limit.setWidth 16
    baseLo := base.setWidth 16
    baseMid0 := (base >>> 16).setWidth 8
    flags := ssdt.toBits ||| priviledge.toBits <<< 5 ||| 0b1000_0000
    gLimitHi := ((limit >>> 16) &&& 0b111).setWidth 8 |||
      (BitVec.ofBool pageGranularityLimit).setWidth 8 <<< 7
    baseMid1 := (base >>> 24).setWidth 8
    baseHi := (base >>> 32).setWidth 32
    reserved := 0 }

/-- The base, from its four parts. -/
def getBase (d : SysSegDesc) : BitVec 64 :=
  d.baseLo.setWidth 64 ||| d.baseMid0.setWidth 64 <<< 16 ||| d.baseMid1.setWidth 64 <<< 24 |||
    d.baseHi.setWidth 64 <<< 32

/-- The base is written to its four parts. -/
def setBase (d : SysSegDesc) (baseLaddr : BitVec 64) : SysSegDesc :=
  { d with
    baseLo := baseLaddr.setWidth 16
    baseMid0 := (baseLaddr >>> 16).setWidth 8
    baseMid1 := (baseLaddr >>> 24).setWidth 8
    baseHi := (baseLaddr >>> 32).setWidth 32 }

/-- The limit, from its two parts. -/
def getLimit (d : SysSegDesc) : BitVec 32 :=
  d.limitLo.setWidth 32 ||| (d.gLimitHi &&& LIMIT_MASK).setWidth 32 <<< 16

/-- The limit is written to its two parts. -/
def setLimit (d : SysSegDesc) (limit : BitVec 32) : SysSegDesc :=
  { d with
    limitLo := limit.setWidth 16
    gLimitHi := d.gLimitHi &&& ~~~LIMIT_MASK ||| (limit >>> 16).setWidth 8 }

def getSsdt (d : SysSegDesc) : Except Fault Ssdt := ssdtOf SSDT_MASK d.flags

/-- `set_ssdt`. It takes the types of a gate. -/
def setSsdt (d : SysSegDesc) (ssdt : Ssdt) : Except Fault SysSegDesc := do
  ensure ssdt.isIntTrap
  return { d with flags := withSsdt SSDT_MASK d.flags ssdt }

def getDpl (d : SysSegDesc) : Except Fault PrivLvl := dplOf DPL_MASK d.flags

def setDpl (d : SysSegDesc) (dpl : PrivLvl) : SysSegDesc :=
  { d with flags := withDpl DPL_MASK d.flags dpl }

def isPresent (d : SysSegDesc) : Bool := flagOf FLAG_PRESENT d.flags

def setPresent (d : SysSegDesc) (isPresent : Bool) : SysSegDesc :=
  { d with flags := withFlag FLAG_PRESENT d.flags isPresent }

def getPageGranularity (d : SysSegDesc) : Bool := flagOf GRANULARITY d.gLimitHi

def setPageGranularity (d : SysSegDesc) (pageGranularity : Bool) : SysSegDesc :=
  { d with gLimitHi := withFlag GRANULARITY d.gLimitHi pageGranularity }

/-- What the getters return. -/
structure View where
  base : BitVec 64
  limit : BitVec 32
  ssdt : Ssdt
  dpl : PrivLvl
  present : Bool
  pageGranularity : Bool
  deriving DecidableEq, Repr

/-- The setters of a system segment. -/
inductive Setter
  | base (baseLaddr : BitVec 64)
  | limit (limit : BitVec 32)
  | ssdt (ssdt : Ssdt)
  | dpl (dpl : PrivLvl)
  | present (isPresent : Bool)
  | pageGranularity (pageGranularity : Bool)

/-- What is set and read of a system segment. -/
def accessors : Accessors Fault SysSegDesc View Setter where
  view d := do
    let ssdt ← d.getSsdt
    let dpl ← d.getDpl
    return { base := d.getBase, limit := d.getLimit, ssdt, dpl, present := d.isPresent,
             pageGranularity := d.getPageGranularity }
  apply
    | .base b, d => .ok (d.setBase b)
    | .limit l, d => .ok (d.setLimit l)
    | .ssdt s, d => d.setSsdt s
    | .dpl p, d => .ok (d.setDpl p)
    | .present b, d => .ok (d.setPresent b)
    | .pageGranularity b, d => .ok (d.setPageGranularity b)
  set
    | .base b, v => { v with base := b }
    | .limit l, v => { v with limit := l }
    | .ssdt s, v => { v with ssdt := s }
    | .dpl p, v => { v with dpl := p }
    | .present b, v => { v with present := b }
    | .pageGranularity b, v => { v with pageGranularity := b }

end SysSegDesc

/-! ## Gates -/

def GATE_FLAG_PRESENT : BitVec 8 := 0b1000_0000
def GATE_DPL_MASK : BitVec 8 := 0b0110_0000
def GATE_SSDT_MASK : BitVec 8 := 0b0000_1111

/-- The address of a gate, from its three parts. -/
def targetOf (lo mid : BitVec 16) (hi : BitVec 32) : BitVec 64 :=
  lo.setWidth 64 ||| mid.setWidth 64 <<< 16 ||| hi.setWidth 64 <<< 32

/-- `IntTrapGate`, by its fields. -/
structure IntTrapGate where
  isrPtrLo : BitVec 16
  selector : SegSel
  ist : BitVec 8
  flags : BitVec 8
  isrPtrMid : BitVec 16
  isrPtrHi : BitVec 32
  reserved : BitVec 32
  deriving DecidableEq, Repr

namespace IntTrapGate

/-- `IntTrapGate::new`. -/
def new (targetLaddr : BitVec 64) (selector : SegSel) (ist : BitVec 8) (ssdt : Ssdt)
    (priviledge : PrivLvl) : Except Fault IntTrapGate := do
  ensure (ist < 8)
  ensure ssdt.isIntTrap
  return { isrPtrLo := targetLaddr.setWidth 16
           selector
           ist
           flags := ssdt.toBits ||| priviledge.toBits <<< GATE_DPL_MASK.ctz ||| GATE_FLAG_PRESENT
           isrPtrMid := (targetLaddr >>> 16).setWidth 16
           isrPtrHi := (targetLaddr >>> 32).setWidth 32
           reserved := 0 }

def getTarget (d : IntTrapGate) : BitVec 64 := targetOf d.isrPtrLo d.isrPtrMid d.isrPtrHi

def setTarget (d : IntTrapGate) (targetLaddr : BitVec 64) : IntTrapGate :=
  { d with
    isrPtrLo := targetLaddr.setWidth 16
    isrPtrMid := (targetLaddr >>> 16).setWidth 16
    isrPtrHi := (targetLaddr >>> 32).setWidth 32 }

def getIst (d : IntTrapGate) : BitVec 8 := d.ist

def setIst (d : IntTrapGate) (ist : BitVec 8) : Except Fault IntTrapGate := do
  ensure (ist < 8)
  return { d with ist }

def getSsdt (d : IntTrapGate) : Except Fault Ssdt := ssdtOf GATE_SSDT_MASK d.flags

def setSsdt (d : IntTrapGate) (ssdt : Ssdt) : Except Fault IntTrapGate := do
  ensure ssdt.isIntTrap
  return { d with flags := withSsdt GATE_SSDT_MASK d.flags ssdt }

def getDpl (d : IntTrapGate) : Except Fault PrivLvl := dplOf GATE_DPL_MASK d.flags

def setDpl (d : IntTrapGate) (dpl : PrivLvl) : IntTrapGate :=
  { d with flags := withDpl GATE_DPL_MASK d.flags dpl }

def isPresent (d : IntTrapGate) : Bool := flagOf GATE_FLAG_PRESENT d.flags

def setPresent (d : IntTrapGate) (isPresent : Bool) : IntTrapGate :=
  { d with flags := withFlag GATE_FLAG_PRESENT d.flags isPresent }

/-- What the getters return, and the selector, which can be read and written. -/
structure View where
  target : BitVec 64
  selector : SegSel
  ist : BitVec 8
  ssdt : Ssdt
  dpl : PrivLvl
  present : Bool
  deriving DecidableEq, Repr

/-- The setters of a gate. -/
inductive Setter
  | target (targetLaddr : BitVec 64)
  | selector (selector : SegSel)
  | ist (ist : BitVec 8)
  | ssdt (ssdt : Ssdt)
  | dpl (dpl : PrivLvl)
  | present (isPresent : Bool)

/-- What is set and read of a gate. -/
def accessors : Accessors Fault IntTrapGate View Setter where
  view d := do
    let ssdt ← d.getSsdt
    let dpl ← d.getDpl
    return { target := d.getTarget, selector := d.selector, ist := d.getIst, ssdt, dpl,
             present := d.isPresent }
  apply
    | .target t, d => .ok (d.setTarget t)
    | .selector selector, d => .ok { d with selector }
    | .ist i, d => d.setIst i
    | .ssdt s, d => d.setSsdt s
    | .dpl p, d => .ok (d.setDpl p)
    | .present b, d => .ok (d.setPresent b)
  set
    | .target t, v => { v with target := t }
    | .selector selector, v => { v with selector }
    | .ist i, v => { v with ist := i }
    | .ssdt s, v => { v with ssdt := s }
    | .dpl p, v => { v with dpl := p }
    | .present b, v => { v with present := b }

end IntTrapGate

/-- `CallGate`, by its fields. -/
structure CallGate where
  isrPtrLo : BitVec 16
  selector : SegSel
  reserved0 : BitVec 8
  flags : BitVec 8
  isrPtrMid : BitVec 16
  isrPtrHi : BitVec 32
  reserved1 : BitVec 32
  deriving DecidableEq, Repr

namespace CallGate

/-- `CallGate::new`. -/
def new (targetLaddr : BitVec 64) (selector : SegSel) (priviledge : PrivLvl) : CallGate :=
  { isrPtrLo := targetLaddr.setWidth 16
    selector
    reserved0 := 0
    flags := Ssdt.callGate.toBits ||| priviledge.toBits <<< GATE_DPL_MASK.ctz ||| GATE_FLAG_PRESENT
    isrPtrMid := (targetLaddr >>> 16).setWidth 16
    isrPtrHi := (targetLaddr >>> 32).setWidth 32
    reserved1 := 0 }

def getTarget (d : CallGate) : BitVec 64 := targetOf d.isrPtrLo d.isrPtrMid d.isrPtrHi

def setTarget (d : CallGate) (targetLaddr : BitVec 64) : CallGate :=
  { d with
    isrPtrLo := targetLaddr.setWidth 16
    isrPtrMid := (targetLaddr >>> 16).setWidth 16
    isrPtrHi := (targetLaddr >>> 32).setWidth 32 }

def getDpl (d : CallGate) : Except Fault PrivLvl := dplOf GATE_DPL_MASK d.flags

def setDpl (d : CallGate) (dpl : PrivLvl) : CallGate :=
  { d with flags := withDpl GATE_DPL_MASK d.flags dpl }

def isPresent (d : CallGate) : Bool := flagOf GATE_FLAG_PRESENT d.flags

def setPresent (d : CallGate) (isPresent : Bool) : CallGate :=
  { d with flags := withFlag GATE_FLAG_PRESENT d.flags isPresent }

/-- What the getters return, and the selector, which can be read and written. -/
structure View where
  target : BitVec 64
  selector : SegSel
  dpl : PrivLvl
  present : Bool
  deriving DecidableEq, Repr

/-- The setters of a call gate. -/
inductive Setter
  | target (targetLaddr : BitVec 64)
  | selector (selector : SegSel)
  | dpl (dpl : PrivLvl)
  | present (isPresent : Bool)

/-- What is set and read of a call gate. -/
def accessors : Accessors Fault CallGate View Setter where
  view d := do
    let dpl ← d.getDpl
    return { target := d.getTarget, selector := d.selector, dpl, present := d.isPresent }
  apply
    | .target t, d => .ok (d.setTarget t)
    | .selector selector, d => .ok { d with selector }
    | .dpl p, d => .ok (d.setDpl p)
    | .present b, d => .ok (d.setPresent b)
  set
    | .target t, v => { v with target := t }
    | .selector selector, v => { v with selector }
    | .dpl p, v => { v with dpl := p }
    | .present b, v => { v with present := b }

end CallGate

/-! ## Flags that are read after others are written -/

section Flags

variable {f m m' v : BitVec 8}

/-- Another field leaves the level alone. -/
theorem dplOf_apart (h : v &&& m = v) (hapart : m &&& m' = 0) :
    dplOf m' (f &&& ~~~m ||| v) = dplOf m' f := by
  rw [dplOf, dplOf, and_mask_other h hapart]

/-- Another field leaves the type alone. -/
theorem ssdtOf_apart (h : v &&& m = v) (hapart : m &&& m' = 0) :
    ssdtOf m' (f &&& ~~~m ||| v) = ssdtOf m' f := by
  rw [ssdtOf, ssdtOf, and_mask_other h hapart]

/-- Another field leaves a flag alone. -/
theorem flagOf_apart (h : v &&& m = v) (hapart : m &&& m' = 0) :
    flagOf m' (f &&& ~~~m ||| v) = flagOf m' f := by
  rw [flagOf, flagOf, and_mask_other h hapart]

/-- A flag is a field of its own. -/
theorem withFlag_eq (flag f : BitVec 8) (on : Bool) :
    withFlag flag f on = f &&& ~~~flag ||| (if on then flag else 0) := by
  cases on with
  | false => exact BitVec.or_zero.symm
  | true => exact or_eq f flag

/-- A flag is in its mask. -/
theorem flag_under (flag : BitVec 8) (on : Bool) :
    (if on then flag else 0) &&& flag = if on then flag else 0 := by
  cases on with
  | false => exact BitVec.zero_and
  | true => exact BitVec.and_self

/-- A flag that was written is read back. -/
theorem flagOf_withFlag {flag : BitVec 8} (hflag : flag ≠ 0) (f : BitVec 8) (on : Bool) :
    flagOf flag (withFlag flag f on) = on := by
  rw [flagOf, withFlag_eq, and_mask_self (flag_under flag on)]
  cases on with
  | false => exact beq_false_of_ne (Ne.symm hflag)
  | true => exact beq_self_eq_true flag

/-- A type survives its code. -/
theorem Ssdt.fromBits_toBits (s : Ssdt) : Ssdt.fromBits s.toBits = .ok s := by
  cases s <;> decide

/-- The code is in its mask. -/
theorem Ssdt.toBits_under (s : Ssdt) : s.toBits &&& 0b0000_1111 = s.toBits := by
  cases s <;> decide

/-- A type that was written is read back. -/
theorem ssdtOf_withSsdt (f : BitVec 8) (s : Ssdt) :
    ssdtOf 0b0000_1111 (withSsdt 0b0000_1111 f s) = .ok s := by
  rw [ssdtOf, withSsdt, and_mask_self s.toBits_under, Ssdt.fromBits_toBits]

/-- The level is not written under its mask: only the one that is zero is read back. -/
theorem dplOf_withDpl_iff (f : BitVec 8) (p : PrivLvl) :
    dplOf 0b0110_0000 (withDpl 0b0110_0000 f p) = .ok p ↔ p = .ring0 := by
  have hlow : p.toBits &&& 0b0110_0000 = 0 := by cases p <;> decide
  have hclear : f &&& ~~~0b0110_0000 &&& 0b0110_0000 = 0 := by
    have h0 : (0#8) &&& 0b0110_0000 = 0#8 := BitVec.zero_and
    rw [← BitVec.or_zero (x := f &&& ~~~0b0110_0000)]
    exact and_mask_self h0
  have hzero : withDpl 0b0110_0000 f p &&& 0b0110_0000 = 0 := by
    rw [withDpl, BitVec.and_or_distrib_right, hclear, hlow]
    rfl
  rw [dplOf, hzero]
  cases p <;> decide

/-- What the three kinds make of their arguments. -/
theorem flags_new (s : Ssdt) (p : PrivLvl) :
    ssdtOf 0b0000_1111 (s.toBits ||| p.toBits <<< 5 ||| 0b1000_0000) = .ok s ∧
      dplOf 0b0110_0000 (s.toBits ||| p.toBits <<< 5 ||| 0b1000_0000) = .ok p ∧
      flagOf 0b1000_0000 (s.toBits ||| p.toBits <<< 5 ||| 0b1000_0000) = true := by
  cases s <;> cases p <;> decide

/-- The flags after the type is written. -/
theorem flags_withSsdt (f : BitVec 8) (s : Ssdt) :
    ssdtOf 0b0000_1111 (withSsdt 0b0000_1111 f s) = .ok s ∧
      dplOf 0b0110_0000 (withSsdt 0b0000_1111 f s) = dplOf 0b0110_0000 f ∧
      flagOf 0b1000_0000 (withSsdt 0b0000_1111 f s) = flagOf 0b1000_0000 f :=
  ⟨ssdtOf_withSsdt f s, dplOf_apart s.toBits_under (by decide),
    flagOf_apart s.toBits_under (by decide)⟩

/-- The level that is zero is in none of the other fields. -/
theorem flags_withDpl (f : BitVec 8) :
    ssdtOf 0b0000_1111 (withDpl 0b0110_0000 f .ring0) = ssdtOf 0b0000_1111 f ∧
      dplOf 0b0110_0000 (withDpl 0b0110_0000 f .ring0) = .ok .ring0 ∧
      flagOf 0b1000_0000 (withDpl 0b0110_0000 f .ring0) = flagOf 0b1000_0000 f :=
  ⟨ssdtOf_apart (by decide) (by decide), (dplOf_withDpl_iff f _).mpr rfl,
    flagOf_apart (by decide) (by decide)⟩

/-- The flags after the present bit is written. -/
theorem flags_withPresent (f : BitVec 8) (b : Bool) :
    ssdtOf 0b0000_1111 (withFlag 0b1000_0000 f b) = ssdtOf 0b0000_1111 f ∧
      dplOf 0b0110_0000 (withFlag 0b1000_0000 f b) = dplOf 0b0110_0000 f ∧
      flagOf 0b1000_0000 (withFlag 0b1000_0000 f b) = b := by
  refine ⟨?_, ?_, flagOf_withFlag (by decide) f b⟩
  · rw [withFlag_eq]
    exact ssdtOf_apart (flag_under _ b) (by decide)
  · rw [withFlag_eq]
    exact dplOf_apart (flag_under _ b) (by decide)

end Flags

/-! ## Numbers that are put together -/

section Parts

/-- The low part of a number. -/
theorem getLsbD_low {w : Nat} (x : BitVec w) (n : Nat) {j : Nat} (hj : j < w) :
    ((x.setWidth n).setWidth w).getLsbD j = (decide (j < n) && x.getLsbD j) := by
  rw [BitVec.getLsbD_setWidth, BitVec.getLsbD_setWidth, decide_eq_true hj, Bool.true_and]

/-- The four parts of a base make the base. -/
theorem base_parts (b : BitVec 64) : (b.setWidth 16).setWidth 64 |||
    ((b >>> 16).setWidth 8).setWidth 64 <<< 16 ||| ((b >>> 24).setWidth 8).setWidth 64 <<< 24 |||
    ((b >>> 32).setWidth 32).setWidth 64 <<< 32 = b := by
  apply BitVec.eq_of_getLsbD_eq
  intro j hj
  rw [BitVec.getLsbD_or, BitVec.getLsbD_or, BitVec.getLsbD_or, getLsbD_low b 16 hj,
    getLsbD_part b 16 8 hj, getLsbD_part b 24 8 hj, getLsbD_part b 32 32 hj]
  cases b.getLsbD j with
  | false => simp
  | true =>
    simp only [Bool.and_true, Bool.or_eq_true, decide_eq_true_eq]
    omega

/-- The three parts of a target make the target. -/
theorem targetOf_parts (t : BitVec 64) :
    targetOf (t.setWidth 16) ((t >>> 16).setWidth 16) ((t >>> 32).setWidth 32) = t := by
  apply BitVec.eq_of_getLsbD_eq
  intro j hj
  rw [targetOf, BitVec.getLsbD_or, BitVec.getLsbD_or, getLsbD_low t 16 hj,
    getLsbD_part t 16 16 hj, getLsbD_part t 32 32 hj]
  cases t.getLsbD j with
  | false => simp
  | true =>
    simp only [Bool.and_true, Bool.or_eq_true, decide_eq_true_eq]
    omega

/-- A small value has no high bits. -/
theorem getLsbD_of_lt {w k j : Nat} {x : BitVec w} (h : x.toNat < 2 ^ k) (hj : k ≤ j) :
    x.getLsbD j = false :=
  Nat.testBit_lt_two_pow (Nat.lt_of_lt_of_le h (Nat.pow_le_pow_right (by decide) hj))

/-- The nibble of a limit of 20 bits. -/
theorem limit_under {l : BitVec 32} (hl : l.toNat < 2 ^ 20) :
    (l >>> 16).setWidth 8 &&& 0b0000_1111#8 = (l >>> 16).setWidth 8 := by
  apply BitVec.eq_of_getLsbD_eq
  intro j hj
  rw [BitVec.getLsbD_and, BitVec.getLsbD_setWidth, BitVec.getLsbD_ushiftRight]
  by_cases h4 : j < 4
  · have hones : (0b0000_1111#8).getLsbD j = true := by
      revert h4
      revert j
      decide
    rw [hones, Bool.and_true]
  · rw [getLsbD_of_lt hl (by omega), Bool.and_false, Bool.false_and]

/-- The two parts of a limit make the limit. -/
theorem limit_parts {l : BitVec 32} (hl : l.toNat < 2 ^ 20) :
    (l.setWidth 16).setWidth 32 ||| ((l >>> 16).setWidth 8).setWidth 32 <<< 16 = l := by
  apply BitVec.eq_of_getLsbD_eq
  intro j hj
  rw [BitVec.getLsbD_or, getLsbD_low l 16 hj, getLsbD_part l 16 8 hj]
  by_cases h20 : j < 20
  · cases l.getLsbD j with
    | false => simp
    | true =>
      simp only [Bool.and_true, Bool.or_eq_true, decide_eq_true_eq]
      omega
  · rw [getLsbD_of_lt hl (Nat.not_lt.mp h20), Bool.and_false, Bool.and_false]
    rfl

/-- The nibble that `SysSegDesc::new` writes. -/
theorem limit_parts_new (l : BitVec 32) :
    (l.setWidth 16).setWidth 32 ||| (((l >>> 16) &&& 0b111).setWidth 8).setWidth 32 <<< 16 =
      l &&& 0x7ffff := by
  have hlow : (l &&& 0x7ffff).setWidth 16 = l.setWidth 16 := by
    rw [BitVec.setWidth_and]
    exact BitVec.and_allOnes
  have hnibble : (l &&& 0x7ffff) >>> 16 = (l >>> 16) &&& 0b111 := by
    rw [BitVec.ushiftRight_and_distrib]
    rfl
  have hlt : (l &&& 0x7ffff).toNat < 2 ^ 20 := by
    rw [BitVec.toNat_and]
    exact Nat.lt_of_le_of_lt Nat.and_le_right (by decide)
  rw [← hlow, ← hnibble]
  exact limit_parts hlt

/-- The nibble and the flag of the byte that `SysSegDesc::new` writes. -/
theorem new_byte (l : BitVec 32) (g : Bool) :
    (((l >>> 16) &&& 0b111).setWidth 8 ||| (BitVec.ofBool g).setWidth 8 <<< 7) &&&
        SysSegDesc.LIMIT_MASK = ((l >>> 16) &&& 0b111).setWidth 8 ∧
      (((l >>> 16) &&& 0b111).setWidth 8 ||| (BitVec.ofBool g).setWidth 8 <<< 7) &&&
        SysSegDesc.GRANULARITY = (BitVec.ofBool g).setWidth 8 <<< 7 := by
  have hflag : (BitVec.ofBool g).setWidth 8 <<< 7 &&& SysSegDesc.LIMIT_MASK = 0#8 ∧
      (BitVec.ofBool g).setWidth 8 <<< 7 &&& SysSegDesc.GRANULARITY =
        (BitVec.ofBool g).setWidth 8 <<< 7 := by
    cases g <;> decide
  have hnibble : BitVec.setWidth 8 (0b111 : BitVec 32) &&& SysSegDesc.LIMIT_MASK =
        BitVec.setWidth 8 (0b111 : BitVec 32) ∧
      BitVec.setWidth 8 (0b111 : BitVec 32) &&& SysSegDesc.GRANULARITY = 0#8 := by
    decide
  rw [BitVec.and_or_distrib_right, BitVec.and_or_distrib_right, BitVec.setWidth_and,
    BitVec.and_assoc,
    BitVec.and_assoc, hflag.1, hflag.2, hnibble.1, hnibble.2, BitVec.or_zero, BitVec.and_zero,
    BitVec.zero_or]
  exact ⟨rfl, rfl⟩

end Parts

/-! ## Which setters work -/

namespace SysSegDesc

/-- A limit has 20 bits. The type can be any. -/
def Setter.Valid : Setter → Prop
  | .limit l => l.toNat < 2 ^ 20
  | _ => True

/-- When a setter works. -/
def Setter.Sound : Setter → Prop
  | .ssdt s => s.isIntTrap = true
  | .dpl p => p = .ring0
  | _ => True

/-- What is read of a system segment. -/
theorem view_iff {d : SysSegDesc} {v : View} : accessors.view d = .ok v ↔
    d.getBase = v.base ∧ d.getLimit = v.limit ∧ d.getSsdt = .ok v.ssdt ∧ d.getDpl = .ok v.dpl ∧
      d.isPresent = v.present ∧ d.getPageGranularity = v.pageGranularity := by
  constructor
  · intro h
    obtain ⟨ssdt, hssdt, h⟩ := bind_ok h
    obtain ⟨dpl, hdpl, h⟩ := bind_ok h
    cases h
    exact ⟨rfl, rfl, hssdt, hdpl, rfl, rfl⟩
  · rintro ⟨hbase, hlimit, hssdt, hdpl, hpresent, hgran⟩
    show (d.getSsdt >>= fun ssdt => d.getDpl >>= fun dpl => _) = _
    rw [hssdt, ok_bind, hdpl, ok_bind, hbase, hlimit, hpresent, hgran]
    rfl

/-- `new` is read back as it was made, if the limit has no more than 19 bits. -/
theorem view_new_iff (base : BitVec 64) (limit : BitVec 32) (s : Ssdt) (p : PrivLvl) (g : Bool) :
    accessors.view (new base limit s p g) = .ok ⟨base, limit, s, p, true, g⟩ ↔
      limit.toNat < 2 ^ 19 := by
  obtain ⟨hssdt, hdpl, hpresent⟩ := flags_new s p
  have hgran : (new base limit s p g).getPageGranularity = g := by
    rw [getPageGranularity, flagOf, new, (new_byte limit g).2]
    cases g <;> rfl
  have hlimit : (new base limit s p g).getLimit = limit &&& 0x7ffff := by
    rw [getLimit, new, (new_byte limit g).1]
    exact limit_parts_new limit
  rw [view_iff, hlimit, show (0x7ffff : BitVec 32) = BitVec.ofNat 32 (2 ^ 19 - 1) from rfl,
    and_ones_eq_self_iff (by decide)]
  exact ⟨fun h => h.2.1, fun h => ⟨base_parts base, h, hssdt, hdpl, hpresent, hgran⟩⟩

/-- What a setter does to the other fields. -/
theorem works_iff (s : Setter) (d : SysSegDesc) (v : View) (hvalid : s.Valid)
    (h : accessors.view d = .ok v) : accessors.Works s d v ↔ s.Sound := by
  obtain ⟨hbase, hlimit, hssdt, hdpl, hpresent, hgran⟩ := view_iff.mp h
  cases s with
  | base b =>
    exact iff_of_true ⟨_, rfl, view_iff.mpr
      ⟨base_parts b, hlimit, hssdt, hdpl, hpresent, hgran⟩⟩ trivial
  | limit l =>
    have hunder : (l >>> 16).setWidth 8 &&& LIMIT_MASK = (l >>> 16).setWidth 8 := limit_under hvalid
    refine iff_of_true ⟨_, rfl, view_iff.mpr ⟨hbase, ?_, hssdt, hdpl, hpresent, ?_⟩⟩ trivial
    · show _ ||| ((d.gLimitHi &&& ~~~LIMIT_MASK ||| (l >>> 16).setWidth 8) &&&
        LIMIT_MASK).setWidth 32 <<< 16 = l
      rw [and_mask_self hunder]
      exact limit_parts hvalid
    · exact (flagOf_apart hunder (by decide)).trans hgran
  | ssdt s =>
    cases hs : s.isIntTrap with
    | false =>
      refine iff_of_false ?_ (by rw [Setter.Sound, hs]; exact Bool.false_ne_true)
      rintro ⟨d', happly, _⟩
      obtain ⟨_, he, _⟩ := bind_ok happly
      rw [hs] at he
      cases he
    | true =>
      obtain ⟨hs', hp', hf'⟩ := flags_withSsdt d.flags s
      refine iff_of_true ⟨{ d with flags := withSsdt SSDT_MASK d.flags s }, ?_, view_iff.mpr
        ⟨hbase, hlimit, hs', hp'.trans hdpl, hf'.trans hpresent, hgran⟩⟩ hs
      show (ensure s.isIntTrap >>= fun _ => _) = _
      rw [hs]
      rfl
  | dpl p =>
    constructor
    · rintro ⟨d', happly, hview⟩
      cases happly
      exact (dplOf_withDpl_iff d.flags p).mp (view_iff.mp hview).2.2.2.1
    · rintro rfl
      obtain ⟨hs', hp', hf'⟩ := flags_withDpl d.flags
      exact ⟨_, rfl, view_iff.mpr
        ⟨hbase, hlimit, hs'.trans hssdt, hp', hf'.trans hpresent, hgran⟩⟩
  | present b =>
    obtain ⟨hs', hp', hf'⟩ := flags_withPresent d.flags b
    exact iff_of_true ⟨_, rfl, view_iff.mpr
      ⟨hbase, hlimit, hs'.trans hssdt, hp'.trans hdpl, hf', hgran⟩⟩ trivial
  | pageGranularity b =>
    refine iff_of_true ⟨_, rfl, view_iff.mpr ⟨hbase, ?_, hssdt, hdpl, hpresent,
      flagOf_withFlag (by decide) d.gLimitHi b⟩⟩ trivial
    show _ ||| (withFlag GRANULARITY d.gLimitHi b &&& LIMIT_MASK).setWidth 32 <<< 16 = _
    rw [withFlag_eq, and_mask_other (flag_under _ b) (by decide)]
    exact hlimit

end SysSegDesc

namespace IntTrapGate

/-- What the assertions ask for. -/
def Setter.Valid : Setter → Prop
  | .ist i => i < 8
  | .ssdt s => s.isIntTrap = true
  | _ => True

/-- The setters of a gate that do what they say. -/
def Setter.Sound : Setter → Prop
  | .dpl p => p = .ring0
  | _ => True

/-- What is read of a gate. -/
theorem view_iff {d : IntTrapGate} {v : View} : accessors.view d = .ok v ↔
    d.getTarget = v.target ∧ d.selector = v.selector ∧ d.getIst = v.ist ∧ d.getSsdt = .ok v.ssdt ∧
      d.getDpl = .ok v.dpl ∧ d.isPresent = v.present := by
  constructor
  · intro h
    obtain ⟨ssdt, hssdt, h⟩ := bind_ok h
    obtain ⟨dpl, hdpl, h⟩ := bind_ok h
    cases h
    exact ⟨rfl, rfl, rfl, hssdt, hdpl, rfl⟩
  · rintro ⟨htarget, hselector, hist, hssdt, hdpl, hpresent⟩
    show (d.getSsdt >>= fun ssdt => d.getDpl >>= fun dpl => _) = _
    rw [hssdt, ok_bind, hdpl, ok_bind, htarget, hselector, hist, hpresent]
    rfl

/-- A gate is read back as it was made. -/
theorem view_new (target : BitVec 64) (selector : SegSel) {ist : BitVec 8} {s : Ssdt} (p : PrivLvl)
    (hist : ist < 8) (hs : s.isIntTrap = true) :
    ∃ d, new target selector ist s p = .ok d ∧
      accessors.view d = .ok ⟨target, selector, ist, s, p, true⟩ := by
  obtain ⟨hssdt, hdpl, hpresent⟩ := flags_new s p
  unfold new
  rw [decide_eq_true hist, hs]
  exact ⟨_, rfl, view_iff.mpr ⟨targetOf_parts target, rfl, rfl, hssdt, hdpl, hpresent⟩⟩

/-- Which of them work. -/
theorem works_iff (s : Setter) (d : IntTrapGate) (v : View) (hvalid : s.Valid)
    (h : accessors.view d = .ok v) : accessors.Works s d v ↔ s.Sound := by
  obtain ⟨htarget, hselector, hist, hssdt, hdpl, hpresent⟩ := view_iff.mp h
  cases s with
  | target t =>
    exact iff_of_true ⟨_, rfl, view_iff.mpr
      ⟨targetOf_parts t, hselector, hist, hssdt, hdpl, hpresent⟩⟩ trivial
  | selector selector =>
    exact iff_of_true ⟨_, rfl, view_iff.mpr ⟨htarget, rfl, hist, hssdt, hdpl, hpresent⟩⟩ trivial
  | ist i =>
    refine iff_of_true ⟨{ d with ist := i }, ?_, view_iff.mpr
      ⟨htarget, hselector, rfl, hssdt, hdpl, hpresent⟩⟩ trivial
    show d.setIst i = _
    rw [setIst, decide_eq_true (show i < 8 from hvalid)]
    rfl
  | ssdt s =>
    obtain ⟨hs', hp', hf'⟩ := flags_withSsdt d.flags s
    refine iff_of_true ⟨{ d with flags := withSsdt GATE_SSDT_MASK d.flags s }, ?_, view_iff.mpr
      ⟨htarget, hselector, hist, hs', hp'.trans hdpl, hf'.trans hpresent⟩⟩ trivial
    show d.setSsdt s = _
    rw [setSsdt, show s.isIntTrap = true from hvalid]
    rfl
  | dpl p =>
    constructor
    · rintro ⟨d', happly, hview⟩
      cases happly
      exact (dplOf_withDpl_iff d.flags p).mp (view_iff.mp hview).2.2.2.2.1
    · rintro rfl
      obtain ⟨hs', hp', hf'⟩ := flags_withDpl d.flags
      exact ⟨_, rfl, view_iff.mpr
        ⟨htarget, hselector, hist, hs'.trans hssdt, hp', hf'.trans hpresent⟩⟩
  | present b =>
    obtain ⟨hs', hp', hf'⟩ := flags_withPresent d.flags b
    exact iff_of_true ⟨_, rfl, view_iff.mpr
      ⟨htarget, hselector, hist, hs'.trans hssdt, hp'.trans hdpl, hf'⟩⟩ trivial

end IntTrapGate

namespace CallGate

/-- The setters of a call gate that do what they say. -/
def Setter.Sound : Setter → Prop
  | .dpl p => p = .ring0
  | _ => True

/-- What is read of a call gate. -/
theorem view_iff {d : CallGate} {v : View} : accessors.view d = .ok v ↔
    d.getTarget = v.target ∧ d.selector = v.selector ∧ d.getDpl = .ok v.dpl ∧
      d.isPresent = v.present := by
  constructor
  · intro h
    obtain ⟨dpl, hdpl, h⟩ := bind_ok h
    cases h
    exact ⟨rfl, rfl, hdpl, rfl⟩
  · rintro ⟨htarget, hselector, hdpl, hpresent⟩
    show (d.getDpl >>= fun dpl => _) = _
    rw [hdpl, ok_bind, htarget, hselector, hpresent]
    rfl

/-- A call gate is read back as it was made. -/
theorem view_new (target : BitVec 64) (selector : SegSel) (p : PrivLvl) :
    accessors.view (new target selector p) = .ok ⟨target, selector, p, true⟩ := by
  obtain ⟨_, hdpl, hpresent⟩ := flags_new .callGate p
  exact view_iff.mpr ⟨targetOf_parts target, rfl, hdpl, hpresent⟩

/-- Which of them work. -/
theorem works_iff (s : Setter) (d : CallGate) (v : View) (_ : True)
    (h : accessors.view d = .ok v) : accessors.Works s d v ↔ s.Sound := by
  obtain ⟨htarget, hselector, hdpl, hpresent⟩ := view_iff.mp h
  cases s with
  | target t =>
    exact iff_of_true ⟨_, rfl, view_iff.mpr ⟨targetOf_parts t, hselector, hdpl, hpresent⟩⟩ trivial
  | selector selector =>
    exact iff_of_true ⟨_, rfl, view_iff.mpr ⟨htarget, rfl, hdpl, hpresent⟩⟩ trivial
  | dpl p =>
    constructor
    · rintro ⟨d', happly, hview⟩
      cases happly
      exact (dplOf_withDpl_iff d.flags p).mp (view_iff.mp hview).2.2.1
    · rintro rfl
      obtain ⟨_, hp', hf'⟩ := flags_withDpl d.flags
      exact ⟨_, rfl, view_iff.mpr ⟨htarget, hselector, hp', hf'.trans hpresent⟩⟩
  | present b =>
    obtain ⟨_, hp', hf'⟩ := flags_withPresent d.flags b
    exact iff_of_true ⟨_, rfl, view_iff.mpr ⟨htarget, hselector, hp'.trans hdpl, hf'⟩⟩ trivial

end CallGate

/-- Descriptors of the three kinds, as `new` makes them for a privilege level, under any run of
setters. -/
theorem descriptors_faithful_iff (p : PrivLvl) :
    (∀ (base : BitVec 64) (limit : BitVec 32) (s : Ssdt) (g : Bool)
      (ss : List SysSegDesc.Setter), (∀ x ∈ ss, x.Valid) →
      (SysSegDesc.accessors.Faithful (.new base limit s p g) ⟨base, limit, s, p, true, g⟩ ss ↔
        limit.toNat < 2 ^ 19 ∧ ∀ x ∈ ss, x.Sound)) ∧
    (∀ (target : BitVec 64) (selector : SegSel) (ist : BitVec 8) (s : Ssdt)
      (ss : List IntTrapGate.Setter), ist < 8 → s.isIntTrap = true → (∀ x ∈ ss, x.Valid) →
      ((∃ d, IntTrapGate.new target selector ist s p = .ok d ∧
          IntTrapGate.accessors.Faithful d ⟨target, selector, ist, s, p, true⟩ ss) ↔
        ∀ x ∈ ss, x.Sound)) ∧
    (∀ (target : BitVec 64) (selector : SegSel) (ss : List CallGate.Setter),
      (CallGate.accessors.Faithful (.new target selector p) ⟨target, selector, p, true⟩ ss ↔
        ∀ x ∈ ss, x.Sound)) := by
  refine ⟨fun base limit s g ss hvalid => ?_,
    fun target selector ist s ss hist hs hvalid => ?_, fun target selector ss => ?_⟩
  · rw [Accessors.faithful_iff _ SysSegDesc.works_iff ss _ _ hvalid, SysSegDesc.view_new_iff]
  · obtain ⟨d, hnew, hview⟩ := IntTrapGate.view_new target selector p hist hs
    have hiff := Accessors.faithful_iff _ IntTrapGate.works_iff ss d
      ⟨target, selector, ist, s, p, true⟩ hvalid
    rw [hnew]
    constructor
    · rintro ⟨d', hd, hfaithful⟩
      cases hd
      exact (hiff.mp hfaithful).2
    · intro hall
      exact ⟨d, rfl, hiff.mpr ⟨hview, hall⟩⟩
  · rw [Accessors.faithful_iff _ CallGate.works_iff ss _ _ fun _ _ => trivial, CallGate.view_new]
    exact ⟨fun h => h.2, fun h => ⟨rfl, h⟩⟩

/-- A task state segment that is moved, and then marked as not present. -/
theorem descriptors_faithful_tss : SysSegDesc.accessors.Faithful
    (.new 0x1000 103 .avlTss .ring3 false) ⟨0x1000, 103, .avlTss, .ring3, true, false⟩
    [.base 0xffff800000001000, .limit 0xfffff, .dpl .ring0, .present false] := by
  refine ((descriptors_faithful_iff .ring3).1 _ _ _ _ _ ?_).mpr ⟨by decide, ?_⟩
  · simp [SysSegDesc.Setter.Valid]
  · simp [SysSegDesc.Setter.Sound]

/-- A limit of 20 bits; a gate for ring 3, whose type changes from 14 to 15 instead; a segment
that becomes a busy one. -/
theorem descriptors_not_faithful :
    ¬ SysSegDesc.accessors.Faithful (.new 0 0x80000 .avlTss .ring0 true)
      ⟨0, 0x80000, .avlTss, .ring0, true, true⟩ [] ∧
    (∃ d d', IntTrapGate.new 0 8 0 .interruptGate .ring0 = .ok d ∧
      IntTrapGate.accessors.apply (.dpl .ring3) d = .ok d' ∧
      d'.getDpl = .ok .ring0 ∧ d'.getSsdt = .ok .trapGate) ∧
    (SysSegDesc.new 0 103 .avlTss .ring0 false).setSsdt .busyTss = .error .assertion := by
  refine ⟨fun h => absurd h.view (by decide), ⟨_, _, rfl, rfl, ?_, ?_⟩, ?_⟩ <;> decide

end Tauos.Amd64
