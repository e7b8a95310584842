import Tauos.Amd64.Descriptors
import Tauos.X86.Exceptions

/-!
# Descriptor tables

`amd64/src/interrupts.rs` and `segmentation.rs`: the interrupt descriptor table, field by field, the
descriptors of code and data segments, and the words that they are in memory. All fields of `IDT`
are 16 bytes, so its gates are at 16 times their vectors.
-/

namespace Tauos.Amd64

open Tauos.Rust Tauos.X86

namespace SegSel

def RPL_MASK : BitVec 16 := 0b11
def INDEX_MASK : BitVec 16 := 0b11111111_11111000

/-- `SegSel::new_gdt`. -/
def newGdt (rpl : PrivLvl) (index : BitVec 16) : SegSel :=
  rpl.toBits.setWidth 16 &&& RPL_MASK ||| index <<< INDEX_MASK.ctz

end SegSel

namespace CodeSegDesc

def CONFORMING : BitVec 64 := 1 <<< 42
def EXECUTABLE : BitVec 64 := 1 <<< 43
def TYPE : BitVec 64 := 1 <<< 44
def DPL_RING0 : BitVec 64 := 0b00 <<< 45
def DPL_RING3 : BitVec 64 := 0b11 <<< 45
def PRESENT : BitVec 64 := 1 <<< 47
def LONG_MODE : BitVec 64 := 1 <<< 53

/-- `CodeSegDesc::default`. -/
def default : BitVec 64 := CONFORMING ||| EXECUTABLE ||| TYPE ||| PRESENT ||| LONG_MODE

end CodeSegDesc

namespace DataSegDesc

def TYPE : BitVec 64 := 1 <<< 44
def PRESENT : BitVec 64 := 1 <<< 47

/-- `DataSegDesc::default`. -/
def default : BitVec 64 := TYPE ||| PRESENT

end DataSegDesc

/-- `SysSegDesc::to_bits`. -/
def SysSegDesc.toBits (d : SysSegDesc) : BitVec 64 × BitVec 64 :=
  (d.baseMid1 ++ d.gLimitHi ++ d.flags ++ d.baseMid0 ++ d.baseLo ++ d.limitLo,
    d.reserved ++ d.baseHi)

/-- A gate in memory. -/
def IntTrapGate.words (d : IntTrapGate) : BitVec 64 × BitVec 64 :=
  (d.isrPtrMid ++ d.flags ++ d.ist ++ d.selector ++ d.isrPtrLo, d.reserved ++ d.isrPtrHi)

/-- `IntTrapGate::missing`. -/
def IntTrapGate.missing (ssdt : Ssdt) : Except Fault IntTrapGate := do
  ensure ssdt.isIntTrap
  return ⟨0, 0, 0, ssdt.toBits, 0, 0, 0⟩

/-- A `u128` in memory. -/
def reservedWords (x : BitVec 128) : BitVec 64 × BitVec 64 :=
  (x.extractLsb' 0 64, x.extractLsb' 64 64)

/-- `TaskStateSeg::LIMIT`. -/
def TaskStateSeg.LIMIT : BitVec 32 := 104 - 1

/-- The gates in order. -/
structure IDT where
  divByZeroFault : IntTrapGate
  debug : IntTrapGate
  nonMaskableInterrupt : IntTrapGate
  breakPointTrap : IntTrapGate
  overflowTrap : IntTrapGate
  boundRangeFault : IntTrapGate
  invalidOpcodeFault : IntTrapGate
  deviceNotAvailableFault : IntTrapGate
  doubleFaultAbort : IntTrapGate
  reserved0 : BitVec 128
  invalidTssFault : IntTrapGate
  segmentNotPresentFault : IntTrapGate
  stackFault : IntTrapGate
  generalProtectionFault : IntTrapGate
  pageFault : IntTrapGate
  reserved1 : BitVec 128
  x87FpFault : IntTrapGate
  alignmentCheckFault : IntTrapGate
  machineCheckAbort : IntTrapGate
  simdFpFault : IntTrapGate
  reserved2 : BitVec 128
  controlProtectionFault : IntTrapGate
  reserved3 : List (BitVec 128)
  hypervisorInjection : IntTrapGate
  vmmCommunicationFault : IntTrapGate
  security : IntTrapGate
  reserved4 : BitVec 128
  interrupts : List IntTrapGate

namespace IDT

/-- `IDT::empty`. -/
def empty : Except Fault IDT := do
  let gate ← IntTrapGate.missing .interruptGate
  return { divByZeroFault := gate
           debug := gate
           nonMaskableInterrupt := gate
           breakPointTrap := gate
           overflowTrap := gate
           boundRangeFault := gate
           invalidOpcodeFault := gate
           deviceNotAvailableFault := gate
           doubleFaultAbort := gate
           reserved0 := 0
           invalidTssFault := gate
           segmentNotPresentFault := gate
           stackFault := gate
           generalProtectionFault := gate
           pageFault := gate
           reserved1 := 0
           x87FpFault := gate
           alignmentCheckFault := gate
           machineCheckAbort := gate
           simdFpFault := gate
           reserved2 := 0
           controlProtectionFault := gate
           reserved3 := List.replicate 6 0
           hypervisorInjection := gate
           vmmCommunicationFault := gate
           security := gate
           reserved4 := 0
           interrupts := List.replicate 224 gate }

/-- The fields in memory. -/
def entries (t : IDT) : List (BitVec 64 × BitVec 64) :=
  [t.divByZeroFault.words, t.debug.words, t.nonMaskableInterrupt.words, t.breakPointTrap.words,
    t.overflowTrap.words, t.boundRangeFault.words, t.invalidOpcodeFault.words,
    t.deviceNotAvailableFault.words, t.doubleFaultAbort.words, reservedWords t.reserved0,
    t.invalidTssFault.words, t.segmentNotPresentFault.words, t.stackFault.words,
    t.generalProtectionFault.words, t.pageFault.words, reservedWords t.reserved1,
    t.x87FpFault.words, t.alignmentCheckFault.words, t.machineCheckAbort.words,
    t.simdFpFault.words, reservedWords t.reserved2, t.controlProtectionFault.words] ++
  t.reserved3.map reservedWords ++
  [t.hypervisorInjection.words, t.vmmCommunicationFault.words, t.security.words,
    reservedWords t.reserved4] ++
  t.interrupts.map IntTrapGate.words

end IDT

/-- `lidt`, for a table of `size` bytes. -/
def lidt (size : Nat) (base : BitVec 64) : TableReg := ⟨BitVec.ofNat 16 size - 1, base⟩

/-- `lgdt`. -/
def lgdt (gdt : List (BitVec 64)) (base : BitVec 64) : TableReg :=
  ⟨BitVec.ofNat 16 (gdt.length * 8 - 1), base⟩

/-! ## Descriptors in memory -/

section Words

variable (mid sel lo : BitVec 16) (flags ist : BitVec 8) (hi res : BitVec 32)

/-- The processor sees the fields of a gate. -/
theorem decode_words : Gate.decode (mid ++ flags ++ ist ++ sel ++ lo) (res ++ hi) =
    ⟨hi ++ mid ++ lo, sel, ist.extractLsb' 0 3, flags.extractLsb' 0 5, flags.extractLsb' 5 2,
      flags.getLsbD 7⟩ := by
  have hlo : (mid ++ flags ++ ist ++ sel ++ lo).extractLsb' 0 16 = lo :=
    (extract_low _ lo (by decide)).trans (extract_all lo)
  have hsel : (mid ++ flags ++ ist ++ sel ++ lo).extractLsb' 16 16 = sel :=
    (extract_high (k := 0) _ lo).trans ((extract_low _ sel (by decide)).trans (extract_all sel))
  have hist : (mid ++ flags ++ ist ++ sel ++ lo).extractLsb' 32 3 = ist.extractLsb' 0 3 :=
    (extract_high (k := 16) _ lo).trans
      ((extract_high (k := 0) _ sel).trans (extract_low _ ist (by decide)))
  have htype : (mid ++ flags ++ ist ++ sel ++ lo).extractLsb' 40 5 = flags.extractLsb' 0 5 :=
    (extract_high (k := 24) _ lo).trans ((extract_high (k := 8) _ sel).trans
      ((extract_high (k := 0) _ ist).trans (extract_low _ flags (by decide))))
  have hdpl : (mid ++ flags ++ ist ++ sel ++ lo).extractLsb' 45 2 = flags.extractLsb' 5 2 :=
    (extract_high (k := 29) _ lo).trans ((extract_high (k := 13) _ sel).trans
      ((extract_high (k := 5) _ ist).trans (extract_low _ flags (by decide))))
  have hmid : (mid ++ flags ++ ist ++ sel ++ lo).extractLsb' 48 16 = mid :=
    (extract_high (k := 32) _ lo).trans ((extract_high (k := 16) _ sel).trans
      ((extract_high (k := 8) _ ist).trans
        ((extract_high (k := 0) _ flags).trans (extract_all mid))))
  have hhi : (res ++ hi).extractLsb' 0 32 = hi :=
    (extract_low _ hi (by decide)).trans (extract_all hi)
  have hpresent : (mid ++ flags ++ ist ++ sel ++ lo).getLsbD 47 = flags.getLsbD 7 :=
    (getLsbD_high (k := 31) _ lo).trans ((getLsbD_high (k := 15) _ sel).trans
      ((getLsbD_high (k := 7) _ ist).trans (by
        rw [BitVec.getLsbD_append, if_pos (show 7 < 8 by decide)])))
  unfold Gate.decode
  rw [hlo, hsel, hist, htype, hdpl, hmid, hhi, hpresent]

/-- The address of a gate from its parts. -/
theorem target_parts (t : BitVec 64) :
    (t >>> 32).setWidth 32 ++ (t >>> 16).setWidth 16 ++ t.setWidth 16 = t := by
  have hhigh := append_setWidth (t >>> 16) 32 16
  rw [← BitVec.shiftRight_add] at hhigh
  exact (congrArg (· ++ t.setWidth 16) hhigh).trans
    ((append_setWidth t 48 16).trans (BitVec.setWidth_eq t))

/-- The base in a descriptor of a system segment. -/
theorem base_parts_append (b : BitVec 64) : (b >>> 32).setWidth 32 ++ (b >>> 24).setWidth 8 ++
    (b >>> 16).setWidth 8 ++ b.setWidth 16 = b := by
  have htop := append_setWidth (b >>> 24) 32 8
  have hhigh := append_setWidth (b >>> 16) 40 8
  rw [← BitVec.shiftRight_add] at htop hhigh
  exact (congrArg (· ++ (b >>> 16).setWidth 8 ++ b.setWidth 16) htop).trans
    ((congrArg (· ++ b.setWidth 16) hhigh).trans
      ((append_setWidth b 48 16).trans (BitVec.setWidth_eq b)))

variable (mid1 g mid0 : BitVec 8) (baseLo limitLo : BitVec 16)

/-- The fields of a descriptor of a system segment. -/
theorem system_words :
    (mid1 ++ g ++ flags ++ mid0 ++ baseLo ++ limitLo).extractLsb' 40 5 = flags.extractLsb' 0 5 ∧
    (mid1 ++ g ++ flags ++ mid0 ++ baseLo ++ limitLo).getLsbD 47 = flags.getLsbD 7 ∧
    (res ++ hi).extractLsb' 0 32 = hi ∧
    (mid1 ++ g ++ flags ++ mid0 ++ baseLo ++ limitLo).extractLsb' 56 8 = mid1 ∧
    (mid1 ++ g ++ flags ++ mid0 ++ baseLo ++ limitLo).extractLsb' 32 8 = mid0 ∧
    (mid1 ++ g ++ flags ++ mid0 ++ baseLo ++ limitLo).extractLsb' 16 16 = baseLo ∧
    (mid1 ++ g ++ flags ++ mid0 ++ baseLo ++ limitLo).extractLsb' 48 4 = g.extractLsb' 0 4 ∧
    (mid1 ++ g ++ flags ++ mid0 ++ baseLo ++ limitLo).extractLsb' 0 16 = limitLo := by
  refine ⟨?_, ?_, ?_, ?_, ?_, ?_, ?_, ?_⟩
  · exact (extract_high (k := 24) _ limitLo).trans ((extract_high (k := 8) _ baseLo).trans
      ((extract_high (k := 0) _ mid0).trans (extract_low _ flags (by decide))))
  · exact (getLsbD_high (k := 31) _ limitLo).trans ((getLsbD_high (k := 15) _ baseLo).trans
      ((getLsbD_high (k := 7) _ mid0).trans (by
        rw [BitVec.getLsbD_append, if_pos (show 7 < 8 by decide)])))
  · exact (extract_low _ hi (by decide)).trans (extract_all hi)
  · exact (extract_high (k := 40) _ limitLo).trans ((extract_high (k := 24) _ baseLo).trans
      ((extract_high (k := 16) _ mid0).trans ((extract_high (k := 8) _ flags).trans
        ((extract_high (k := 0) _ g).trans (extract_all mid1)))))
  · exact (extract_high (k := 16) _ limitLo).trans ((extract_high (k := 0) _ baseLo).trans
      ((extract_low _ mid0 (by decide)).trans (extract_all mid0)))
  · exact (extract_high (k := 0) _ limitLo).trans
      ((extract_low _ baseLo (by decide)).trans (extract_all baseLo))
  · exact (extract_high (k := 32) _ limitLo).trans ((extract_high (k := 16) _ baseLo).trans
      ((extract_high (k := 8) _ mid0).trans ((extract_high (k := 0) _ flags).trans
        (extract_low _ g (by decide)))))
  · exact (extract_low _ limitLo (by decide)).trans (extract_all limitLo)

end Words

end Tauos.Amd64
