import Mathlib.Data.Nat.Notation

/-!
# The mode registers of the SDRAM

The layouts `SDRAM_MR0` to `SDRAM_MR3` of `ddr3_sdram.h`. A union `SDRAM_MR` is one word and four
structures of bitfields over it: `reg` is the word of the fields, the first declared field in the
lowest bits, and `ofReg` are the fields of a word. The reserved fields are kept, so that the two are
inverse (`ofReg_reg`) and a decoded word is all of the word.

`MR.Reg = 0` followed by stores to bitfields is `{ ofReg 0 with ... }`. A store keeps as many low bits
of the value as the field has (`setWidth`).
-/

namespace Gec6818Bl1.Ddr

abbrev U8 := BitVec 8
abbrev U16 := BitVec 16
abbrev U32 := BitVec 32

structure SdramMr0 where
  bl : BitVec 2
  cl0 : BitVec 1
  bt : BitVec 1
  cl1 : BitVec 3
  sbz0 : BitVec 1
  dll : BitVec 1
  wr : BitVec 3
  pd : BitVec 1
  sbz1 : BitVec 3

structure SdramMr1 where
  dll : BitVec 1
  ods0 : BitVec 1
  rttNom0 : BitVec 1
  al : BitVec 2
  ods1 : BitVec 1
  rttNom1 : BitVec 1
  wl : BitVec 1
  sbz0 : BitVec 1
  rttNom2 : BitVec 1
  sbz1 : BitVec 1
  tdqs : BitVec 1
  qOff : BitVec 1
  sbz2 : BitVec 3

structure SdramMr2 where
  sbz0 : BitVec 3
  cwl : BitVec 3
  asr : BitVec 1
  srt : BitVec 1
  sbz1 : BitVec 1
  rttWr : BitVec 2
  sbz2 : BitVec 5

structure SdramMr3 where
  mprRf : BitVec 2
  mpr : BitVec 1
  sbz0 : BitVec 13

/-! ## Fields and words -/

def SdramMr0.reg (m : SdramMr0) : U16 :=
  m.sbz1 ++ m.pd ++ m.wr ++ m.dll ++ m.sbz0 ++ m.cl1 ++ m.bt ++ m.cl0 ++ m.bl

def SdramMr0.ofReg (w : U16) : SdramMr0 where
  bl := w.extractLsb' 0 2
  cl0 := w.extractLsb' 2 1
  bt := w.extractLsb' 3 1
  cl1 := w.extractLsb' 4 3
  sbz0 := w.extractLsb' 7 1
  dll := w.extractLsb' 8 1
  wr := w.extractLsb' 9 3
  pd := w.extractLsb' 12 1
  sbz1 := w.extractLsb' 13 3

def SdramMr1.reg (m : SdramMr1) : U16 :=
  m.sbz2 ++ m.qOff ++ m.tdqs ++ m.sbz1 ++ m.rttNom2 ++ m.sbz0 ++ m.wl ++ m.rttNom1 ++ m.ods1 ++
    m.al ++ m.rttNom0 ++ m.ods0 ++ m.dll

def SdramMr1.ofReg (w : U16) : SdramMr1 where
  dll := w.extractLsb' 0 1
  ods0 := w.extractLsb' 1 1
  rttNom0 := w.extractLsb' 2 1
  al := w.extractLsb' 3 2
  ods1 := w.extractLsb' 5 1
  rttNom1 := w.extractLsb' 6 1
  wl := w.extractLsb' 7 1
  sbz0 := w.extractLsb' 8 1
  rttNom2 := w.extractLsb' 9 1
  sbz1 := w.extractLsb' 10 1
  tdqs := w.extractLsb' 11 1
  qOff := w.extractLsb' 12 1
  sbz2 := w.extractLsb' 13 3

def SdramMr2.reg (m : SdramMr2) : U16 :=
  m.sbz2 ++ m.rttWr ++ m.sbz1 ++ m.srt ++ m.asr ++ m.cwl ++ m.sbz0

def SdramMr2.ofReg (w : U16) : SdramMr2 where
  sbz0 := w.extractLsb' 0 3
  cwl := w.extractLsb' 3 3
  asr := w.extractLsb' 6 1
  srt := w.extractLsb' 7 1
  sbz1 := w.extractLsb' 8 1
  rttWr := w.extractLsb' 9 2
  sbz2 := w.extractLsb' 11 5

def SdramMr3.reg (m : SdramMr3) : U16 :=
  m.sbz0 ++ m.mpr ++ m.mprRf

def SdramMr3.ofReg (w : U16) : SdramMr3 where
  mprRf := w.extractLsb' 0 2
  mpr := w.extractLsb' 2 1
  sbz0 := w.extractLsb' 3 13

theorem SdramMr0.ofReg_reg (m : SdramMr0) : ofReg m.reg = m := by
  simp (disch := decide) only [ofReg, reg, BitVec.extractLsb'_append_eq_of_le, Nat.reduceSub,
    BitVec.extractLsb'_append_eq_of_add_le, BitVec.extractLsb'_eq_self]

theorem SdramMr1.ofReg_reg (m : SdramMr1) : ofReg m.reg = m := by
  simp (disch := decide) only [ofReg, reg, BitVec.extractLsb'_append_eq_of_le, Nat.reduceSub,
    BitVec.extractLsb'_append_eq_of_add_le, BitVec.extractLsb'_eq_self]

theorem SdramMr2.ofReg_reg (m : SdramMr2) : ofReg m.reg = m := by
  simp (disch := decide) only [ofReg, reg, BitVec.extractLsb'_append_eq_of_le, Nat.reduceSub,
    BitVec.extractLsb'_append_eq_of_add_le, BitVec.extractLsb'_eq_self]

theorem SdramMr3.ofReg_reg (m : SdramMr3) : ofReg m.reg = m := by
  simp (disch := decide) only [ofReg, reg, BitVec.extractLsb'_append_eq_of_le, Nat.reduceSub,
    BitVec.extractLsb'_append_eq_of_add_le, BitVec.extractLsb'_eq_self]

/-! ## What the fields stand for -/

def SdramMr0.cl (m : SdramMr0) : BitVec 4 := m.cl1 ++ m.cl0

/-- The table at `CL0`, of `CL1` and `CL0` together. -/
def casLatency (code : BitVec 4) : Option ℕ :=
  match code.toNat with
  | 0b0010 => some 5
  | 0b0100 => some 6
  | 0b0110 => some 7
  | 0b1000 => some 8
  | 0b1010 => some 9
  | 0b1100 => some 10
  | 0b1110 => some 11
  | 0b0001 => some 12
  | 0b0011 => some 13
  | _ => none

def SdramMr1.ods (m : SdramMr1) : BitVec 2 := m.ods1 ++ m.ods0

def SdramMr1.rttNom (m : SdramMr1) : BitVec 3 := m.rttNom2 ++ m.rttNom1 ++ m.rttNom0

/-! ## The words of the driver -/

/-- `NX_SecondBootInfo`, as far as the DRAM code reads it. -/
structure SecondBootInfo where
  chipNum : U8
  chipRow : U8
  chipCol : U8
  chipMask : U16
  chipSize : U16
  cwl : U8
  cl : U8
  mr1Al : U8
  mr0Wr : U8
  timingPzq : U32
  timingAref : U32
  timingRow : U32
  timingData : U32
  timingPower : U32
  mr2RttWr : U8
  mr1Ods : U8
  mr1RttNom : U8
  zqDds : U8
  zqOdt : U8
  lvlTrMode : U16

/-- The header of a board with two ranks, `reference-nsih/raptor-1400-64.txt`. -/
def raptor1400 : SecondBootInfo where
  chipNum := 2
  chipRow := 3
  chipCol := 3
  chipMask := 0x07C0
  chipSize := 0x0040
  cwl := 8
  cl := 11
  mr1Al := 0
  mr0Wr := 6
  timingPzq := 0x0000401B
  timingAref := 0x00620618
  timingRow := 0x6836650E
  timingData := 0x3630580B
  timingPower := 0x41000A26
  mr2RttWr := 1
  mr1Ods := 0
  mr1RttNom := 2
  zqDds := 5
  zqOdt := 1
  lvlTrMode := 0x14

namespace SecondBootInfo

variable (sbi : SecondBootInfo)

/-- `temp`, from which the bits of the latency are taken. -/
def clBits (cl : U8) : U32 :=
  if 11 < cl then ((cl.setWidth 32 - 12) <<< 1) + 1 else (cl.setWidth 32 - 4) <<< 1

def mr0 : SdramMr0 :=
  { SdramMr0.ofReg 0 with
    bl := 0
    bt := 1
    cl0 := (clBits sbi.cl &&& 1).setWidth 1
    cl1 := (clBits sbi.cl >>> 1 &&& 7).setWidth 3
    dll := 0
    wr := sbi.mr0Wr.setWidth 3
    pd := 0 }

/-- The same stores in `init_DDR3`, `enterSelfRefresh` and `exitSelfRefresh`, but for `DLL`. -/
def mr1 (dll : BitVec 1) : SdramMr1 :=
  { SdramMr1.ofReg 0 with
    dll
    al := sbi.mr1Al.setWidth 2
    ods1 := (sbi.mr1Ods &&& 1#8 <<< 1).setWidth 1
    ods0 := (sbi.mr1Ods &&& 1#8 <<< 0).setWidth 1
    rttNom2 := (sbi.mr1RttNom &&& 1#8 <<< 2).setWidth 1
    rttNom1 := (sbi.mr1RttNom &&& 1#8 <<< 1).setWidth 1
    rttNom0 := (sbi.mr1RttNom &&& 1#8 <<< 0).setWidth 1
    qOff := 0
    wl := 0 }

/-- `DDR_HW_Write_Leveling` has its own drive strength and termination. -/
def levelingMr1 (wl : BitVec 1) : SdramMr1 :=
  { SdramMr1.ofReg 0 with
    dll := 0
    al := sbi.mr1Al.setWidth 2
    ods1 := 0
    ods0 := 1
    qOff := 0
    rttNom2 := 0
    rttNom1 := 1
    rttNom0 := 1
    wl }

def mr2 (rttWr : BitVec 2) (asr : BitVec 1) : SdramMr2 :=
  { SdramMr2.ofReg 0 with
    rttWr
    srt := 0
    asr
    cwl := (sbi.cwl.setWidth 32 - 5#32).setWidth 3 }

end SecondBootInfo

def mr3 (mpr : BitVec 1) : SdramMr3 :=
  { SdramMr3.ofReg 0 with mpr, mprRf := 0 }

/-! ## What the words say -/

/-- A one-bit field keeps the lowest bit of `x & (1 << k)`. -/
theorem setWidth_and_eq_zero (x : U8) {k : ℕ} (hk : 0 < k) :
    (x &&& 1#8 <<< k).setWidth 1 = 0#1 := by
  ext i hi
  obtain rfl : i = 0 := by omega
  simp only [BitVec.getElem_setWidth, BitVec.getLsbD_and, BitVec.getLsbD_shiftLeft, hk, decide_true,
    Bool.not_true, Bool.and_false, Bool.false_and, BitVec.getElem_zero]

theorem toNat_setWidth_and (x : U8) : ((x &&& 1#8 <<< 0).setWidth 1).toNat = x.toNat % 2 := by
  rw [BitVec.toNat_setWidth, BitVec.toNat_and]
  exact congrArg (· % 2) (Nat.and_one_is_mod x.toNat) |>.trans (Nat.mod_mod _ _)

namespace SecondBootInfo

variable (sbi : SecondBootInfo)

theorem casLatency_mr0 (h5 : 5 ≤ sbi.cl.toNat) (h13 : sbi.cl.toNat ≤ 13) :
    casLatency sbi.mr0.cl = some sbi.cl.toNat := by
  have htable : ∀ cl : U8, 5 ≤ cl.toNat → cl.toNat ≤ 13 →
      casLatency ((clBits cl >>> 1 &&& 7).setWidth 3 ++ (clBits cl &&& 1).setWidth 1) =
        some cl.toNat := by
    decide
  exact htable sbi.cl h5 h13

/-- The high bit is lost. -/
theorem toNat_mr1_ods (dll : BitVec 1) : (sbi.mr1 dll).ods.toNat = sbi.mr1Ods.toNat % 2 := by
  simp only [SdramMr1.ods, mr1, setWidth_and_eq_zero _ Nat.one_pos, BitVec.toNat_append,
    toNat_setWidth_and]
  simp

/-- The two high bits are lost. -/
theorem toNat_mr1_rttNom (dll : BitVec 1) :
    (sbi.mr1 dll).rttNom.toNat = sbi.mr1RttNom.toNat % 2 := by
  simp only [SdramMr1.rttNom, mr1, setWidth_and_eq_zero _ Nat.one_pos,
    setWidth_and_eq_zero _ Nat.two_pos, BitVec.toNat_append, toNat_setWidth_and]
  simp

theorem toNat_levelingMr1_ods (wl : BitVec 1) : (sbi.levelingMr1 wl).ods.toNat = 1 := by
  simp only [SdramMr1.ods, levelingMr1]
  decide

theorem toNat_levelingMr1_rttNom (wl : BitVec 1) : (sbi.levelingMr1 wl).rttNom.toNat = 3 := by
  simp only [SdramMr1.rttNom, levelingMr1]
  decide

theorem toNat_mr2_cwl (rttWr : BitVec 2) (asr : BitVec 1) (h5 : 5 ≤ sbi.cwl.toNat)
    (h12 : sbi.cwl.toNat ≤ 12) : (sbi.mr2 rttWr asr).cwl.toNat = sbi.cwl.toNat - 5 := by
  simp only [mr2, BitVec.toNat_setWidth, BitVec.toNat_sub, BitVec.toNat_ofNat]
  omega

end SecondBootInfo

end Gec6818Bl1.Ddr
