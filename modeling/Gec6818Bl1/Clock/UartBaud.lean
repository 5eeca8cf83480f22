import Mathlib.Algebra.Order.Group.Unbundled.Abs
import Gec6818Bl1.Clock.PllFreq
import Gec6818Bl1.Clock.ResetCon
import Gec6818Bl1.Lib.RegTrace

/-!
# The baud rate of the debug UART

`DebugInit` of `debug.c`, which takes its clock from PLL 2. The divisor is split over two registers:
the integer part less one in `BRDR`, sixteenths in `FRACVAL`.

The remainder is rounded by 32 before it is scaled to sixteenths, and the carry that may come of it
is not taken over to `BRDR`: near the next multiple `FRACVAL` is 16, which is no longer a sixteenth
(`fracval_le_iff`). Their sum is right either way (`divisor_close`).

**Headline** (`debugInit_baud_iff`): the divisor is programmed in range if and only if the remainder
is more than 32 away from the next multiple.
-/

namespace Gec6818Bl1.Clock.Uart

open RegTrace
open ExactArith (AllExact allExact_nil allExact_cons allExact_append)

/-! ## The registers -/

inductive Reg where
  | pllSetReg (i : ℕ)
  | pllSetRegSscg (i : ℕ)
  | gpioAltFn (group i : U32)
  | tieoffReg (i : U32)
  | regRst (i : U32)
  | clkEnb
  | clkGen (i : ℕ)
  | lcon
  | ucon
  | fcon
  | mcon
  | brdr
  | fracval
deriving DecidableEq

/-- A reading is known by its register and its time. -/
abbrev Site := Reg × ℕ

abbrev Readings := Site → U32

abbrev RegOp := Op Reg U32

abbrev History := List (Access Site Reg U32)

def run (rd : Readings) (ops : List RegOp) (log : History) : History := exec rd Prod.mk ops log

/-! ## The tables of the five ports -/

/-- `RESETNUM`. -/
def resetNum : Vector U32 5 := #v[50, 51, 52, 53, 54]

def padIndex (group bit function : U32) : U32 :=
  1 <<< 16 ||| group <<< 8 ||| bit <<< 3 ||| function

/-- `GPIOALTNUM`, the receive and the transmit pad of each port. -/
def gpioAltNum : Vector U32 10 :=
  #v[padIndex 3 14 1, padIndex 3 18 1, padIndex 3 15 1, padIndex 3 19 1, padIndex 3 16 1,
    padIndex 3 20 1, padIndex 3 17 1, padIndex 3 21 1, padIndex 1 28 3, padIndex 1 29 3]

def tieoffIndex (i : U32) : U32 := 1 <<< 16 ||| i

/-- `UARTSMC`, three for each port. -/
def uartSmc : Vector U32 18 :=
  #v[148, 149, 150, 154, 155, 156, 151, 152, 153, 157, 158, 159, 160, 161, 162, 163, 164, 165].map
    tieoffIndex

/-! ## The code -/

def gpioSetAltFunction (altFunc : U32) : RegOp :=
  let shift := ((altFunc >>> 3) &&& 0xF) * 2
  .modify (.gpioAltFn ((altFunc >>> 8) &&& 0x7) ((altFunc >>> 7) &&& 0x1)) fun v =>
    (v &&& ~~~(0x3#32 <<< shift)) ||| ((altFunc &&& 0x3) <<< shift)

def clearTieoff (index : U32) : RegOp :=
  .modify (.tieoffReg ((index &&& 0xFFFF) >>> 5)) (· &&& ~~~(1#32 <<< (index &&& 0x1F)))

def resetCon (devicenum : U32) (en : Bool) : RegOp :=
  resetConOn .regRst devicenum en

def sourceDivid : U32 := 4

/-- `(BAUD_RATE/1)*16`. -/
def baudSteps : U32 := 115200 * 16

/-- `NX_CLKSRC_UART`. -/
def clkSrcUart : ℕ := 2

/-- `DebugInit` up to the line settings. -/
def prepare (port : Fin 5) : List RegOp := [
  gpioSetAltFunction gpioAltNum[port.val * 2 + 0],
  gpioSetAltFunction gpioAltNum[port.val * 2 + 1],
  clearTieoff uartSmc[port.val * 3 + 0],
  clearTieoff uartSmc[port.val * 3 + 1],
  clearTieoff uartSmc[port.val * 3 + 2],
  resetCon resetNum[port] true,
  resetCon resetNum[port] false,
  .write .clkEnb (1 <<< 3),
  .write (.clkGen 0) (((sourceDivid - 1) <<< 5) ||| (BitVec.ofNat 32 clkSrcUart <<< 2)),
  .write .lcon 0x3,
  .write .ucon 0x113340,
  .write .fcon 0x441,
  .write .mcon 0x00]

/-- What follows the two registers of the divisor. -/
def enable : List RegOp := [.write .clkEnb (1 <<< 3 ||| 1 <<< 2), .write .ucon 0x113345]

section Code

variable (mode : OpMode) (fuel : ℕ)

/-- A call of `getremainder`. It divides, too. -/
def remainder (dividend divisor : U32) (ops : List ArithOp) : Option (U32 × List ArithOp) :=
  (getremainder mode fuel dividend divisor).map fun r => (r, ops ++ [.div dividend divisor])

/-- The value for `BRDR`. -/
def integerPart (sourceClock : U32) : Option (U32 × List ArithOp) := do
  let (clock, ops) ← quotient mode fuel sourceClock sourceDivid []
  let (q, ops) ← quotient mode fuel clock baudSteps ops
  return (ExactArith.Op.sub q 1).perform ops

/-- The value for `FRACVAL`. -/
def fractionalPart (sourceClock : U32) : Option (U32 × List ArithOp) := do
  let (clock, ops) ← quotient mode fuel sourceClock sourceDivid []
  let (r, ops) ← remainder mode fuel clock baudSteps ops
  let (rounded, ops) := (ExactArith.Op.add r 32).perform ops
  let (scaled, ops) := (ExactArith.Op.mul rounded 16).perform ops
  quotient mode fuel scaled baudSteps ops

variable (rd : Readings)

/-- The registers of a PLL as they are read now. -/
def pllRegs (i : ℕ) (log : History) : PllRegs :=
  ⟨rd (.pllSetReg i, log.length), rd (.pllSetRegSscg i, log.length + 1)⟩

/-- `DebugInit`, and the arithmetic of the divisor. -/
def debugInit (port : Fin 5) (log : History) : Option (History × List ArithOp) := do
  let pll := pllRegs rd clkSrcUart log
  let log := run rd [.read (.pllSetReg clkSrcUart), .read (.pllSetRegSscg clkSrcUart)] log
  let (sourceClock, _) ← getPllFreq mode fuel oscKhz (BitVec.ofNat 32 clkSrcUart) pll
  let log := run rd (prepare port) log
  let (brdr, ops) ← integerPart mode fuel sourceClock
  let log := run rd [.write .brdr brdr] log
  let (fracval, ops') ← fractionalPart mode fuel sourceClock
  return (run rd (.write .fracval fracval :: enable) log, ops ++ ops')

end Code

/-- Both registers of the divisor hold what they are meant to, and nothing wrapped on the way. -/
def ProgramsBaud (sourceClock : U32) (log : History) (ops : List ArithOp) : Prop :=
  ∃ brdr fracval, lastWrite .brdr log = some brdr ∧ lastWrite .fracval log = some fracval ∧
    AllExact ops ∧ 0 ≤ brdr.toInt ∧ fracval.toNat ≤ 15 ∧
    |(brdr.toNat + 1 + fracval.toNat / 16 : ℚ) -
      (sourceClock.toNat / 4 : ℕ) / (16 * 115200 : ℕ)| ≤ 1 / 16

/-! ## The two values -/

section Values

variable {mode : OpMode} {fuel : ℕ} {sourceClock : U32} {c : ℕ}

def integerValue (sourceClock : U32) : U32 := sourceClock / sourceDivid / baudSteps - 1

def fractionalValue (sourceClock : U32) : U32 :=
  (sourceClock / sourceDivid % baudSteps + 32) * 16 / baudSteps

def integerOps (sourceClock : U32) : List ArithOp :=
  [.div sourceClock sourceDivid, .div (sourceClock / sourceDivid) baudSteps,
    .sub (sourceClock / sourceDivid / baudSteps) 1]

def fractionalOps (sourceClock : U32) : List ArithOp :=
  [.div sourceClock sourceDivid, .div (sourceClock / sourceDivid) baudSteps,
    .add (sourceClock / sourceDivid % baudSteps) 32,
    .mul (sourceClock / sourceDivid % baudSteps + 32) 16,
    .div ((sourceClock / sourceDivid % baudSteps + 32) * 16) baudSteps]

theorem sourceDivid_ne : sourceDivid ≠ 0 := by decide

theorem baudSteps_ne : baudSteps ≠ 0 := by decide

theorem integerPart_eq (hfuel : 33 ≤ fuel) : integerPart mode fuel sourceClock =
    some (integerValue sourceClock, integerOps sourceClock) := by
  simp only [integerPart, quotient_eq mode sourceDivid_ne hfuel,
    quotient_eq mode baudSteps_ne hfuel]
  rfl

theorem fractionalPart_eq (hfuel : 33 ≤ fuel) : fractionalPart mode fuel sourceClock =
    some (fractionalValue sourceClock, fractionalOps sourceClock) := by
  simp only [fractionalPart, remainder, getremainder_eq mode baudSteps_ne hfuel,
    quotient_eq mode sourceDivid_ne hfuel, quotient_eq mode baudSteps_ne hfuel]
  rfl

/-- The remainder is far from the end of 32 bits. -/
theorem exact_rounded : (ExactArith.Op.add (sourceClock / sourceDivid % baudSteps) 32).Exact := by
  have : (sourceClock / sourceDivid % baudSteps).toNat < 1843200 := Nat.mod_lt _ (by decide)
  rw [ExactArith.Op.Exact]
  exact (Nat.add_lt_add_right this 32).trans (by decide)

theorem exact_sixteenths :
    (ExactArith.Op.mul (sourceClock / sourceDivid % baudSteps + 32) 16).Exact := by
  have : (sourceClock / sourceDivid % baudSteps).toNat < 1843200 := Nat.mod_lt _ (by decide)
  rw [ExactArith.Op.Exact, BitVec.toNat_add_of_lt exact_rounded]
  exact (Nat.mul_lt_mul_of_pos_right (Nat.add_lt_add_right this 32) (by decide)).trans (by decide)

theorem one_le_quotient (h : 1843200 ≤ sourceClock.toNat / 4) :
    (ExactArith.Op.sub (sourceClock / sourceDivid / baudSteps) 1).Exact :=
  Nat.div_pos h (by decide)

theorem exact_ops (h : 1843200 ≤ sourceClock.toNat / 4) :
    AllExact (integerOps sourceClock ++ fractionalOps sourceClock) := by
  simp only [integerOps, fractionalOps, allExact_append, allExact_cons]
  exact ⟨⟨sourceDivid_ne, baudSteps_ne, one_le_quotient h, allExact_nil⟩,
    sourceDivid_ne, baudSteps_ne, exact_rounded, exact_sixteenths, baudSteps_ne, allExact_nil⟩

theorem toNat_integerValue (h : 1843200 ≤ sourceClock.toNat / 4) :
    (integerValue sourceClock).toNat = sourceClock.toNat / 4 / 1843200 - 1 := by
  rw [integerValue, BitVec.toNat_sub_of_le (one_le_quotient h), BitVec.toNat_udiv,
    BitVec.toNat_udiv]
  rfl

theorem toNat_fractionalValue : (fractionalValue sourceClock).toNat =
    (sourceClock.toNat / 4 % 1843200 + 32) * 16 / 1843200 := by
  rw [fractionalValue, BitVec.toNat_udiv, BitVec.toNat_mul_of_lt exact_sixteenths,
    BitVec.toNat_add_of_lt exact_rounded, BitVec.toNat_umod, BitVec.toNat_udiv]
  rfl

/-- The carry of the rounding. -/
theorem fracval_le_iff : (c % 1843200 + 32) * 16 / 1843200 ≤ 15 ↔ c % 1843200 + 32 < 1843200 := by
  omega

/-- With the carry or without it, the sum is within a sixteenth. -/
theorem divisor_close (h : 1843200 ≤ c) :
    |((c / 1843200 - 1 : ℕ) + 1 + ((c % 1843200 + 32) * 16 / 1843200 : ℕ) / 16 : ℚ) -
      c / (16 * 115200 : ℕ)| ≤ 1 / 16 := by
  obtain ⟨q, hq⟩ : ∃ q, c / 1843200 = q + 1 := ⟨c / 1843200 - 1, by omega⟩
  have whole : (c : ℚ) = 1843200 * (q + 1) + (c % 1843200 : ℕ) := by
    exact_mod_cast (hq ▸ Nat.div_add_mod c 1843200).symm
  have lower : 1843200 * (((c % 1843200 + 32) * 16 / 1843200 : ℕ) : ℚ) ≤
      ((c % 1843200 : ℕ) + 32) * 16 := by
    exact_mod_cast Nat.mul_div_le ((c % 1843200 + 32) * 16) 1843200
  have upper : ((c % 1843200 : ℕ) + 32 : ℚ) * 16 <
      1843200 * (((c % 1843200 + 32) * 16 / 1843200 : ℕ) + 1) := by
    exact_mod_cast Nat.lt_mul_div_succ ((c % 1843200 + 32) * 16) (by decide)
  rw [abs_le, hq, Nat.add_sub_cancel, whole]
  push_cast
  constructor <;> linarith

end Values

/-! ## The run -/

section Run

variable {mode : OpMode} {fuel : ℕ} {rd : Readings} {port : Fin 5} {log log' : History}
  {sourceClock : U32} {ops ops₀ : List ArithOp}

/-- What `DebugInit` leaves behind, if PLL 2 has a frequency. -/
theorem debugInit_eq (port : Fin 5) (hfuel : 33 ≤ fuel)
    (hpll : getPllFreq mode fuel oscKhz 2 (pllRegs rd 2 log) = some (sourceClock, ops₀)) :
    ∃ before, debugInit mode fuel rd port log =
      some (run rd (.write .fracval (fractionalValue sourceClock) :: enable)
        (run rd [.write .brdr (integerValue sourceClock)] before),
        integerOps sourceClock ++ fractionalOps sourceClock) := by
  refine ⟨run rd (prepare port)
    (run rd [.read (.pllSetReg clkSrcUart), .read (.pllSetRegSscg clkSrcUart)] log), ?_⟩
  change (getPllFreq mode fuel oscKhz 2 (pllRegs rd 2 log)).bind _ = _
  rw [hpll]
  simp only [Option.bind_some, integerPart_eq hfuel, fractionalPart_eq hfuel]
  rfl

theorem lastWrite_brdr {brdr fracval : U32} : lastWrite .brdr
    (run rd (.write .fracval fracval :: enable) (run rd [.write .brdr brdr] log)) = some brdr :=
  (lastWrite_exec_of_spares (by simp [enable, Op.target])).trans
    (lastWrite_exec_write [] spares_nil)

theorem lastWrite_fracval {fracval : U32} :
    lastWrite .fracval (run rd (.write .fracval fracval :: enable) log) = some fracval :=
  lastWrite_exec_write [] (by decide)

/-- **The baud rate of the debug UART**: for every clock of at least one baud step, the divisor is
programmed exactly if the rounding of the remainder does not reach the next multiple. -/
theorem debugInit_baud_iff (hfuel : 33 ≤ fuel)
    (hpll : getPllFreq mode fuel oscKhz 2 (pllRegs rd 2 log) = some (sourceClock, ops₀))
    (hclock : 16 * 115200 ≤ sourceClock.toNat / 4) :
    (∃ log' ops, debugInit mode fuel rd port log = some (log', ops) ∧
      ProgramsBaud sourceClock log' ops) ↔
    sourceClock.toNat / 4 % (16 * 115200) + 32 < 16 * 115200 := by
  obtain ⟨before, heq⟩ := debugInit_eq port hfuel hpll
  rw [← fracval_le_iff]
  constructor
  · rintro ⟨log', ops', heq', brdr, fracval, -, hfracval, -, -, hle, -⟩
    obtain ⟨rfl, -⟩ := Prod.mk.inj (Option.some.inj (heq.symm.trans heq'))
    obtain rfl := Option.some.inj (lastWrite_fracval.symm.trans hfracval)
    rwa [toNat_fractionalValue] at hle
  · intro hle
    refine ⟨_, _, heq, _, _, lastWrite_brdr, lastWrite_fracval, exact_ops hclock, ?_, ?_, ?_⟩
    · have := toNat_integerValue hclock
      rw [BitVec.toInt_eq_toNat_of_lt (by omega)]
      exact Int.natCast_nonneg _
    · rwa [toNat_fractionalValue]
    · rw [toNat_fractionalValue, toNat_integerValue hclock]
      exact divisor_close hclock

/-- PLL 2 as given, all other registers zero. -/
def readingsOf (pll : PllRegs) : Readings
  | (.pllSetReg 2, _) => pll.regvalue
  | (.pllSetRegSscg 2, _) => pll.regvalue1
  | _ => 0

/-- PLL 2 at 614 MHz, as `clockinit.c` sets it. -/
def pllAt614 : PllRegs := ⟨0x00086601, 0x66660002⟩

def opsOf (pll : PllRegs) : List ArithOp :=
  fractionOps 2 pll ++ [.mul pll.nM oscKhz, .div (pll.nM * oscKhz) pll.nP,
    .mul (whole pll) 1000, .add (whole pll * 1000) (temp 2 pll)]

theorem pll2_pllAt614 : getPllFreq .aarch64 33 oscKhz 2 (pllRegs (readingsOf pllAt614) 2 []) =
    some (614394000, opsOf pllAt614) := rfl

theorem pll2_pllAt420 : getPllFreq .aarch64 33 oscKhz 2 (pllRegs (readingsOf pllAt420) 2 []) =
    some (420249500, opsOf pllAt420) := rfl

theorem debugInit_baud_pllAt614 : ∃ log' ops,
    debugInit .aarch64 33 (readingsOf pllAt614) 0 [] = some (log', ops) ∧
      ProgramsBaud 614394000 log' ops :=
  (debugInit_baud_iff le_rfl pll2_pllAt614 (by decide)).2 (by decide)

/-- At 420249500 Hz the remainder is 25 below the baud step, and `FRACVAL` is 16. -/
theorem not_debugInit_baud : ¬∀ (rd : Readings) (port : Fin 5) (log : History) (sourceClock : U32)
    (ops₀ : List ArithOp),
    getPllFreq .aarch64 33 oscKhz 2 (pllRegs rd 2 log) = some (sourceClock, ops₀) →
    16 * 115200 ≤ sourceClock.toNat / 4 →
    ∃ log' ops, debugInit .aarch64 33 rd port log = some (log', ops) ∧
      ProgramsBaud sourceClock log' ops := by
  intro h
  obtain ⟨log', ops', heq', brdr, fracval, -, hfracval, -, -, hle, -⟩ :=
    h _ 0 _ _ _ pll2_pllAt420 (by decide)
  obtain ⟨before, heq⟩ := debugInit_eq 0 le_rfl pll2_pllAt420
  obtain ⟨rfl, -⟩ := Prod.mk.inj (Option.some.inj (heq.symm.trans heq'))
  obtain rfl := Option.some.inj (lastWrite_fracval.symm.trans hfracval)
  exact absurd hle (by decide)

end Run

end Gec6818Bl1.Clock.Uart
