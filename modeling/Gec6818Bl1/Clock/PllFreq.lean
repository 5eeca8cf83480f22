import Mathlib.Algebra.Order.Floor.Semifield
import Mathlib.Data.Nat.Cast.Order.Field
import Mathlib.Data.Rat.Floor
import Mathlib.Tactic.FieldSimp
import Mathlib.Tactic.Linarith
import Mathlib.Tactic.Positivity
import Mathlib.Tactic.Ring
import Gec6818Bl1.Boot.Division
import Gec6818Bl1.Lib.ExactArith

/-!
# The frequency of a PLL

`NX_CLKPWR_GetPLLFreq` of `clockinit.c`: `M`, `P` and `S` of a PLL, and for two of them the fraction
`K`, come to a frequency in whole steps of less than a kilohertz.

Five divisions and shifts are rounded down on the way. Division by `P` and the shift by `S` are one
division by `P * 2 ^ S`, so that both terms are a quotient of natural numbers
(`toNat_whole`, `toNat_fraction`), and a quotient is less than one below the exact one
(`lt_cast_div`). The term of `M` is in kHz, so that its error counts a thousand times; the fraction
rounds once more before it is multiplied by the oscillator.

**Headline** (`getPllFreq_bounds`): if the exact frequency is below `2 ^ 32` Hz, then nothing wraps,
and the result is below it by less than `1000 + 1 + oscKhz / (P * 2 ^ S)` Hz.
-/

namespace Gec6818Bl1.Clock

abbrev U32 := BitVec 32

/-! ## The registers -/

/-- `OSC_KHZ`. -/
def oscKhz : U32 := 24000

def pllP : ℕ := 18
def pllM : ℕ := 8
def pllS : ℕ := 0
def pllK : ℕ := 16

/-- `PLLSETREG` and `PLLSETREG_SSCG` of a PLL. -/
structure PllRegs where
  regvalue : U32
  regvalue1 : U32

namespace PllRegs

def nP (r : PllRegs) : U32 := (r.regvalue >>> pllP) &&& 0x3F
def nM (r : PllRegs) : U32 := (r.regvalue >>> pllM) &&& 0x3FF
def nS (r : PllRegs) : U32 := (r.regvalue >>> pllS) &&& 0xFF
def nK (r : PllRegs) : U32 := (r.regvalue1 >>> pllK) &&& 0xFFFF

end PllRegs

/-! ## The computation -/

section Compute

variable (mode : OpMode) (fuel : ℕ)

/-- What the fraction adds, in Hz. -/
def pllFraction (oscKhz : U32) (r : PllRegs) : Option (U32 × List ArithOp) := do
  let (scaled, ops) := (ExactArith.Op.mul r.nK 1000).perform []
  let (q, ops) ← quotient mode fuel scaled 65536 ops
  let (product, ops) := (ExactArith.Op.mul q oscKhz).perform ops
  let (q, ops) ← quotient mode fuel product r.nP ops
  return (q >>> r.nS.toNat, ops)

/-- `NX_CLKPWR_GetPLLFreq`, and its arithmetic. -/
def getPllFreq (oscKhz pllNumber : U32) (r : PllRegs) : Option (U32 × List ArithOp) := do
  let (temp, ops) ←
    if 1 < pllNumber ∧ r.nK ≠ 0 then pllFraction mode fuel oscKhz r else some (0, [])
  let (product, ops) := (ExactArith.Op.mul r.nM oscKhz).perform ops
  let (q, ops) ← quotient mode fuel product r.nP ops
  let (khz, ops) := (ExactArith.Op.mul (q >>> r.nS.toNat) 1000).perform ops
  return (ExactArith.Op.add khz temp).perform ops

end Compute

/-! ## The two terms -/

open ExactArith (AllExact allExact_nil allExact_cons allExact_append)

section Terms

variable {mode : OpMode} {fuel : ℕ} {pllNumber : U32} {r : PllRegs}

/-- The term of `K`, in Hz. -/
def fraction (r : PllRegs) : U32 := (r.nK * 1000 / 65536 * oscKhz / r.nP) >>> r.nS.toNat

/-- The term of `M`, in kHz. -/
def whole (r : PllRegs) : U32 := (r.nM * oscKhz / r.nP) >>> r.nS.toNat

/-- `K` counts only for PLL 2 and 3. -/
def temp (pllNumber : U32) (r : PllRegs) : U32 :=
  if 1 < pllNumber ∧ r.nK ≠ 0 then fraction r else 0

def fractionOps (pllNumber : U32) (r : PllRegs) : List ArithOp :=
  if 1 < pllNumber ∧ r.nK ≠ 0 then
    [.mul r.nK 1000, .div (r.nK * 1000) 65536, .mul (r.nK * 1000 / 65536) oscKhz,
      .div (r.nK * 1000 / 65536 * oscKhz) r.nP]
  else []

theorem getPllFreq_eq (hP : r.nP ≠ 0) (hfuel : 33 ≤ fuel) :
    getPllFreq mode fuel oscKhz pllNumber r =
      some (whole r * 1000 + temp pllNumber r, fractionOps pllNumber r ++
        [.mul r.nM oscKhz, .div (r.nM * oscKhz) r.nP, .mul (whole r) 1000,
          .add (whole r * 1000) (temp pllNumber r)]) := by
  simp only [getPllFreq, pllFraction, ExactArith.Op.perform, ExactArith.Op.eval,
    quotient_eq mode (show (65536 : U32) ≠ 0 by decide) hfuel, quotient_eq mode hP hfuel, temp,
    fractionOps]
  split_ifs
  · rfl
  · rfl

end Terms

/-! ## The terms as quotients -/

section Quotients

variable {r : PllRegs} {a p s : ℕ}

theorem nM_lt : r.nM.toNat < 1024 := by
  simp only [PllRegs.nM, BitVec.toNat_and]
  exact lt_of_le_of_lt Nat.and_le_right (by decide)

theorem nK_lt : r.nK.toNat < 65536 := by
  simp only [PllRegs.nK, BitVec.toNat_and]
  exact lt_of_le_of_lt Nat.and_le_right (by decide)

/-- The step of the fraction: `K * 1000 / 65536`. -/
def millis (r : PllRegs) : ℕ := r.nK.toNat * 1000 / 65536

theorem millis_lt : millis r < 1000 := by
  have := nK_lt (r := r)
  unfold millis
  omega

/-- What both terms are divided by. -/
def divider (r : PllRegs) : ℕ := r.nP.toNat * 2 ^ r.nS.toNat

theorem exact_scaled : (ExactArith.Op.mul r.nK 1000).Exact := by
  have := nK_lt (r := r)
  change r.nK.toNat * 1000 < 2 ^ 32
  omega

theorem toNat_scaled : (r.nK * 1000 / 65536).toNat = millis r := by
  rw [BitVec.toNat_udiv, BitVec.toNat_mul_of_lt exact_scaled]
  rfl

theorem exact_product : (ExactArith.Op.mul (r.nK * 1000 / 65536) oscKhz).Exact := by
  have := millis_lt (r := r)
  change (r.nK * 1000 / 65536).toNat * 24000 < 2 ^ 32
  rw [toNat_scaled]
  omega

theorem exact_whole : (ExactArith.Op.mul r.nM oscKhz).Exact := by
  have := nM_lt (r := r)
  change r.nM.toNat * 24000 < 2 ^ 32
  omega

theorem toNat_whole : (whole r).toNat = r.nM.toNat * 24000 / divider r := by
  rw [whole, BitVec.toNat_ushiftRight, BitVec.toNat_udiv, BitVec.toNat_mul_of_lt exact_whole,
    Nat.shiftRight_eq_div_pow, Nat.div_div_eq_div_mul]
  rfl

theorem toNat_fraction : (fraction r).toNat = millis r * 24000 / divider r := by
  rw [fraction, BitVec.toNat_ushiftRight, BitVec.toNat_udiv, BitVec.toNat_mul_of_lt exact_product,
    toNat_scaled, Nat.shiftRight_eq_div_pow, Nat.div_div_eq_div_mul]
  rfl

/-- A quotient that is rounded down is less than one below the exact one. -/
theorem lt_cast_div (m n : ℕ) : (m : ℚ) / n < (m / n : ℕ) + 1 := by
  rw [← Nat.floor_div_eq_div (K := ℚ)]
  exact Nat.lt_floor_add_one _

end Quotients

/-! ## The exact frequency -/

section Exact

variable (pllNumber : U32) (r : PllRegs)

/-- The part of an oscillator step that `K` adds to `M`. -/
def exactFraction : ℚ :=
  if 1 < pllNumber then (r.nK.toNat : ℚ) / 65536 else 0

/-- `oscKhz * 1000 * (M + K / 65536) / (P * 2 ^ S)`, in Hz. -/
def exactFreq : ℚ :=
  oscKhz.toNat * 1000 * (r.nM.toNat + exactFraction pllNumber r) /
    (r.nP.toNat * 2 ^ r.nS.toNat)

/-- A divider, a shift that C defines, and a frequency that fits into the result. -/
structure Sensible : Prop where
  divides : 1 ≤ r.nP.toNat
  shifts : r.nS.toNat < 32
  fits : exactFreq pllNumber r < 2 ^ 32

/-- What the code takes for `exactFraction * 1000`. -/
def fractionSteps : ℕ :=
  if 1 < pllNumber then millis r else 0

theorem fractionSteps_le : (fractionSteps pllNumber r : ℚ) ≤ exactFraction pllNumber r * 1000 := by
  unfold fractionSteps exactFraction
  split_ifs
  · have := Nat.cast_div_le (α := ℚ) (m := r.nK.toNat * 1000) (n := 65536)
    push_cast at this
    rw [millis]
    linarith
  · norm_num

theorem lt_fractionSteps :
    exactFraction pllNumber r * 1000 < (fractionSteps pllNumber r : ℚ) + 1 := by
  unfold fractionSteps exactFraction
  split_ifs
  · have := lt_cast_div (r.nK.toNat * 1000) 65536
    push_cast at this
    rw [millis]
    linarith
  · norm_num

variable {pllNumber r}

theorem toNat_temp :
    (temp pllNumber r).toNat = fractionSteps pllNumber r * 24000 / divider r := by
  unfold temp fractionSteps
  by_cases hpll : 1 < pllNumber
  · by_cases hK : r.nK = 0
    · simp [hK, millis]
    · rw [if_pos ⟨hpll, hK⟩, if_pos hpll, toNat_fraction]
  · rw [if_neg fun h => hpll h.1, if_neg hpll, Nat.zero_mul, Nat.zero_div]
    rfl

/-- The exact frequency, the two terms apart. -/
theorem exactFreq_eq : exactFreq pllNumber r =
    1000 * ((r.nM.toNat * 24000 : ℕ) / divider r) +
      exactFraction pllNumber r * 1000 * (24000 / divider r) := by
  simp only [exactFreq, divider, oscKhz]
  push_cast
  ring

theorem divider_pos (hP : 1 ≤ r.nP.toNat) : 0 < (divider r : ℚ) :=
  Nat.cast_pos.2 (Nat.mul_pos hP (by positivity))

/-- The result as a natural number: never above the exact frequency. -/
theorem terms_le :
    ((whole r).toNat * 1000 + (temp pllNumber r).toNat : ℕ) ≤ exactFreq pllNumber r := by
  have step : 0 ≤ (24000 / divider r : ℚ) := by positivity
  have wholeLe : ((whole r).toNat : ℚ) ≤ (r.nM.toNat * 24000 : ℕ) / divider r := by
    rw [toNat_whole]
    exact Nat.cast_div_le
  have tempLe : ((temp pllNumber r).toNat : ℚ) ≤
      fractionSteps pllNumber r * (24000 / divider r) := by
    rw [toNat_temp, ← mul_div_assoc]
    exact_mod_cast Nat.cast_div_le (α := ℚ)
  have := mul_le_mul_of_nonneg_right (fractionSteps_le pllNumber r) step
  rw [exactFreq_eq]
  push_cast at wholeLe ⊢
  linarith

theorem lt_terms (pllNumber : U32) (hP : 1 ≤ r.nP.toNat) :
    exactFreq pllNumber r - ((whole r).toNat * 1000 + (temp pllNumber r).toNat : ℕ) <
      1000 + 1 + 24000 / divider r := by
  have step : 0 < (24000 / divider r : ℚ) := div_pos (by norm_num) (divider_pos hP)
  have ltWhole : ((r.nM.toNat * 24000 : ℕ) / divider r : ℚ) < (whole r).toNat + 1 := by
    rw [toNat_whole]
    exact lt_cast_div ..
  have ltTemp : fractionSteps pllNumber r * (24000 / divider r : ℚ) <
      (temp pllNumber r).toNat + 1 := by
    rw [toNat_temp, ← mul_div_assoc]
    exact_mod_cast lt_cast_div (fractionSteps pllNumber r * 24000) (divider r)
  have := mul_lt_mul_of_pos_right (lt_fractionSteps pllNumber r) step
  rw [exactFreq_eq]
  push_cast at ltWhole ⊢
  linarith

end Exact

/-! ## No wrap, and the bounds -/

section Bounds

variable {pllNumber : U32} {r : PllRegs}

theorem exact_fractionOps (hP : r.nP ≠ 0) : AllExact (fractionOps pllNumber r) := by
  unfold fractionOps
  split_ifs
  · simp only [allExact_cons]
    exact ⟨exact_scaled, show (65536 : U32) ≠ 0 by decide, exact_product, hP, allExact_nil⟩
  · exact allExact_nil

/-- The sum of the terms fits, and so does the multiple of the whole kilohertz. -/
theorem terms_lt (h : Sensible pllNumber r) :
    (whole r).toNat * 1000 + (temp pllNumber r).toNat < 2 ^ 32 := by
  have := terms_le.trans_lt h.fits
  exact_mod_cast this

/-- **The frequency of a PLL**: no operation wraps, and the result is below the exact frequency by
less than a kilohertz, a hertz and a step of the oscillator. -/
theorem getPllFreq_bounds {mode : OpMode} {fuel : ℕ} (hfuel : 33 ≤ fuel)
    (h : Sensible pllNumber r) : ∃ f ops,
      getPllFreq mode fuel oscKhz pllNumber r = some (f, ops) ∧ AllExact ops ∧
      (f.toNat : ℚ) ≤ exactFreq pllNumber r ∧
      exactFreq pllNumber r - f.toNat <
        1000 + 1 + oscKhz.toNat / (r.nP.toNat * 2 ^ r.nS.toNat) := by
  have hP : r.nP ≠ 0 := by
    intro hz
    simpa [hz] using h.divides
  have fits := terms_lt h
  have mul : (ExactArith.Op.mul (whole r) 1000).Exact := by
    rw [ExactArith.Op.Exact]
    exact (Nat.le_add_right _ _).trans_lt fits
  have add : (ExactArith.Op.add (whole r * 1000) (temp pllNumber r)).Exact := by
    rw [ExactArith.Op.Exact, BitVec.toNat_mul_of_lt mul]
    exact fits
  have value : (whole r * 1000 + temp pllNumber r).toNat =
      (whole r).toNat * 1000 + (temp pllNumber r).toNat := by
    rw [BitVec.toNat_add_of_lt add, BitVec.toNat_mul_of_lt mul]
    rfl
  refine ⟨_, _, getPllFreq_eq hP hfuel, ?_, ?_, ?_⟩
  · refine allExact_append.2 ⟨exact_fractionOps hP, ?_⟩
    simp only [allExact_cons]
    exact ⟨exact_whole, hP, mul, add, allExact_nil⟩
  · rw [value]
    exact terms_le
  · rw [value]
    have := lt_terms pllNumber h.divides
    simpa [divider, oscKhz] using this

/-- `P` 6, `M` 840, `S` 3 and a fraction: a little above 420 MHz. -/
def pllAt420 : PllRegs := ⟨0x001B4803, 0x7FE00000⟩

theorem exactFreq_pllAt420 : exactFreq 2 pllAt420 = 26895984375 / 64 := by
  have hM : pllAt420.nM = 840 := by decide
  have hP : pllAt420.nP = 6 := by decide
  have hS : pllAt420.nS = 3 := by decide
  have hK : pllAt420.nK = 32736 := by decide
  rw [exactFreq, exactFraction, if_pos (by decide), hM, hP, hS, hK]
  simp only [oscKhz, BitVec.reduceToNat]
  norm_num

theorem sensible_pllAt420 : Sensible 2 pllAt420 where
  divides := by decide
  shifts := by decide
  fits := by
    rw [exactFreq_pllAt420]
    norm_num

theorem getPllFreq_bounds_pllAt420 : ∃ f ops,
    getPllFreq .aarch64 33 oscKhz 2 pllAt420 = some (f, ops) ∧ AllExact ops ∧
      (f.toNat : ℚ) ≤ exactFreq 2 pllAt420 ∧
      exactFreq 2 pllAt420 - f.toNat <
        1000 + 1 + oscKhz.toNat / (pllAt420.nP.toNat * 2 ^ pllAt420.nS.toNat) :=
  getPllFreq_bounds le_rfl sensible_pllAt420

end Bounds

end Gec6818Bl1.Clock
