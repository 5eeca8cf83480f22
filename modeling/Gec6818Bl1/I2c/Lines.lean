import Gec6818Bl1.I2c.Driver
import Gec6818Bl1.Emulator.I2cGpio

/-!
# The I2C driver on the emulator's lines

The driver of `i2c_gpio.c` on the bank of `s5p6818_emu.py`. Each of its four line operations is one
change of a pair of open-drain lines (`At.sdaLow`, `At.sclLow`, `At.sdaRead`, `At.sclRead`), so what
it does is followed on the lines: a condition, a bit sent and a bit read.

The slave never stretches the clock, so no wait takes a second look.
-/

namespace Gec6818Bl1.I2c

open ByteMem Polling OpenDrain Emulator

/-- The bank is the lines `w`, and the global `started` is as given. -/
structure At (p : Pins) (started : Bool) (w : Wires Axp228) (m : Master I2cGpio) : Prop where
  wired : Wired p m.dev w
  started_eq : m.started = started

section Lines

variable {p : Pins} {started a b : Bool} {s : Axp228} {seen : List Condition}
variable {m : Master I2cGpio}

theorem setIO32_outenb (pin : ℕ) : setIO32 I2cGpio.bus Reg.gpioxOutenb (1#32 <<< pin) m =
    { m with dev := m.dev.write I2cGpio.outenb (m.dev.regs I2cGpio.outenb ||| 1#32 <<< pin) } :=
  rfl

theorem At.sdaLow (h : At p started ⟨a, b, s, seen⟩ m) :
    At p started (Wires.drive Axp228.device a false ⟨a, b, s, seen⟩)
      (sdaLow I2cGpio.bus p.sda m) := by
  rw [I2c.sdaLow, setIO32_outenb]
  refine ⟨h.wired.write_outenb ?_ ?_, h.started_eq⟩
  · rw [BitVec.getLsbD_or, h.wired.driven.outenb_scl, I2cGpio.getLsbD_bit _ _ p.scl_lt]
    simp [p.ne]
  · rw [BitVec.getLsbD_or, I2cGpio.getLsbD_bit _ _ p.sda_lt]
    simp

theorem At.sclLow (h : At p started ⟨a, b, s, seen⟩ m) :
    At p started (Wires.drive Axp228.device false b ⟨a, b, s, seen⟩)
      (sclLow I2cGpio.bus p.scl m) := by
  rw [I2c.sclLow, setIO32_outenb]
  refine ⟨h.wired.write_outenb ?_ ?_, h.started_eq⟩
  · rw [BitVec.getLsbD_or, I2cGpio.getLsbD_bit _ _ p.scl_lt]
    simp
  · rw [BitVec.getLsbD_or, h.wired.driven.outenb_sda, I2cGpio.getLsbD_bit _ _ p.sda_lt]
    simp [p.ne.symm]

/-- `SDA_READ` lets go of the data line and gives its level. -/
theorem At.sdaRead (h : At p started ⟨a, b, s, seen⟩ m) :
    ∃ m', sdaRead I2cGpio.bus p.sda m =
        ((Wires.drive Axp228.device a true ⟨a, b, s, seen⟩).line Axp228.device, m') ∧
      At p started (Wires.drive Axp228.device a true ⟨a, b, s, seen⟩) m' := by
  have hw : Wired p (m.dev.write I2cGpio.outenb
      (m.dev.regs I2cGpio.outenb &&& ~~~(1#32 <<< p.sda)))
      (Wires.drive Axp228.device a true ⟨a, b, s, seen⟩) := by
    refine h.wired.write_outenb ?_ ?_
    · rw [BitVec.getLsbD_and, BitVec.getLsbD_not, h.wired.driven.outenb_scl,
        I2cGpio.getLsbD_bit _ _ p.scl_lt]
      simp [p.ne, p.scl_lt]
    · rw [BitVec.getLsbD_and, BitVec.getLsbD_not, I2cGpio.getLsbD_bit _ _ p.sda_lt]
      simp
  refine ⟨_, Prod.ext ?_ rfl, hw, h.started_eq⟩
  refine hw.driven.lines_sda.trans ?_
  rw [hw.slave_eq]
  rfl

/-- `SCL_READ` lets go of the clock, which is then high: the slave does not stretch it. -/
theorem At.sclRead (h : At p started ⟨a, b, s, seen⟩ m) :
    ∃ m', sclRead I2cGpio.bus p.scl m = (true, m') ∧
      At p started (Wires.drive Axp228.device true b ⟨a, b, s, seen⟩) m' := by
  have hw : Wired p (m.dev.write I2cGpio.outenb
      (m.dev.regs I2cGpio.outenb &&& ~~~(1#32 <<< p.scl)))
      (Wires.drive Axp228.device true b ⟨a, b, s, seen⟩) := by
    refine h.wired.write_outenb ?_ ?_
    · rw [BitVec.getLsbD_and, BitVec.getLsbD_not, I2cGpio.getLsbD_bit _ _ p.scl_lt]
      simp
    · rw [BitVec.getLsbD_and, BitVec.getLsbD_not, h.wired.driven.outenb_sda,
        I2cGpio.getLsbD_bit _ _ p.sda_lt]
      simp [p.ne.symm, p.sda_lt]
  exact ⟨_, Prod.ext (hw.driven.lines_scl.trans (drive_levels _ _ _).1) rfl, hw, h.started_eq⟩

theorem waitHigh_of_high {read : Master I2cGpio → Bool × Master I2cGpio} {m' : Master I2cGpio}
    (h : read m = (true, m')) (timeout : ℕ) : waitHigh read timeout m = (true, m') := by
  unfold waitHigh
  rw [h]

/-! ### The four operations, as the driver uses them -/

/-- The data line is set while the clock is low. -/
theorem At.setup (h : At p started ⟨false, b, s, seen⟩ m) (bit : Bool) :
    At p started ⟨false, bit, s, seen⟩
      (if bit then (I2c.sdaRead I2cGpio.bus p.sda m).2 else I2c.sdaLow I2cGpio.bus p.sda m) := by
  cases bit with
  | false => simpa [Wires.drive_low] using h.sdaLow
  | true =>
    obtain ⟨m', hread, h'⟩ := h.sdaRead
    rw [Wires.drive_low] at h'
    simpa [hread] using h'

theorem At.raise (h : At p started ⟨false, b, s, seen⟩ m) :
    ∃ m', waitHigh (I2c.sclRead I2cGpio.bus p.scl) stretchingTimeout m = (true, m') ∧
      At p started ⟨true, b, s.rise (b && !s.low), seen⟩ m' := by
  obtain ⟨m', hread, h'⟩ := h.sclRead
  rw [Wires.drive_raise] at h'
  exact ⟨m', waitHigh_of_high hread _, h'⟩

/-- The clock is high: the data line is looked at and stays as it is. -/
theorem At.sample (h : At p started ⟨true, true, s, seen⟩ m) :
    ∃ m', I2c.sdaRead I2cGpio.bus p.sda m = (!s.low, m') ∧
      At p started ⟨true, true, s, seen⟩ m' := by
  obtain ⟨m', hread, h'⟩ := h.sdaRead
  rw [Wires.drive_same] at h' hread
  exact ⟨m', hread, h'⟩

theorem At.lower (h : At p started ⟨true, b, s, seen⟩ m) :
    At p started ⟨false, b, s.fall, seen⟩ (I2c.sclLow I2cGpio.bus p.scl m) := by
  simpa [Wires.drive_lower] using h.sclLow

/-! ## Conditions and bits -/

theorem At.i2cStart (h : At p false ⟨true, true, s, seen⟩ m) (hlow : s.low = false) :
    ∃ m', i2cStart I2cGpio.bus p.scl p.sda m = (true, m') ∧
      At p true ⟨false, false, s.start.fall, seen ++ [.start]⟩ m' := by
  obtain ⟨m₁, hread, h₁⟩ := h.sample
  have h₂ := h₁.sdaLow
  rw [Wires.drive_start hlow] at h₂
  refine ⟨{ I2c.sclLow I2cGpio.bus p.scl (I2c.sdaLow I2cGpio.bus p.sda m₁) with started := true },
    ?_, h₂.lower.wired, rfl⟩
  rw [I2c.i2cStart, h.started_eq, if_neg Bool.false_ne_true]
  simp only [hread, hlow]
  rfl

/-- A repeated start: the slave counts the rise of the clock as a bit, and drops it. -/
theorem At.i2cRestart (h : At p true ⟨false, b, s, seen⟩ m) (hlow : s.low = false) :
    ∃ m', I2c.i2cStart I2cGpio.bus p.scl p.sda m = (true, m') ∧
      At p true ⟨false, false, (s.rise true).start.fall, seen ++ [.start]⟩ m' := by
  have h₁ := h.setup true
  rw [if_pos rfl] at h₁
  obtain ⟨m₂, hwait, h₂⟩ := h₁.raise
  rw [hlow, Bool.not_false, Bool.and_true] at h₂
  have hrise : (s.rise true).low = false := (s.rise_low true).trans hlow
  obtain ⟨m₃, hread, h₃⟩ := h₂.sample
  have h₄ := h₃.sdaLow
  rw [Wires.drive_start hrise] at h₄
  refine ⟨{ I2c.sclLow I2cGpio.bus p.scl (I2c.sdaLow I2cGpio.bus p.sda m₃) with started := true },
    ?_, h₄.lower.wired, rfl⟩
  rw [I2c.i2cStart, h.started_eq, if_pos rfl, hwait]
  simp only [hread, hrise]
  rfl

theorem At.i2cStop (h : At p started ⟨false, b, s, seen⟩ m) (hlow : s.low = false) :
    ∃ m', I2c.i2cStop I2cGpio.bus p.scl p.sda m = (true, m') ∧
      At p false ⟨true, true, (s.rise false).stop, seen ++ [.stop]⟩ m' := by
  have h₁ := h.setup false
  rw [if_neg Bool.false_ne_true] at h₁
  obtain ⟨m₂, hwait, h₂⟩ := h₁.raise
  obtain ⟨m₃, hread₃, h₃⟩ := h₂.sdaRead
  rw [Bool.false_and, Wires.drive_stop ((s.rise_low false).trans hlow)] at h₃ hread₃
  obtain ⟨m₄, hread₄, h₄⟩ :=
    (show At p false _ { m₃ with started := false } from ⟨h₃.wired, rfl⟩).sample
  refine ⟨m₄, ?_, h₄⟩
  rw [I2c.i2cStop, hwait]
  simp only [hread₃]
  exact waitHigh_of_high hread₄ _

/-- A bit that the slave leaves alone reaches it. -/
theorem At.i2cWriteBit (h : At p started ⟨false, b, s, seen⟩ m) (bit : Bool)
    (hlow : s.low = false) :
    ∃ m', I2c.i2cWriteBit I2cGpio.bus p.scl p.sda bit m = (true, m') ∧
      At p started ⟨false, bit, (s.rise bit).fall, seen⟩ m' := by
  obtain ⟨m₂, hwait, h₂⟩ := (h.setup bit).raise
  rw [hlow, Bool.not_false, Bool.and_true] at h₂
  cases bit with
  | false =>
    refine ⟨_, ?_, h₂.lower⟩
    rw [I2c.i2cWriteBit, hwait]
    rfl
  | true =>
    obtain ⟨m₃, hread, h₃⟩ := h₂.sample
    refine ⟨_, ?_, h₃.lower⟩
    rw [I2c.i2cWriteBit, hwait]
    simp only [if_true, hread, Axp228.rise_low, hlow]
    rfl

/-- What is read is whether the slave holds the line. -/
theorem At.i2cReadBit (h : At p started ⟨false, b, s, seen⟩ m) :
    ∃ m', I2c.i2cReadBit I2cGpio.bus p.scl p.sda m = (some (!s.low), m') ∧
      At p started ⟨false, true, (s.rise (!s.low)).fall, seen⟩ m' := by
  have h₁ := h.setup true
  rw [if_pos rfl] at h₁
  obtain ⟨m₂, hwait, h₂⟩ := h₁.raise
  rw [Bool.true_and] at h₂
  obtain ⟨m₃, hread, h₃⟩ := h₂.sample
  refine ⟨_, ?_, h₃.lower⟩
  rw [I2c.i2cReadBit]
  simp only [hwait, hread, Axp228.rise_low]

end Lines

end Gec6818Bl1.I2c
