import Gec6818Bl1.I2c.OnEmulator
import Gec6818Bl1.I2c.Init

/-!
# I2C sessions on the emulator

`I2C_Init` and any sequence of `I2C_Read` and `I2C_Write`, against the `AXP228` of
`s5p6818_emu.py`.

**End to end.** Every transfer gives the registers it reads and writes those it should, whatever
was transferred before (`i2c_session`). The stop goes with the last byte, so a transfer of at least
a byte frees the bus, and one of no bytes keeps it.
-/

namespace Gec6818Bl1.I2c

open ByteMem Polling OpenDrain Emulator

/-! ## Transfers -/

/-- `I2C_Write` and `I2C_Read`, with the address of the slave. -/
inductive Transfer where
  | write (registerAddress : Byte) (data : List Byte)
  | read (registerAddress : Byte) (length : ℕ)

namespace Transfer

def slaveAddress : Byte := 0x34

/-- The result, and the bytes stored through `pData`. -/
def run (scl sda : ℕ) (m : Master I2cGpio) : Transfer → Bool × List Byte × Master I2cGpio
  | write r data =>
    let (result, m) := i2cWrite I2cGpio.bus scl sda slaveAddress r data m
    (result, [], m)
  | read r length => i2cRead I2cGpio.bus scl sda slaveAddress r length m

/-- How many bytes it moves. -/
def count : Transfer → ℕ
  | write _ data => data.length
  | read _ length => length

/-- The bytes it should give. -/
def data (regs : Byte → Byte) : Transfer → List Byte
  | write _ _ => []
  | read r length => readFrom regs r length

/-- What it should make of the registers. -/
def regs (regs : Byte → Byte) : Transfer → Byte → Byte
  | write r data => storeFrom regs r data
  | read _ _ => regs

/-- The conditions it should put on the bus. -/
def conditions : Transfer → List Condition
  | write _ _ => [.start, .stop]
  | read _ _ => [.start, .start, .stop]

end Transfer

/-- Both lines are high, and the slave is idle. -/
structure Released (scl sda : ℕ) (m : Master I2cGpio) : Prop where
  scl_high : m.dev.lines.getLsbD scl = true
  sda_high : m.dev.lines.getLsbD sda = true
  idle : m.dev.slave.state = .idle

/-- The bus is free, and the driver knows it. -/
structure AtRest (p : Pins) (m : Master I2cGpio) : Prop where
  at_eq : At p false ⟨true, true, m.dev.slave, m.dev.seen⟩ m
  state_eq : m.dev.slave.state = .idle
  low_eq : m.dev.slave.low = false

section Transfers

variable {p : Pins} {m : Master I2cGpio}

theorem AtRest.of_at {s : Axp228} {seen : List Condition} (h : At p false ⟨true, true, s, seen⟩ m)
    (hidle : s.state = .idle) (hlow : s.low = false) : AtRest p m := by
  have hs : m.dev.slave = s := h.wired.slave_eq
  have hseen : m.dev.seen = seen := h.wired.seen_eq
  exact ⟨by rw [hs, hseen]; exact h, by rw [hs]; exact hidle, by rw [hs]; exact hlow⟩

theorem AtRest.released (h : AtRest p m) : Released p.scl p.sda m where
  scl_high := h.at_eq.wired.driven.lines_scl
  sda_high := by rw [h.at_eq.wired.driven.lines_sda, h.low_eq]; rfl
  idle := h.state_eq

/-- What both transfers begin with: the slave's address and the register's. -/
theorem AtRest.select (h : AtRest p m) (r : Byte) :
    ∃ m₁ m₂ s, writeAcked I2cGpio.bus p.scl p.sda true false
          (Transfer.slaveAddress <<< 1 ||| 0) m = (true, m₁) ∧
      writeAcked I2cGpio.bus p.scl p.sda false false r m₁ = (true, m₂) ∧
      At p true ⟨false, true, s, m.dev.seen ++ [.start]⟩ m₂ ∧ Ready r s ∧
      s.regs = m.dev.slave.regs := by
  obtain ⟨m₀, hm₀, h₀⟩ := h.at_eq.i2cStart h.low_eq
  have hs := listening_start m.dev.slave
  obtain ⟨hack₁, hs₁, hregs₁⟩ := take_writeAddress hs rfl
  obtain ⟨m₁, hm₁, h₁⟩ := h₀.writeAcked true hm₀ hs hack₁
  obtain ⟨hack₂, hs₂, hregs₂⟩ := take_register hs₁ r
  obtain ⟨m₂, hm₂, h₂⟩ := h₁.writeAcked false rfl hs₁.toListening hack₂
  exact ⟨m₁, m₂, _, hm₁, hm₂, h₂, hs₂, hregs₂.trans hregs₁⟩

/-- A read turns the bus round with a second start. -/
theorem AtRest.selectRead (h : AtRest p m) (r : Byte) :
    ∃ m₁ m₂ m₃ s, writeAcked I2cGpio.bus p.scl p.sda true false
          (Transfer.slaveAddress <<< 1 ||| 0) m = (true, m₁) ∧
      writeAcked I2cGpio.bus p.scl p.sda false false r m₁ = (true, m₂) ∧
      writeAcked I2cGpio.bus p.scl p.sda true false
          (Transfer.slaveAddress <<< 1 ||| 1) m₂ = (true, m₃) ∧
      At p true ⟨false, true, s, m.dev.seen ++ [.start] ++ [.start]⟩ m₃ ∧ Sending s ∧
      s.regs = m.dev.slave.regs ∧ s.reg = r := by
  obtain ⟨m₁, m₂, s, hm₁, hm₂, h₂, hs, hregs⟩ := h.select r
  obtain ⟨m₀, hm₀, h₀⟩ := h₂.i2cRestart hs.low_eq
  obtain ⟨hack₃, hs₃, hregs₃, hreg₃⟩ := take_readAddress (listening_start (s.rise true)) rfl
  obtain ⟨m₃, hm₃, h₃⟩ := h₀.writeAcked true hm₀ (listening_start _) hack₃
  refine ⟨m₁, m₂, m₃, _, hm₁, hm₂, hm₃, h₃, hs₃, ?_, ?_⟩
  · exact hregs₃.trans ((Axp228.rise_regs true s).trans hregs)
  · exact hreg₃.trans ((Axp228.rise_reg true s).trans hs.reg_eq)

/-- **One transfer** of at least a byte does what it should, and frees the bus. -/
theorem AtRest.transfer (h : AtRest p m) {t : Transfer} (ht : 0 < t.count) :
    ∃ m', t.run p.scl p.sda m = (true, t.data m.dev.slave.regs, m') ∧ AtRest p m' ∧
      m'.dev.slave.regs = t.regs m.dev.slave.regs ∧
      m'.dev.seen = m.dev.seen ++ t.conditions := by
  cases t with
  | write r data =>
    obtain ⟨m₁, m₂, s, hm₁, hm₂, h₂, hs, hregs⟩ := h.select r
    cases data with
    | nil => cases ht
    | cons d data =>
      obtain ⟨m', s', hm', h', hidle, hlow, hregs'⟩ := h₂.writeLoop hs d data
      refine ⟨m', ?_, .of_at h' hidle hlow, ?_, ?_⟩
      · rw [Transfer.run, i2cWrite, hm₁]
        simp only [hm₂, hm']
        rfl
      · rw [h'.wired.slave_eq, hregs', hregs]
        rfl
      · rw [h'.wired.seen_eq, List.append_assoc]
        rfl
  | read r length =>
    obtain ⟨m₁, m₂, m₃, s, hm₁, hm₂, hm₃, h₃, hs, hregs, hreg⟩ := h.selectRead r
    obtain ⟨left, rfl⟩ : ∃ left, length = left + 1 := ⟨length - 1, (Nat.succ_pred_eq_of_pos ht).symm⟩
    obtain ⟨m', s', hm', h', hidle, hlow, hregs'⟩ := h₃.readLoop hs left
    refine ⟨m', ?_, .of_at h' hidle hlow, ?_, ?_⟩
    · rw [Transfer.run, i2cRead, hm₁]
      simp only [hm₂, hm₃, hm', hregs, hreg]
      rfl
    · rw [h'.wired.slave_eq, hregs', hregs]
      rfl
    · rw [h'.wired.seen_eq, List.append_assoc, List.append_assoc]
      rfl

/-- A transfer of no bytes selects the slave, and keeps the clock down. -/
theorem AtRest.transfer_empty (h : AtRest p m) {t : Transfer} (ht : t.count = 0) :
    ∃ m', t.run p.scl p.sda m = (true, t.data m.dev.slave.regs, m') ∧
      m'.dev.slave.regs = t.regs m.dev.slave.regs ∧ m'.dev.lines.getLsbD p.scl = false := by
  cases t with
  | write r data =>
    obtain ⟨m₁, m₂, s, hm₁, hm₂, h₂, hs, hregs⟩ := h.select r
    obtain rfl : data = [] := List.eq_nil_of_length_eq_zero ht
    refine ⟨m₂, ?_, ?_, h₂.wired.driven.lines_scl⟩
    · rw [Transfer.run, i2cWrite, hm₁]
      simp only [hm₂]
      rfl
    · rw [h₂.wired.slave_eq, hregs]
      rfl
  | read r length =>
    obtain ⟨m₁, m₂, m₃, s, hm₁, hm₂, hm₃, h₃, hs, hregs, hreg⟩ := h.selectRead r
    obtain rfl : length = 0 := ht
    refine ⟨m₃, ?_, ?_, h₃.wired.driven.lines_scl⟩
    · rw [Transfer.run, i2cRead, hm₁]
      simp only [hm₂, hm₃]
      rfl
    · rw [h₃.wired.slave_eq, hregs]
      rfl

/-- Transfers one after the other. -/
def runAll (scl sda : ℕ) (m : Master I2cGpio) (ts : List Transfer) : Master I2cGpio :=
  ts.foldl (fun m t => (t.run scl sda m).2.2) m

/-- What they should make of the registers. -/
def regsAfter (regs : Byte → Byte) (ts : List Transfer) : Byte → Byte :=
  ts.foldl (fun regs t => t.regs regs) regs

theorem AtRest.runAll (h : AtRest p m) {ts : List Transfer} (hts : ∀ t ∈ ts, 0 < t.count) :
    AtRest p (runAll p.scl p.sda m ts) ∧
      (I2c.runAll p.scl p.sda m ts).dev.slave.regs = regsAfter m.dev.slave.regs ts ∧
      (I2c.runAll p.scl p.sda m ts).dev.seen = m.dev.seen ++ ts.flatMap Transfer.conditions := by
  induction ts generalizing m with
  | nil => exact ⟨h, rfl, (List.append_nil _).symm⟩
  | cons t ts ih =>
    obtain ⟨m', hm', h', hregs, hseen⟩ := h.transfer (hts t List.mem_cons_self)
    obtain ⟨hrest, hregs', hseen'⟩ := ih h' fun t ht => hts t (List.mem_cons_of_mem _ ht)
    have hrun : I2c.runAll p.scl p.sda m (t :: ts) = I2c.runAll p.scl p.sda m' ts := by
      rw [I2c.runAll, List.foldl_cons, hm']
      rfl
    rw [hrun]
    refine ⟨hrest, ?_, ?_⟩
    · rw [hregs', hregs]
      rfl
    · rw [hseen', hseen, List.flatMap_cons, List.append_assoc]

end Transfers

/-! ## Sessions on the board -/

/-- The board's bank, with an idle slave. -/
structure IdleBus (g : I2cGpio) : Prop where
  scl_eq : g.scl = 15
  sda_eq : g.sda = 16
  alt_eq : g.alt = 1
  state_eq : g.slave.state = .idle
  low_eq : g.slave.low = false

/-- `I2C_Init`, as `pmic.c` calls it. -/
def init (m : Master I2cGpio) : Master I2cGpio := i2cInit I2cGpio.bus 15 16 1 1 m

theorem init_atRest {m : Master I2cGpio} (h : IdleBus m.dev) :
    AtRest gecPins (init m) ∧ (init m).dev.slave.regs = m.dev.slave.regs := by
  obtain ⟨s, seen, hat, hidle, hlow, hregs⟩ :=
    i2cInit_at h.scl_eq h.sda_eq h.alt_eq h.state_eq h.low_eq
  exact ⟨.of_at hat hidle hlow, by rw [← hregs]; exact congrArg Axp228.regs hat.wired.slave_eq⟩

/-- **A session.** After `I2C_Init` and any transfers of at least a byte each, a transfer returns
`CTRUE` with the bytes and the registers it should, and it ends with the bus free and no conditions
but its own iff it is of at least a byte. -/
theorem i2c_session {m : Master I2cGpio} (h : IdleBus m.dev) {ts : List Transfer}
    (hts : ∀ t ∈ ts, 0 < t.count) (t : Transfer) :
    let before := runAll 15 16 (init m) ts
    let regs := regsAfter m.dev.slave.regs ts
    ∃ after, t.run 15 16 before = (true, t.data regs, after) ∧
      after.dev.slave.regs = t.regs regs ∧
      (Released 15 16 after ∧ after.dev.seen = before.dev.seen ++ t.conditions ↔ 0 < t.count) := by
  intro before regs
  obtain ⟨hinit, hregs₀⟩ := init_atRest h
  obtain ⟨hrest, hregs, -⟩ := hinit.runAll hts
  rw [hregs₀] at hregs
  rcases Nat.eq_zero_or_pos t.count with hempty | hpos
  · obtain ⟨after, hrun, hregs', hscl⟩ := hrest.transfer_empty hempty
    rw [hregs] at hrun hregs'
    refine ⟨after, hrun, hregs', ?_⟩
    constructor
    · rintro ⟨hfree, -⟩
      have hhigh : after.dev.lines.getLsbD gecPins.scl = true := hfree.scl_high
      rw [hscl] at hhigh
      exact absurd hhigh Bool.false_ne_true
    · intro hpos
      exact absurd hempty hpos.ne'
  · obtain ⟨after, hrun, hrest', hregs', hseen⟩ := hrest.transfer hpos
    rw [hregs] at hrun hregs'
    exact ⟨after, hrun, hregs', fun _ => hpos, fun _ => ⟨hrest'.released, hseen⟩⟩

/-- A board whose slave has only zeros in its registers. -/
def zeroBus : I2cGpio where
  scl := 15
  sda := 16
  alt := 1
  slave := { regs := fun _ => 0 }
  regs := fun _ => 0
  prev := (true, true)
  seen := []

theorem zeroBus_idle : IdleBus zeroBus := ⟨rfl, rfl, rfl, rfl, rfl⟩

/-- Two bytes written and read back. -/
theorem zeroBus_session :
    ∃ after, (Transfer.read 0x12 2).run 15 16
        (runAll 15 16 (init ⟨false, zeroBus⟩) [.write 0x12 [0xA5, 0x5A]]) =
          (true, [0xA5, 0x5A], after) ∧
      after.dev.slave.regs 0x13 = 0x5A ∧ Released 15 16 after := by
  have hts : ∀ t ∈ [Transfer.write 0x12 [0xA5, 0x5A]], 0 < t.count := by
    intro t ht
    rw [List.mem_singleton.mp ht]
    decide
  obtain ⟨after, hrun, hregs, hfree⟩ :=
    @i2c_session ⟨false, zeroBus⟩ zeroBus_idle _ hts (.read 0x12 2)
  refine ⟨after, hrun.trans ?_, ?_, (hfree.mpr (by decide)).1⟩
  · exact congrArg (fun data => (true, data, after)) (by decide)
  · rw [hregs]
    decide

/-- A read of no bytes returns `CTRUE` and leaves the bus held. -/
theorem emptyRead_not_released :
    ∃ after, (Transfer.read 0x12 0).run 15 16 (init ⟨false, zeroBus⟩) = (true, [], after) ∧
      ¬ Released 15 16 after := by
  obtain ⟨hrest, -⟩ := @init_atRest ⟨false, zeroBus⟩ zeroBus_idle
  obtain ⟨after, hrun, -, hscl⟩ := hrest.transfer_empty (t := .read 0x12 0) rfl
  refine ⟨after, hrun, fun hfree => ?_⟩
  have hhigh : after.dev.lines.getLsbD gecPins.scl = true := hfree.scl_high
  rw [hscl] at hhigh
  exact Bool.false_ne_true hhigh

end Gec6818Bl1.I2c
