import Gec6818Bl1.Lib.OpenDrain
import Gec6818Bl1.Lib.Polling
import Gec6818Bl1.Lib.ByteMem

/-!
# The emulator's I2C slave

The classes `AXP228` and `I2CGPIO` of `s5p6818_emu.py`: a PMIC with 256 registers, on two pins of a
GPIO bank. A register that was never written reads as 0, so both dictionaries are functions. The
fields that `AXP228.__init__` leaves out are written before they are read.

`seen` is not in the source: it lists the calls of `slave.start` and `slave.stop`.

**The bank is a pair of open-drain lines** (`Wired`). While both pins are muxed to GPIO and their
outputs are low, whoever enables or disables an output drives its line (`Wired.write_outenb`).
-/

namespace Gec6818Bl1.Emulator

open ByteMem Polling OpenDrain

/-! ## The slave -/

inductive SlaveState where
  | idle
  | recv
  | send
  deriving DecidableEq, Repr

inductive SlavePhase where
  | data
  | ack
  deriving DecidableEq, Repr

structure Axp228 where
  regs : Byte → Byte
  state : SlaveState := .idle
  low : Bool := false
  phase : SlavePhase := .data
  bits : ℕ := 0
  byte : ℕ := 0
  first : Bool := false
  rw : Bool := false
  needReg : Bool := false
  reg : Byte := 0
  nack : Bool := false

namespace Axp228

def addr : ℕ := 0x34

def start (s : Axp228) : Axp228 :=
  { s with state := .recv, phase := .data, bits := 0, byte := 0, first := true, low := false }

def stop (s : Axp228) : Axp228 := { s with state := .idle, low := false }

def rise (sda : Bool) (s : Axp228) : Axp228 :=
  match s.state, s.phase with
  | .recv, .data => { s with byte := s.byte <<< 1 ||| sda.toNat, bits := s.bits + 1 }
  | .send, .ack => { s with nack := sda }
  | _, _ => s

def load (s : Axp228) : Axp228 :=
  let byte := (s.regs s.reg).toNat
  { s with byte, phase := .data, bits := 0, low := byte >>> 7 = 0 }

/-- A whole byte came: `ok`, and what the slave makes of it. -/
def received (s : Axp228) : Bool × Axp228 :=
  if s.first then
    (s.byte >>> 1 = addr, { s with rw := s.byte &&& 1 = 1, needReg := s.byte &&& 1 = 0 })
  else if s.needReg then (true, { s with reg := BitVec.ofNat 8 s.byte, needReg := false })
  else
    (true, { s with
      regs := Function.update s.regs s.reg (BitVec.ofNat 8 s.byte)
      reg := s.reg + 1 })

def fall (s : Axp228) : Axp228 :=
  match s.state, s.phase with
  | .recv, .data =>
    if s.bits = 8 then
      match s.received with
      | (true, s) => { s with phase := .ack, low := true }
      | (false, s) => s.stop
    else s
  | .recv, .ack =>
    let s := { s with low := false }
    let s := if s.first ∧ s.rw then { s with state := .send }.load
      else { s with phase := .data, bits := 0, byte := 0 }
    { s with first := false }
  | .send, .data =>
    let s := { s with bits := s.bits + 1 }
    if s.bits = 8 then { s with phase := .ack, low := false }
    else { s with low := s.byte >>> (7 - s.bits) &&& 1 = 0 }
  | .send, .ack => if s.nack then s.stop else { s with reg := s.reg + 1 }.load
  | .idle, _ => s

theorem rise_low (b : Bool) (s : Axp228) : (s.rise b).low = s.low := by
  unfold rise
  split <;> rfl

theorem rise_regs (b : Bool) (s : Axp228) : (s.rise b).regs = s.regs := by
  unfold rise
  split <;> rfl

theorem rise_reg (b : Bool) (s : Axp228) : (s.rise b).reg = s.reg := by
  unfold rise
  split <;> rfl

theorem rise_idle {s : Axp228} (hstate : s.state = .idle) (b : Bool) : s.rise b = s := by
  simp only [rise, hstate]

theorem fall_idle {s : Axp228} (hstate : s.state = .idle) : s.fall = s := by
  simp only [fall, hstate]

theorem rise_recv {s : Axp228} (hstate : s.state = .recv) (hphase : s.phase = .data)
    (b : Bool) : s.rise b = { s with byte := s.byte <<< 1 ||| b.toNat, bits := s.bits + 1 } := by
  simp only [rise, hstate, hphase]

theorem fall_of_bits_lt {s : Axp228} (hstate : s.state = .recv) (hphase : s.phase = .data)
    (hbits : s.bits < 8) : s.fall = s := by
  simp only [fall, hstate, hphase, if_neg (Nat.ne_of_lt hbits)]

/-- A bit that does not complete the byte. -/
theorem clock_recv {s : Axp228} (hstate : s.state = .recv) (hphase : s.phase = .data)
    (hbits : s.bits + 1 < 8) (b : Bool) :
    (s.rise b).fall = { s with byte := s.byte <<< 1 ||| b.toNat, bits := s.bits + 1 } := by
  rw [rise_recv hstate hphase]
  exact fall_of_bits_lt hstate hphase hbits

/-- The last bit of a byte that the slave acknowledges. -/
theorem fall_of_received {s : Axp228} (hstate : s.state = .recv) (hphase : s.phase = .data)
    (hbits : s.bits = 8) (hok : s.received.1 = true) :
    s.fall = { s.received.2 with phase := .ack, low := true } := by
  rcases hr : s.received with ⟨ok, s'⟩
  obtain rfl : ok = true := by rw [hr] at hok; exact hok
  simp only [fall, hstate, hphase, hbits, hr, if_true]

theorem received_state (s : Axp228) : s.received.2.state = s.state := by
  unfold received
  split_ifs <;> rfl

theorem rise_ack {s : Axp228} (hstate : s.state = .recv) (hphase : s.phase = .ack) (b : Bool) :
    s.rise b = s := by
  simp only [rise, hstate, hphase]

theorem rise_send {s : Axp228} (hstate : s.state = .send) (hphase : s.phase = .data)
    (b : Bool) : s.rise b = s := by
  simp only [rise, hstate, hphase]

theorem fall_send {s : Axp228} (hstate : s.state = .send) (hphase : s.phase = .data)
    (hbits : s.bits + 1 < 8) : s.fall =
      { s with bits := s.bits + 1, low := s.byte >>> (7 - (s.bits + 1)) &&& 1 = 0 } := by
  simp only [fall, hstate, hphase, if_neg (Nat.ne_of_lt hbits)]

theorem fall_send_last {s : Axp228} (hstate : s.state = .send) (hphase : s.phase = .data)
    (hbits : s.bits + 1 = 8) : s.fall = { s with bits := 8, phase := .ack, low := false } := by
  simp only [fall, hstate, hphase, hbits, if_true]

/-- The slave as a device on two open-drain lines. -/
def device : Device Axp228 where
  start := start
  stop := stop
  rise := rise
  fall := fall
  low := low

@[simp] theorem device_start (s : Axp228) : device.start s = s.start := rfl
@[simp] theorem device_stop (s : Axp228) : device.stop s = s.stop := rfl
@[simp] theorem device_rise (b : Bool) (s : Axp228) : device.rise b s = s.rise b := rfl
@[simp] theorem device_fall (s : Axp228) : device.fall s = s.fall := rfl
@[simp] theorem device_low (s : Axp228) : device.low s = s.low := rfl

end Axp228

/-! ## The GPIO bank -/

structure I2cGpio where
  scl : ℕ
  sda : ℕ
  alt : BitVec 32
  slave : Axp228
  regs : ℕ → BitVec 32
  prev : Bool × Bool
  seen : List Condition

namespace I2cGpio

def out : ℕ := 0x00
def outenb : ℕ := 0x04
def pad : ℕ := 0x18
def altfn0 : ℕ := 0x20

def muxed (g : I2cGpio) (pin : ℕ) : Bool :=
  let altfn := g.regs (altfn0 + (pin >>> 4) * 4)
  (altfn >>> ((pin &&& 0xF) * 2)) &&& 3 = g.alt

/-- `pad &= ~(1 << pin)`. -/
def clearPin (v : BitVec 32) (pin : ℕ) : BitVec 32 := v &&& ~~~(1#32 <<< pin)

def lines (g : I2cGpio) : BitVec 32 :=
  let driven := g.regs outenb &&& ~~~g.regs out
  let pad := ~~~driven
  let pad := if g.slave.low then clearPin pad g.sda else pad
  let pad := if g.muxed g.scl then pad else clearPin pad g.scl
  if g.muxed g.sda then pad else clearPin pad g.sda

/-- The calls that `update` makes for new levels of the lines. -/
def edge (scl sda : Bool) (g : I2cGpio) : I2cGpio :=
  if scl && g.prev.1 && (sda != g.prev.2) then
    if sda then { g with slave := g.slave.stop, seen := g.seen ++ [.stop] }
    else { g with slave := g.slave.start, seen := g.seen ++ [.start] }
  else if scl && !g.prev.1 then { g with slave := g.slave.rise sda }
  else if g.prev.1 && !scl then { g with slave := g.slave.fall }
  else g

def update (g : I2cGpio) : I2cGpio :=
  let pad := g.lines
  let scl := pad.getLsbD g.scl
  let g := g.edge scl (pad.getLsbD g.sda)
  { g with prev := (scl, g.lines.getLsbD g.sda) }

def read (off : ℕ) (g : I2cGpio) : BitVec 32 := if off = pad then g.lines else g.regs off

def write (off : ℕ) (val : BitVec 32) (g : I2cGpio) : I2cGpio :=
  let g := { g with regs := Function.update g.regs off val }
  if off = out ∨ off = outenb ∨ off >>> 3 = altfn0 >>> 3 then g.update else g

def bus : Bus ℕ (BitVec 32) I2cGpio where
  read off g := (g.read off, g)
  write := write

/-! ## Bits of the registers -/

theorem getLsbD_bit (pin i : ℕ) (hi : i < 32) :
    (1#32 <<< pin).getLsbD i = decide (i = pin) := by
  rw [BitVec.getLsbD_shiftLeft, BitVec.getLsbD_one]
  by_cases h : i = pin
  · subst h
    simp [hi]
  · simp only [h, hi]
    by_cases hlt : i < pin
    · simp [hlt]
    · simp [show i - pin ≠ 0 by omega]

theorem getLsbD_clearPin (v : BitVec 32) (pin : ℕ) {i : ℕ} (hi : i < 32) :
    (clearPin v pin).getLsbD i = (v.getLsbD i && decide (i ≠ pin)) := by
  rw [clearPin, BitVec.getLsbD_and, BitVec.getLsbD_not, getLsbD_bit pin i hi]
  simp [hi]

/-- The level of a pin. -/
theorem getLsbD_lines (g : I2cGpio) {i : ℕ} (hi : i < 32) :
    g.lines.getLsbD i =
      (!((g.regs outenb).getLsbD i && !(g.regs out).getLsbD i) &&
        !(g.slave.low && decide (i = g.sda)) && (g.muxed g.scl || decide (i ≠ g.scl)) &&
        (g.muxed g.sda || decide (i ≠ g.sda))) := by
  simp only [lines]
  cases g.slave.low <;> cases g.muxed g.scl <;> cases g.muxed g.sda <;>
    simp [getLsbD_clearPin _ _ hi, hi, -BitVec.getLsbD_eq_getElem]

end I2cGpio

/-! ## The bank as a pair of lines -/

structure Pins where
  scl : ℕ
  sda : ℕ
  scl_lt : scl < 32
  sda_lt : sda < 32
  ne : scl ≠ sda

open I2cGpio

/-- The registers let go of the lines `scl` and `sda`. -/
structure Driven (p : Pins) (scl sda : Bool) (g : I2cGpio) : Prop where
  scl_eq : g.scl = p.scl
  sda_eq : g.sda = p.sda
  muxed_scl : g.muxed p.scl = true
  muxed_sda : g.muxed p.sda = true
  out_scl : (g.regs out).getLsbD p.scl = false
  out_sda : (g.regs out).getLsbD p.sda = false
  outenb_scl : (g.regs outenb).getLsbD p.scl = !scl
  outenb_sda : (g.regs outenb).getLsbD p.sda = !sda

/-- The bank is the two lines `w`, and has seen them as they are. -/
structure Wired (p : Pins) (g : I2cGpio) (w : Wires Axp228) : Prop where
  driven : Driven p w.scl w.sda g
  slave_eq : g.slave = w.device
  seen_eq : g.seen = w.seen
  prev_eq : g.prev = (w.scl, w.line Axp228.device)

section Wired

variable {p : Pins} {g : I2cGpio} {w : Wires Axp228} {scl sda : Bool}

theorem Driven.lines_scl (h : Driven p scl sda g) : g.lines.getLsbD p.scl = scl := by
  rw [getLsbD_lines g p.scl_lt, h.scl_eq, h.sda_eq, h.muxed_scl, h.muxed_sda, h.out_scl,
    h.outenb_scl]
  simp [p.ne]

theorem Driven.lines_sda (h : Driven p scl sda g) :
    g.lines.getLsbD p.sda = (sda && !g.slave.low) := by
  rw [getLsbD_lines g p.sda_lt, h.scl_eq, h.sda_eq, h.muxed_scl, h.muxed_sda, h.out_sda,
    h.outenb_sda]
  simp

/-- A change that leaves the registers alone. -/
theorem Driven.of_regs {g' : I2cGpio} (h : Driven p scl sda g) (hregs : g'.regs = g.regs)
    (hscl : g'.scl = g.scl) (hsda : g'.sda = g.sda) (halt : g'.alt = g.alt) :
    Driven p scl sda g' := by
  have hmux : ∀ pin, g'.muxed pin = g.muxed pin := fun pin => by simp only [muxed, hregs, halt]
  exact ⟨hscl.trans h.scl_eq, hsda.trans h.sda_eq, (hmux _).trans h.muxed_scl,
    (hmux _).trans h.muxed_sda, by rw [hregs, h.out_scl], by rw [hregs, h.out_sda],
    by rw [hregs, h.outenb_scl], by rw [hregs, h.outenb_sda]⟩

theorem edge_regs (g : I2cGpio) (scl sda : Bool) : (g.edge scl sda).regs = g.regs ∧
    (g.edge scl sda).scl = g.scl ∧ (g.edge scl sda).sda = g.sda ∧
    (g.edge scl sda).alt = g.alt := by
  unfold edge
  split_ifs <;> exact ⟨rfl, rfl, rfl, rfl⟩

/-- What `update` makes of new levels is what they mean on the lines. -/
theorem edge_drive (scl sda : Bool) (hslave : g.slave = w.device) (hseen : g.seen = w.seen)
    (hprev : g.prev = (w.scl, w.line Axp228.device)) :
    (g.edge scl (sda && !g.slave.low)).slave = (w.drive Axp228.device scl sda).device ∧
      (g.edge scl (sda && !g.slave.low)).seen = (w.drive Axp228.device scl sda).seen := by
  obtain ⟨pscl, psda, s, seen⟩ := w
  cases hlow : s.low <;> cases scl <;> cases pscl <;> cases sda <;> cases psda <;>
    simp [edge, Wires.drive, Wires.line, hslave, hseen, hprev, hlow]

theorem drive_levels (w : Wires Axp228) (scl sda : Bool) :
    (w.drive Axp228.device scl sda).scl = scl ∧ (w.drive Axp228.device scl sda).sda = sda := by
  simp only [Wires.drive]
  split_ifs <;> exact ⟨rfl, rfl⟩

theorem Driven.update (h : Driven p scl sda g) (hslave : g.slave = w.device)
    (hseen : g.seen = w.seen) (hprev : g.prev = (w.scl, w.line Axp228.device)) :
    Wired p g.update (w.drive Axp228.device scl sda) := by
  obtain ⟨hregs, hscl, hsda, halt⟩ := edge_regs g scl (sda && !g.slave.low)
  obtain ⟨hdev, hcond⟩ := edge_drive scl sda hslave hseen hprev
  obtain ⟨hws, hwd⟩ := drive_levels w scl sda
  have he : Driven p scl sda (g.edge scl (sda && !g.slave.low)) :=
    h.of_regs hregs hscl hsda halt
  have hup : g.update = { g.edge scl (sda && !g.slave.low) with
      prev := (scl, sda && !(g.edge scl (sda && !g.slave.low)).slave.low) } := by
    simp only [I2cGpio.update, h.scl_eq, h.sda_eq, h.lines_scl, h.lines_sda]
    rw [he.sda_eq, he.lines_sda]
  rw [hup]
  refine ⟨?_, hdev, hcond, ?_⟩
  · rw [hws, hwd]
    exact he.of_regs rfl rfl rfl rfl
  · simp only [Wires.line, hws, hwd, hdev]
    rfl

/-- **A write of `OUTENB` drives the lines.** -/
theorem Wired.write_outenb (h : Wired p g w) {val : BitVec 32}
    (hscl : val.getLsbD p.scl = !scl) (hsda : val.getLsbD p.sda = !sda) :
    Wired p (g.write outenb val) (w.drive Axp228.device scl sda) := by
  have hne : ∀ pin, altfn0 + (pin >>> 4) * 4 ≠ outenb := by
    intro pin
    simp only [altfn0, outenb]
    omega
  have hout : out ≠ outenb := by decide
  have hmux : ∀ pin, ({ g with regs := Function.update g.regs outenb val } : I2cGpio).muxed pin =
      g.muxed pin := by
    intro pin
    simp only [muxed, Function.update_of_ne (hne pin)]
  have hd := h.driven
  have hdriven : Driven p scl sda { g with regs := Function.update g.regs outenb val } :=
    ⟨hd.scl_eq, hd.sda_eq, (hmux _).trans hd.muxed_scl, (hmux _).trans hd.muxed_sda,
      by simpa only [Function.update_of_ne hout] using hd.out_scl,
      by simpa only [Function.update_of_ne hout] using hd.out_sda,
      by simpa only [Function.update_self] using hscl,
      by simpa only [Function.update_self] using hsda⟩
  simp only [I2cGpio.write, or_true, true_or, if_true]
  exact hdriven.update h.slave_eq h.seen_eq h.prev_eq

end Wired

end Gec6818Bl1.Emulator
