import Gec6818Bl1.I2c.Lines

/-!
# Bytes of an I2C transfer on the emulator

The bytes of `i2c_gpio.c` against the `AXP228` of `s5p6818_emu.py`, bit by bit in both directions,
and the loops over the bytes of a transfer.

* A slave that is `Listening` has `data` after eight clock pulses, and acknowledges it with the
  ninth (`At.sendByte`).
* A slave that is `Sending` gives the register it has loaded (`At.receiveByte`), and loads the next
  one if it is acknowledged.
-/

namespace Gec6818Bl1.I2c

open ByteMem Polling OpenDrain Emulator

/-! ## A byte from the driver to the slave -/

/-- The slave waits for the first bit of a byte. -/
structure Listening (s : Axp228) : Prop where
  state_eq : s.state = .recv
  phase_eq : s.phase = .data
  low_eq : s.low = false
  bits_eq : s.bits = 0
  byte_eq : s.byte = 0

/-- What the slave has after `k` more bits of `data`. -/
def shiftIn (byte : ℕ) (data : Byte) : ℕ → ℕ
  | 0 => byte
  | k + 1 => shiftIn (byte <<< 1 ||| (data &&& 0x80 != 0).toNat) (data <<< 1) k

theorem shiftIn_all : ∀ data : Byte, shiftIn 0 data 8 = data.toNat := by decide +kernel

/-- The byte `data`, and the clock pulse of its acknowledge bit. -/
def take (data : Byte) (s : Axp228) : Axp228 :=
  { s with byte := data.toNat, bits := 8 }.fall.fall

/-- The slave acknowledges `data`. -/
def Acks (data : Byte) (s : Axp228) : Prop :=
  { s with byte := data.toNat, bits := 8 }.received.1 = true

section Bytes

variable {p : Pins} {started b : Bool} {s : Axp228} {seen : List Condition}
variable {m : Master I2cGpio} {k : ℕ}

theorem At.writeBits (h : At p started ⟨false, b, s, seen⟩ m) (data : Byte)
    (hstate : s.state = .recv) (hphase : s.phase = .data) (hlow : s.low = false)
    (hbits : s.bits + (k + 1) = 8) :
    ∃ m' b', writeBits I2cGpio.bus p.scl p.sda (k + 1) data m = (true, m') ∧
      At p started
        ⟨false, b', { s with byte := shiftIn s.byte data (k + 1), bits := 8 }.fall, seen⟩ m' := by
  induction k generalizing s b data m with
  | zero =>
    obtain ⟨m₁, hbit, h₁⟩ := h.i2cWriteBit (data &&& 0x80 != 0) hlow
    rw [Axp228.rise_recv hstate hphase, show s.bits + 1 = 8 from hbits] at h₁
    exact ⟨m₁, _, by rw [I2c.writeBits, hbit]; rfl, h₁⟩
  | succ k ih =>
    obtain ⟨m₁, hbit, h₁⟩ := h.i2cWriteBit (data &&& 0x80 != 0) hlow
    rw [Axp228.clock_recv hstate hphase (by omega)] at h₁
    obtain ⟨m', b', hm', h'⟩ := ih h₁ (data <<< 1) hstate hphase hlow (by simp only; omega)
    exact ⟨m', b', by rw [I2c.writeBits, hbit]; exact hm', h'⟩

/-- A byte that the slave acknowledges. -/
theorem At.sendByte (h : At p started ⟨false, b, s, seen⟩ m) {data : Byte} (hs : Listening s)
    (hack : Acks data s) :
    ∃ m₁ m₂, I2c.writeBits I2cGpio.bus p.scl p.sda 8 data m = (true, m₁) ∧
      I2c.i2cReadBit I2cGpio.bus p.scl p.sda m₁ = (some false, m₂) ∧
      At p started ⟨false, true, take data s, seen⟩ m₂ := by
  obtain ⟨m₁, b', hm₁, h₁⟩ := h.writeBits data hs.state_eq hs.phase_eq hs.low_eq
    (k := 7) (by rw [hs.bits_eq])
  rw [hs.byte_eq, shiftIn_all] at h₁
  obtain ⟨m₂, hm₂, h₂⟩ := h₁.i2cReadBit
  have hfall := Axp228.fall_of_received (s := { s with byte := data.toNat, bits := 8 })
    hs.state_eq hs.phase_eq rfl hack
  rw [Axp228.rise_ack (by rw [hfall]; exact (Axp228.received_state _).trans hs.state_eq)
    (by rw [hfall])] at h₂
  rw [hfall] at hm₂
  exact ⟨m₁, m₂, hm₁, hm₂, h₂⟩

/-- A call of `I2C_WriteByte` without a stop, from where its start has left the lines. -/
theorem At.writeAcked {m₀ : Master I2cGpio} (h : At p started ⟨false, b, s, seen⟩ m₀)
    (sendStart : Bool)
    (hstart : (if sendStart then I2c.i2cStart I2cGpio.bus p.scl p.sda m else (true, m)) =
      (true, m₀)) {data : Byte} (hs : Listening s) (hack : Acks data s) :
    ∃ m', I2c.writeAcked I2cGpio.bus p.scl p.sda sendStart false data m = (true, m') ∧
      At p started ⟨false, true, take data s, seen⟩ m' := by
  obtain ⟨m₁, m₂, hm₁, hm₂, h₂⟩ := h.sendByte hs hack
  refine ⟨m₂, ?_, h₂⟩
  rw [I2c.writeAcked, i2cWriteByte, hstart]
  simp only [hm₁, hm₂]
  rfl

/-- A call of `I2C_WriteByte` with a stop. -/
theorem At.writeAcked_stop (h : At p started ⟨false, b, s, seen⟩ m) {data : Byte}
    (hs : Listening s) (hack : Acks data s) (hlow : (take data s).low = false) :
    ∃ m', I2c.writeAcked I2cGpio.bus p.scl p.sda false true data m = (true, m') ∧
      At p false ⟨true, true, ((take data s).rise false).stop, seen ++ [.stop]⟩ m' := by
  obtain ⟨m₁, m₂, hm₁, hm₂, h₂⟩ := h.sendByte hs hack
  obtain ⟨m₃, hm₃, h₃⟩ := h₂.i2cStop hlow
  refine ⟨m₃, ?_, h₃⟩
  rw [I2c.writeAcked, i2cWriteByte]
  simp only [Bool.false_eq_true, if_false, if_true, hm₁, hm₂, hm₃]

/-! ## What the slave makes of a byte -/

theorem listening_start (s : Axp228) : Listening s.start.fall := by
  rw [Axp228.fall_of_bits_lt rfl rfl (by decide : (0 : ℕ) < 8)]
  exact ⟨rfl, rfl, rfl, rfl, rfl⟩

/-- The slave waits for the number of a register. -/
structure Addressed (s : Axp228) : Prop extends Listening s where
  first_eq : s.first = false
  needReg_eq : s.needReg = true

/-- The slave waits for a byte that goes to the register `r`. -/
structure Ready (r : Byte) (s : Axp228) : Prop extends Listening s where
  first_eq : s.first = false
  needReg_eq : s.needReg = false
  reg_eq : s.reg = r

/-- The first byte of a write: the slave's address. -/
theorem take_writeAddress (hs : Listening s) (hfirst : s.first = true) :
    Acks 0x68 s ∧ Addressed (take 0x68 s) ∧ (take 0x68 s).regs = s.regs := by
  have htake : take 0x68 s = { s with
      rw := false, needReg := true, first := false, low := false, bits := 0, byte := 0 } := by
    simp [take, Axp228.fall, Axp228.received, Axp228.addr, hs.state_eq, hs.phase_eq, hfirst]
  refine ⟨by simp [Acks, Axp228.received, Axp228.addr, hfirst], ?_⟩
  rw [htake]
  exact ⟨⟨⟨hs.state_eq, hs.phase_eq, rfl, rfl, rfl⟩, rfl, rfl⟩, rfl⟩

/-- The second byte of a write: a register's number. -/
theorem take_register (hs : Addressed s) (r : Byte) :
    Acks r s ∧ Ready r (take r s) ∧ (take r s).regs = s.regs := by
  have htake : take r s =
      { s with reg := r, needReg := false, first := false, low := false, bits := 0, byte := 0 } := by
    simp [take, Axp228.fall, Axp228.received, hs.state_eq, hs.phase_eq, hs.first_eq, hs.needReg_eq]
  refine ⟨by simp [Acks, Axp228.received, hs.first_eq, hs.needReg_eq], ?_⟩
  rw [htake]
  exact ⟨⟨⟨hs.state_eq, hs.phase_eq, rfl, rfl, rfl⟩, rfl, rfl, rfl⟩, rfl⟩

/-- Any later byte of a write. -/
theorem take_data {r : Byte} (hs : Ready r s) (data : Byte) :
    Acks data s ∧ Ready (r + 1) (take data s) ∧
      (take data s).regs = Function.update s.regs r data := by
  have htake : take data s =
      { s with
        regs := Function.update s.regs r data
        reg := r + 1
        first := false
        low := false
        bits := 0
        byte := 0 } := by
    simp [take, Axp228.fall, Axp228.received, hs.state_eq, hs.phase_eq, hs.first_eq,
      hs.needReg_eq, hs.reg_eq]
  refine ⟨by simp [Acks, Axp228.received, hs.first_eq, hs.needReg_eq], ?_⟩
  rw [htake]
  exact ⟨⟨⟨hs.state_eq, hs.phase_eq, rfl, rfl, rfl⟩, rfl, hs.needReg_eq, rfl⟩, rfl⟩

/-! ## A byte from the slave to the driver -/

/-- The slave has loaded the register `s.reg`, and holds its first bit on the line. -/
structure Sending (s : Axp228) : Prop where
  state_eq : s.state = .send
  phase_eq : s.phase = .data
  bits_eq : s.bits = 0
  byte_eq : s.byte = (s.regs s.reg).toNat
  low_eq : s.low = decide (s.byte >>> 7 = 0)

/-- The first byte of a read turns the slave round, and it loads its register. -/
theorem take_readAddress (hs : Listening s) (hfirst : s.first = true) :
    Acks 0x69 s ∧ Sending (take 0x69 s) ∧ (take 0x69 s).regs = s.regs ∧
      (take 0x69 s).reg = s.reg := by
  have htake : take 0x69 s =
      { s with
        rw := true
        needReg := false
        first := false
        state := .send
        byte := (s.regs s.reg).toNat
        bits := 0
        low := (s.regs s.reg).toNat >>> 7 = 0 } := by
    simp [take, Axp228.fall, Axp228.received, Axp228.load, Axp228.addr, hs.state_eq, hs.phase_eq,
      hfirst]
  refine ⟨by simp [Acks, Axp228.received, Axp228.addr, hfirst], ?_⟩
  rw [htake]
  exact ⟨⟨rfl, hs.phase_eq, rfl, rfl, rfl⟩, rfl, rfl⟩

/-- What the driver has after the `k` last bits of `byte`. -/
def shiftOut (acc : Byte) (byte : ℕ) : ℕ → Byte
  | 0 => acc
  | k + 1 => shiftOut (acc <<< 1 ||| if !decide (byte >>> k &&& 1 = 0) then 1 else 0) byte k

theorem shiftOut_all : ∀ data : Byte, shiftOut 0 data.toNat 8 = data := by decide +kernel

theorem shiftRight_seven : ∀ data : Byte, data.toNat >>> 7 &&& 1 = data.toNat >>> 7 := by
  decide +kernel

theorem At.readBits (h : At p started ⟨false, b, s, seen⟩ m) (acc : Byte)
    (hstate : s.state = .send) (hphase : s.phase = .data) (hbits : s.bits + (k + 1) = 8)
    (hlow : s.low = decide (s.byte >>> k &&& 1 = 0)) :
    ∃ m', readBits I2cGpio.bus p.scl p.sda (k + 1) acc m =
        (some (shiftOut acc s.byte (k + 1)), m') ∧
      At p started ⟨false, true, { s with bits := 8, phase := .ack, low := false }, seen⟩ m' := by
  induction k generalizing s b acc m with
  | zero =>
    obtain ⟨m₁, hbit, h₁⟩ := h.i2cReadBit
    rw [Axp228.rise_send hstate hphase, Axp228.fall_send_last hstate hphase hbits] at h₁
    refine ⟨m₁, ?_, h₁⟩
    rw [I2c.readBits, hbit, hlow]
    rfl
  | succ k ih =>
    obtain ⟨m₁, hbit, h₁⟩ := h.i2cReadBit
    rw [Axp228.rise_send hstate hphase, Axp228.fall_send hstate hphase (by omega)] at h₁
    obtain ⟨m', hm', h'⟩ := ih h₁ (acc <<< 1 ||| if !s.low then 1 else 0) hstate hphase
      (by simp only; omega) (by rw [show 7 - (s.bits + 1) = k by omega])
    refine ⟨m', ?_, h'⟩
    rw [I2c.readBits, hbit]
    exact hm'.trans (by rw [hlow]; rfl)

/-- The slave after it has sent its byte and seen the acknowledge bit `nAck`. -/
def sent (nAck : Bool) (s : Axp228) : Axp228 :=
  (({ s with bits := 8, phase := .ack, low := false } : Axp228).rise nAck).fall

theorem At.receiveByte (h : At p started ⟨false, b, s, seen⟩ m) (hs : Sending s) (nAck : Bool) :
    ∃ m₁ m₂, I2c.readBits I2cGpio.bus p.scl p.sda 8 0 m = (some (s.regs s.reg), m₁) ∧
      I2c.i2cWriteBit I2cGpio.bus p.scl p.sda nAck m₁ = (true, m₂) ∧
      At p started ⟨false, nAck, sent nAck s, seen⟩ m₂ := by
  obtain ⟨m₁, hm₁, h₁⟩ := h.readBits 0 hs.state_eq hs.phase_eq (k := 7) (by rw [hs.bits_eq])
    (by rw [hs.low_eq, hs.byte_eq, shiftRight_seven])
  rw [hs.byte_eq, shiftOut_all] at hm₁
  obtain ⟨m₂, hm₂, h₂⟩ := h₁.i2cWriteBit nAck rfl
  exact ⟨m₁, m₂, hm₁, hm₂, h₂⟩

/-- An acknowledged slave loads the next register. -/
theorem sent_ack (hs : Sending s) : Sending (sent false s) ∧ (sent false s).regs = s.regs ∧
    (sent false s).reg = s.reg + 1 := by
  have hsent : sent false s = { s with
      nack := false
      reg := s.reg + 1
      byte := (s.regs (s.reg + 1)).toNat
      bits := 0
      low := (s.regs (s.reg + 1)).toNat >>> 7 = 0 } := by
    simp [sent, Axp228.rise, Axp228.fall, Axp228.load, hs.state_eq, hs.phase_eq]
  rw [hsent]
  exact ⟨⟨hs.state_eq, hs.phase_eq, rfl, rfl, rfl⟩, rfl, rfl⟩

/-- A slave that is not acknowledged lets go of the bus. -/
theorem sent_nack (hs : Sending s) : (sent true s).state = .idle ∧ (sent true s).low = false ∧
    (sent true s).regs = s.regs := by
  simp [sent, Axp228.rise, Axp228.fall, Axp228.stop, hs.state_eq]

/-! ## The loops over the bytes -/

/-- The registers from `r` on, wrapping round. -/
def readFrom (regs : Byte → Byte) (r : Byte) (length : ℕ) : List Byte :=
  (List.range length).map fun i => regs (r + BitVec.ofNat 8 i)

/-- The bytes `data` in the registers from `r` on, one after the other. -/
def storeFrom (regs : Byte → Byte) (r : Byte) : List Byte → Byte → Byte
  | [] => regs
  | d :: data => storeFrom (Function.update regs r d) (r + 1) data

theorem register_zero (r : Byte) : r + BitVec.ofNat 8 0 = r := BitVec.add_zero r

theorem register_succ (r : Byte) (i : ℕ) :
    r + BitVec.ofNat 8 (i + 1) = r + 1 + BitVec.ofNat 8 i := by
  rw [BitVec.ofNat_add, BitVec.add_assoc, BitVec.add_comm (BitVec.ofNat 8 i)]
  rfl

theorem readFrom_succ (regs : Byte → Byte) (r : Byte) (length : ℕ) :
    readFrom regs r (length + 1) = regs r :: readFrom regs (r + 1) length := by
  rw [readFrom, List.range_succ_eq_map, List.map_cons, List.map_map, readFrom]
  congr 1
  · rw [register_zero]
  · apply List.map_congr_left
    intro i _
    exact congrArg regs (register_succ r i)

theorem At.writeLoop {r : Byte} (h : At p true ⟨false, b, s, seen⟩ m) (hs : Ready r s) (d : Byte)
    (data : List Byte) :
    ∃ m' s', writeLoop I2cGpio.bus p.scl p.sda (d :: data) m = (true, m') ∧
      At p false ⟨true, true, s', seen ++ [.stop]⟩ m' ∧ s'.state = .idle ∧ s'.low = false ∧
      s'.regs = storeFrom s.regs r (d :: data) := by
  obtain ⟨hack, hready, htake⟩ := take_data hs d
  induction data generalizing r d s b m with
  | nil =>
    obtain ⟨m', hm', h'⟩ := h.writeAcked_stop hs.toListening hack hready.low_eq
    refine ⟨m', _, ?_, h', rfl, rfl, ?_⟩
    · rw [I2c.writeLoop, List.isEmpty_nil, hm']
      rfl
    · exact (Axp228.rise_regs _ _).trans htake
  | cons d' data ih =>
    obtain ⟨m₁, hm₁, h₁⟩ := h.writeAcked false rfl hs.toListening hack
    obtain ⟨hack', hready', htake'⟩ := take_data hready d'
    obtain ⟨m', s', hm', h', hidle, hlow, hregs⟩ := ih h₁ hready d' hack' hready' htake'
    refine ⟨m', s', ?_, h', hidle, hlow, ?_⟩
    · rw [I2c.writeLoop, List.isEmpty_cons, hm₁]
      exact hm'
    · rw [hregs, htake]
      rfl

theorem At.readLoop (h : At p true ⟨false, b, s, seen⟩ m) (hs : Sending s) (left : ℕ) :
    ∃ m' s', readLoop I2cGpio.bus p.scl p.sda (left + 1) m =
        (true, readFrom s.regs s.reg (left + 1), m') ∧
      At p false ⟨true, true, s', seen ++ [.stop]⟩ m' ∧ s'.state = .idle ∧ s'.low = false ∧
      s'.regs = s.regs := by
  induction left generalizing s b m with
  | zero =>
    obtain ⟨hidle, hlow, hregs⟩ := sent_nack hs
    obtain ⟨m₁, m₂, hm₁, hm₂, h₂⟩ := h.receiveByte hs true
    obtain ⟨m₃, hm₃, h₃⟩ := h₂.i2cStop hlow
    refine ⟨m₃, _, ?_, h₃, rfl, rfl, ?_⟩
    · rw [I2c.readLoop, decide_eq_true rfl, i2cReadByte, hm₁]
      simp only [hm₂, if_true, hm₃, I2c.readLoop]
      rw [readFrom_succ]
      rfl
    · simpa [Axp228.stop, Axp228.rise_regs] using hregs
  | succ left ih =>
    obtain ⟨hs₁, hregs₁, hreg₁⟩ := sent_ack hs
    obtain ⟨m₁, m₂, hm₁, hm₂, h₂⟩ := h.receiveByte hs false
    obtain ⟨m', s', hm', h', hidle, hlow, hregs⟩ := ih h₂ hs₁
    refine ⟨m', s', ?_, h', hidle, hlow, hregs.trans hregs₁⟩
    rw [I2c.readLoop, decide_eq_false (Nat.succ_ne_zero left), i2cReadByte, hm₁]
    simp only [hm₂, Bool.false_eq_true, if_false, hm', hregs₁, hreg₁]
    rw [readFrom_succ _ _ (left + 1)]
    rfl

end Bytes

end Gec6818Bl1.I2c
