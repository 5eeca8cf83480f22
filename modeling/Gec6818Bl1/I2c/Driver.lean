import Gec6818Bl1.Lib.Polling
import Gec6818Bl1.Lib.ByteMem

/-!
# The I2C driver

`i2c_gpio.c`, over the registers of the GPIO bank that the bus hangs on. A line is pulled down by
enabling the output of its pin, which is always low, and let go by disabling it.

The pins `g_I2C_GPIO_SCL` and `g_I2C_GPIO_SDA` are set by `I2C_Init` and nowhere else, so they are
parameters here. The delays are left out, and so are the messages of a debug build. `none` in place
of a bit or a byte is the result `CFALSE` of a function that hands one over through a pointer.
-/

namespace Gec6818Bl1.I2c

open ByteMem Polling

/-- `struct NX_GPIO_RegisterSet`: a register is its offset. -/
abbrev GpioBus (σ : Type*) := Bus ℕ (BitVec 32) σ

namespace Reg

def gpioxOut : ℕ := 0x00
def gpioxOutenb : ℕ := 0x04
def gpioxPad : ℕ := 0x18
def gpioxAltfn (i : ℕ) : ℕ := 0x20 + 4 * i
def gpioxPullsel : ℕ := 0x58
def gpioxPullenb : ℕ := 0x60

end Reg

def stretchingTimeout : ℕ := 100

def padfunc3 : BitVec 32 := 3

/-- The GPIO bank, and the global `started`. -/
structure Master (σ : Type*) where
  started : Bool
  dev : σ

section Driver

variable {σ : Type*} (bus : GpioBus σ) (scl sda : ℕ)

def setIO32 (reg : ℕ) (data : BitVec 32) (m : Master σ) : Master σ :=
  { m with dev := bus.modify reg (· ||| data) m.dev }

def clearIO32 (reg : ℕ) (data : BitVec 32) (m : Master σ) : Master σ :=
  { m with dev := bus.modify reg (· &&& ~~~data) m.dev }

/-! ## The lines -/

def sdaLow : Master σ → Master σ := setIO32 bus Reg.gpioxOutenb (1#32 <<< sda)

def sclLow : Master σ → Master σ := setIO32 bus Reg.gpioxOutenb (1#32 <<< scl)

/-- `SDA_READ` and `SCL_READ`: let go of the pin, then look at it. -/
def pinRead (pin : ℕ) (m : Master σ) : Bool × Master σ :=
  let m := clearIO32 bus Reg.gpioxOutenb (1#32 <<< pin) m
  let (pad, dev) := bus.read Reg.gpioxPad m.dev
  (pad.getLsbD pin, { m with dev })

def sdaRead : Master σ → Bool × Master σ := pinRead bus sda

def sclRead : Master σ → Bool × Master σ := pinRead bus scl

/-- `while (line() == CFALSE)`, with `timeout` more tests allowed: `false` if they run out. -/
def waitHigh (read : Master σ → Bool × Master σ) : ℕ → Master σ → Bool × Master σ
  | timeout, m =>
    match read m with
    | (true, m) => (true, m)
    | (false, m) =>
      match timeout with
      | 0 => (false, m)
      | timeout + 1 => waitHigh read timeout m

def i2cInit (sclAlt sdaAlt : BitVec 32) (m : Master σ) : Master σ :=
  let m := { m with started := false }
  let m := clearIO32 bus Reg.gpioxOut (1#32 <<< scl) m
  let m := clearIO32 bus Reg.gpioxOut (1#32 <<< sda) m
  let m := clearIO32 bus Reg.gpioxOutenb (1#32 <<< scl) m
  let m := clearIO32 bus Reg.gpioxOutenb (1#32 <<< sda) m
  let m := clearIO32 bus (Reg.gpioxAltfn (scl >>> 4)) (padfunc3 <<< ((scl &&& 0xF) <<< 1)) m
  let m := setIO32 bus (Reg.gpioxAltfn (scl >>> 4)) (sclAlt <<< ((scl &&& 0xF) <<< 1)) m
  let m := clearIO32 bus (Reg.gpioxAltfn (sda >>> 4)) (padfunc3 <<< ((sda &&& 0xF) <<< 1)) m
  let m := setIO32 bus (Reg.gpioxAltfn (sda >>> 4)) (sdaAlt <<< ((sda &&& 0xF) <<< 1)) m
  let m := setIO32 bus Reg.gpioxPullsel (1#32 <<< sda) m
  let m := setIO32 bus Reg.gpioxPullenb (1#32 <<< sda) m
  let m := setIO32 bus Reg.gpioxPullsel (1#32 <<< scl) m
  setIO32 bus Reg.gpioxPullenb (1#32 <<< scl) m

/-! ## Conditions and bits -/

def i2cStart (m : Master σ) : Bool × Master σ :=
  match if m.started then waitHigh (sclRead bus scl) stretchingTimeout (sdaRead bus sda m).2
      else (true, m) with
  | (false, m) => (false, m)
  | (true, m) =>
    match sdaRead bus sda m with
    | (false, m) => (false, m)
    | (true, m) => (true, { sclLow bus scl (sdaLow bus sda m) with started := true })

def i2cStop (m : Master σ) : Bool × Master σ :=
  match waitHigh (sclRead bus scl) stretchingTimeout (sdaLow bus sda m) with
  | (false, m) => (false, m)
  | (true, m) =>
    waitHigh (sdaRead bus sda) stretchingTimeout
      { (sdaRead bus sda m).2 with started := false }

def i2cWriteBit (bit : Bool) (m : Master σ) : Bool × Master σ :=
  let m := if bit then (sdaRead bus sda m).2 else sdaLow bus sda m
  match waitHigh (sclRead bus scl) stretchingTimeout m with
  | (false, m) => (false, m)
  | (true, m) =>
    match if bit then sdaRead bus sda m else (true, m) with
    | (false, m) => (false, m)
    | (true, m) => (true, sclLow bus scl m)

def i2cReadBit (m : Master σ) : Option Bool × Master σ :=
  let (_, m) := sdaRead bus sda m
  match waitHigh (sclRead bus scl) stretchingTimeout m with
  | (false, m) => (none, m)
  | (true, m) =>
    let (bit, m) := sdaRead bus sda m
    (some bit, sclLow bus scl m)

/-! ## Bytes -/

/-- The loop of `I2C_WriteByte`, with `left` bits to go. -/
def writeBits : ℕ → Byte → Master σ → Bool × Master σ
  | 0, _, m => (true, m)
  | left + 1, data, m =>
    match i2cWriteBit bus scl sda (data &&& 0x80 != 0) m with
    | (false, m) => (false, m)
    | (true, m) => writeBits left (data <<< 1) m

/-- What `*nAck` is when the result is `CTRUE`. -/
def i2cWriteByte (sendStart sendStop : Bool) (data : Byte) (m : Master σ) :
    Option Bool × Master σ :=
  match if sendStart then i2cStart bus scl sda m else (true, m) with
  | (false, m) => (none, m)
  | (true, m) =>
    match writeBits bus scl sda 8 data m with
    | (false, m) => (none, m)
    | (true, m) =>
      match i2cReadBit bus scl sda m with
      | (none, m) => (none, m)
      | (some true, m) => (none, m)
      | (some false, m) =>
        match if sendStop then i2cStop bus scl sda m else (true, m) with
        | (false, m) => (none, m)
        | (true, m) => (some false, m)

/-- The loop of `I2C_ReadByte`. -/
def readBits : ℕ → Byte → Master σ → Option Byte × Master σ
  | 0, byte, m => (some byte, m)
  | left + 1, byte, m =>
    match i2cReadBit bus scl sda m with
    | (none, m) => (none, m)
    | (some rBit, m) => readBits left (byte <<< 1 ||| if rBit then 1 else 0) m

/-- The result, and the byte if one was stored through `pData`. -/
def i2cReadByte (nAck sendStop : Bool) (m : Master σ) : Bool × List Byte × Master σ :=
  match readBits bus scl sda 8 0 m with
  | (none, m) => (false, [], m)
  | (some byte, m) =>
    match i2cWriteBit bus scl sda nAck m with
    | (false, m) => (false, [byte], m)
    | (true, m) =>
      match if sendStop then i2cStop bus scl sda m else (true, m) with
      | (false, m) => (false, [byte], m)
      | (true, m) => (true, [byte], m)

/-! ## Transfers -/

/-- A call of `I2C_WriteByte` and the two tests after it. -/
def writeAcked (sendStart sendStop : Bool) (data : Byte) (m : Master σ) : Bool × Master σ :=
  match i2cWriteByte bus scl sda sendStart sendStop data m with
  | (none, m) => (false, m)
  | (some true, m) => (false, m)
  | (some false, m) => (true, m)

/-- The loop of `I2C_Read`, with `left` bytes to go. -/
def readLoop : ℕ → Master σ → Bool × List Byte × Master σ
  | 0, m => (true, [], m)
  | left + 1, m =>
    match i2cReadByte bus scl sda (left = 0) (left = 0) m with
    | (false, bytes, m) => (false, bytes, m)
    | (true, bytes, m) =>
      let (result, rest, m) := readLoop left m
      (result, bytes ++ rest, m)

/-- The result, and the bytes stored through `pData`. -/
def i2cRead (deviceAddress registerAddress : Byte) (length : ℕ) (m : Master σ) :
    Bool × List Byte × Master σ :=
  match writeAcked bus scl sda true false (deviceAddress <<< 1 ||| 0) m with
  | (false, m) => (false, [], m)
  | (true, m) =>
    match writeAcked bus scl sda false false registerAddress m with
    | (false, m) => (false, [], m)
    | (true, m) =>
      match writeAcked bus scl sda true false (deviceAddress <<< 1 ||| 1) m with
      | (false, m) => (false, [], m)
      | (true, m) => readLoop bus scl sda length m

/-- The loop of `I2C_Write`. -/
def writeLoop : List Byte → Master σ → Bool × Master σ
  | [], m => (true, m)
  | data :: rest, m =>
    match writeAcked bus scl sda false rest.isEmpty data m with
    | (false, m) => (false, m)
    | (true, m) => writeLoop rest m

def i2cWrite (deviceAddress registerAddress : Byte) (data : List Byte) (m : Master σ) :
    Bool × Master σ :=
  match writeAcked bus scl sda true false (deviceAddress <<< 1 ||| 0) m with
  | (false, m) => (false, m)
  | (true, m) =>
    match writeAcked bus scl sda false false registerAddress m with
    | (false, m) => (false, m)
    | (true, m) => writeLoop bus scl sda data m

end Driver

end Gec6818Bl1.I2c
