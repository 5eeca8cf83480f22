import Gec6818Bl1.Lib.ByteMem
import Gec6818Bl1.Lib.Lts
import Mathlib.Data.Nat.Bitwise

/-!
# The emulator's SD/MMC controller

The classes `SDCard` and `DWMMC` of `s5p6818_emu.py`: an SDHC card that answers commands, and a
controller with its interrupt bits, its FIFO and its internal DMA. The integers are Python's, so a
register holds any natural number, and `regs` is a dictionary. What DMA reads and writes is the
board's memory; an address outside it raises an exception, and so does the `none` of a write.

A guest drives the controller with reads and writes of any register and changes the memory in any
way. What it can bring the controller to is `Reachable`.
-/

namespace Gec6818Bl1.Emulator

open ByteMem

/-! ## The card -/

/-- `SDCard`; the relative card address is always `0x1234`. -/
structure SDCard where
  image : List Byte
  state : ℕ := 0
  app : Bool := false

/-- The second component of what `command` returns: bytes, or `"read"`. -/
inductive CardData where
  | bytes (bs : List Byte)
  | read

namespace SDCard

def rca : ℕ := 0x1234

def csd (card : SDCard) : ℕ :=
  let csize := max (card.image.length / (512 * 1024)) 1 - 1
  (1 <<< 126) ||| (0x32 <<< 96) ||| (0x5B5 <<< 84) ||| (9 <<< 80) ||| (csize <<< 48) |||
    (0x7F <<< 39) ||| (0x3F <<< 32) ||| 1

def cid : ℕ := (0x03 <<< 120) ||| (0x5344 <<< 104) ||| (0x454D553031 <<< 64) ||| 1

def r1 (card : SDCard) : ℕ := (card.state <<< 9) ||| (1 <<< 8) ||| (if card.app then 0x20 else 0)

/-- A slice of the image, padded with zeros past its end. -/
def read (card : SDCard) (offset length : ℕ) : List Byte :=
  ((card.image.drop offset).take length).rightpad length 0

/-- The four words of an `R2` response. -/
def long (v : ℕ) : List ℕ := (List.range 4).map fun i => (v >>> (32 * i)) &&& 0xFFFFFFFF

/-- The response (`none`: no response) and the data of a command. -/
def command (card : SDCard) (idx arg : ℕ) : Option (List ℕ) × Option CardData × SDCard :=
  let app := card.app
  let card := { card with app := false }
  if app ∧ idx = 41 then
    (some [0xC0FF8000], none, if card.state = 0 then { card with state := 1 } else card)
  else if app ∧ idx = 6 then (some [card.r1], none, card)
  else if app ∧ idx = 51 then
    (some [card.r1], some (.bytes [0x02, 0x35, 0x80, 0x00, 0, 0, 0, 0]), card)
  else if app ∧ idx = 13 then (some [card.r1], some (.bytes (List.replicate 64 0)), card)
  else if idx = 0 then (some [0], none, { card with state := 0 })
  else if idx = 8 then (some [arg &&& 0xFFF], none, card)
  else if idx = 55 then (some [{ card with app := true }.r1], none, { card with app := true })
  else if idx = 2 then (some (long cid), none, { card with state := 2 })
  else if idx = 3 then
    (some [(rca <<< 16) ||| (3 <<< 9) ||| (1 <<< 8)], none, { card with state := 3 })
  else if idx = 9 then (some (long card.csd), none, card)
  else if idx = 10 then (some (long cid), none, card)
  else if idx = 7 then
    (some [card.r1], none, { card with state := if arg >>> 16 = rca then 4 else 3 })
  else if idx = 13 ∨ idx = 16 ∨ idx = 23 then (some [card.r1], none, card)
  else if idx = 12 then (some [card.r1], none, { card with state := 4 })
  else if idx = 6 then (some [card.r1], some (.bytes (List.replicate 64 0)), card)
  else if idx = 17 ∨ idx = 18 then (some [card.r1], some .read, card)
  else (none, none, card)

end SDCard

/-! ## The board's memory -/

def sramBase : ℕ := 0xFFFF0000
def sramSize : ℕ := 0x10000
def ddrBase : ℕ := 0x40000000
def ddrSize : ℕ := 0x40000000

/-- The range is inside the SRAM or inside the DDR; `ValueError` otherwise. -/
def InRam (addr length : ℕ) : Prop :=
  sramBase ≤ addr ∧ addr + length ≤ sramBase + sramSize ∨
    ddrBase ≤ addr ∧ addr + length ≤ ddrBase + ddrSize

instance (addr length : ℕ) : Decidable (InRam addr length) := by unfold InRam; infer_instance

def memRead (ram : ℕ → Byte) (addr length : ℕ) : Option (List Byte) :=
  if InRam addr length then some ((List.range length).map fun i => ram (addr + i)) else none

def memWrite (ram : ℕ → Byte) (addr : ℕ) (data : List Byte) : Option (ℕ → Byte) :=
  if InRam addr data.length then
    some fun a => if addr ≤ a then data.getD (a - addr) (ram a) else ram a
  else none

/-! ## The controller -/

/-- `DWMMC`, with the board's memory. -/
structure Dwmmc where
  card : Option SDCard
  regs : ℕ → Option ℕ
  rintsts : ℕ
  data : List Byte
  pos : ℕ
  ram : ℕ → Byte

namespace Dwmmc

def fifoWords : ℕ := 32

def rCtrl : ℕ := 0x00
def rBytcnt : ℕ := 0x20
def rIntmask : ℕ := 0x24
def rCmdarg : ℕ := 0x28
def rCmd : ℕ := 0x2C
def rResp0 : ℕ := 0x30
def rMintsts : ℕ := 0x40
def rRintsts : ℕ := 0x44
def rStatus : ℕ := 0x48
def rBmod : ℕ := 0x80
def rDbaddr : ℕ := 0x88
def rIdsts : ℕ := 0x8C
def rData : ℕ := 0x200

def CD : ℕ := 1 <<< 2
def DTO : ℕ := 1 <<< 3
def RXDR : ℕ := 1 <<< 5
def RTO : ℕ := 1 <<< 8
def ACD : ℕ := 1 <<< 14

/-- `DWMMC.__init__`. -/
def init (card : Option SDCard) (ram : ℕ → Byte) : Dwmmc where
  card := card
  regs off :=
    if off = rStatus then some 0
    else if off = 0x6C then some 0x5342270A
    else if off = 0x70 then some 0x00E43481
    else none
  rintsts := 0
  data := []
  pos := 0
  ram := ram

def remaining (s : Dwmmc) : ℕ := (s.data.length - s.pos) / 4

def updateDataIrqs (s : Dwmmc) : Dwmmc :=
  let s := if s.remaining > 0 then { s with rintsts := s.rintsts ||| RXDR } else s
  if s.data ≠ [] ∧ s.remaining ≤ fifoWords then { s with rintsts := s.rintsts ||| DTO } else s

def status (s : Dwmmc) : ℕ :=
  let n := min s.remaining fifoWords
  (n <<< 17) ||| (if n ≠ 0 then 0 else 1 <<< 2) ||| (1 <<< 8)

/-- A read of the data register. -/
def popData (s : Dwmmc) : ℕ × Dwmmc :=
  if s.pos + 4 > s.data.length then (0, s) else
  let v := (wordAt s.data s.pos).toNat
  let s := { s with pos := s.pos + 4 }
  (v, if s.remaining = 0 then { s with data := [], pos := 0 } else s)

def read (s : Dwmmc) (off : ℕ) : ℕ × Dwmmc :=
  if off = rRintsts then (s.rintsts, s)
  else if off = rMintsts then (s.rintsts &&& (s.regs rIntmask).getD 0, s)
  else if off = rStatus then (s.status, s)
  else if rData ≤ off then s.popData
  else ((s.regs off).getD 0, s)

/-- The loop of `idmac` over a chain of descriptors `{flags, size, buffer, next}`. -/
def idmacLoop (data : List Byte) : ℕ → ℕ → ℕ → (ℕ → Byte) → Option (ℕ → Byte)
  | 0, _, _, ram => some ram
  | k + 1, addr, pos, ram => do
    let descriptor ← memRead ram addr 16
    let flags := (wordAt descriptor 0).toNat
    let size := (wordAt descriptor 4).toNat
    let buf := (wordAt descriptor 8).toNat
    let nxt := (wordAt descriptor 12).toNat
    if !flags.testBit 31 then return ram
    let n := size &&& 0x1FFF
    let ram ← memWrite ram buf ((data.drop pos).take n)
    let ram ← memWrite ram addr (leBytes (BitVec.ofNat 32 (flags.ldiff (1 <<< 31))))
    if flags.testBit 2 then return ram
    idmacLoop data k (if flags.testBit 4 then nxt else addr + 16) (pos + n) ram

def idmac (s : Dwmmc) (data : List Byte) : Option Dwmmc := do
  let ram ← idmacLoop data 4096 ((s.regs rDbaddr).getD 0) 0 s.ram
  return { s with
    ram
    rintsts := s.rintsts ||| DTO
    regs := Function.update s.regs rIdsts (some ((s.regs rIdsts).getD 0 ||| 0x102)) }

/-- `regs[R_RESP0 + 4 * i] = w`, from the `i`-th word on. -/
def storeResp (regs : ℕ → Option ℕ) (i : ℕ) : List ℕ → ℕ → Option ℕ
  | [] => regs
  | w :: ws => storeResp (Function.update regs (rResp0 + 4 * i) (some w)) (i + 1) ws

/-- The internal DMA takes the data of commands. -/
def dmaEnabled (s : Dwmmc) : Bool :=
  ((s.regs rCtrl).getD 0).testBit 25 && ((s.regs rBmod).getD 0).testBit 7

/-- Where `execute` takes the data of a command. -/
def deliver (s : Dwmmc) (data : List Byte) : Option Dwmmc :=
  if s.dmaEnabled then s.idmac data else some { s with data, pos := 0 }.updateDataIrqs

def execute (s : Dwmmc) (cmd : ℕ) : Option Dwmmc :=
  if cmd.testBit 21 then some s else
  let idx := cmd &&& 0x3F
  let arg := (s.regs rCmdarg).getD 0
  match s.card with
  | none => some { s with rintsts := s.rintsts ||| (CD ||| RTO) }
  | some card =>
    match card.command idx arg with
    | (none, _, card) =>
      some { s with card := some card, rintsts := s.rintsts ||| (CD ||| RTO) }
    | (some resp, none, card) =>
      some { s with
        card := some card
        regs := storeResp s.regs 0 resp
        rintsts := s.rintsts ||| CD }
    | (some resp, some (.bytes bs), card) =>
      deliver { s with
        card := some card
        regs := storeResp s.regs 0 resp
        rintsts := s.rintsts ||| CD } bs
    | (some resp, some .read, card) =>
      let regs := storeResp s.regs 0 resp
      deliver { s with
        card := some { card with state := 4 }
        regs
        rintsts := if cmd.testBit 12 then s.rintsts ||| CD ||| ACD else s.rintsts ||| CD }
        (card.read (arg * 512) ((regs rBytcnt).getD 512))

/-- A write of `CTRL` resets the FIFO if it asks for that, and keeps no reset bit. -/
def writeCtrl (s : Dwmmc) (val : ℕ) : Dwmmc :=
  let s := if val.testBit 1 then { s with data := [], pos := 0 } else s
  { s with regs := Function.update s.regs rCtrl (some (val.ldiff 0x7)) }

/-- A write of `CMD` executes the command, if it starts one. -/
def writeCmd (s : Dwmmc) (val : ℕ) : Option Dwmmc :=
  if val.testBit 31 then
    execute { s with regs := Function.update s.regs rCmd (some (val.ldiff (1 <<< 31))) } val
  else some { s with regs := Function.update s.regs rCmd (some val) }

def write (s : Dwmmc) (off val : ℕ) : Option Dwmmc :=
  if off = rRintsts then some { s with rintsts := s.rintsts.ldiff val }.updateDataIrqs
  else if off = rCtrl then some (s.writeCtrl val)
  else if rData ≤ off then some s
  else if off = rCmd then s.writeCmd val
  else some { s with regs := Function.update s.regs off (some val) }

/-! ## Guests -/

inductive GuestAction where
  | read (off : ℕ)
  | write (off val : ℕ)
  /-- The guest computes; the board's memory is any other. -/
  | compute (ram : ℕ → Byte)

def step (s : Dwmmc) : GuestAction → Option Dwmmc
  | .read off => some (s.read off).2
  | .write off val => s.write off val
  | .compute ram => some { s with ram }

/-- The states a guest can bring the controller with this card image to. -/
def Reachable (image : List Byte) (s : Dwmmc) : Prop :=
  ∃ ram as, Lts.run step (init (some { image }) ram) as = some s

def inTransfer (s : Dwmmc) : Prop := ∃ card, s.card = some card ∧ card.state = 4

def fifoEmpty (s : Dwmmc) : Prop := s.remaining = 0

end Dwmmc

end Gec6818Bl1.Emulator
