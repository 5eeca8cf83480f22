import Gec6818Bl1.Boot.Division
import Gec6818Bl1.Clock.ResetCon
import Gec6818Bl1.Lib.ByteMem
import Gec6818Bl1.Lib.ExactArith
import Gec6818Bl1.Lib.RegTrace

/-!
# The boot screen

`display.c`: `DisplayInit` puts up a title and an empty progress bar, `DisplayStep` adds a line and
moves the bar, and both wait while the bar grows.

Registers are known by their addresses and give any reading at any time, the timer's among them. A
call leaves its stores to the two framebuffers, its arithmetic and what it has set the bar to in the
`Screen`, oldest first. The arithmetic on the timer's readings is kept apart from the rest.

The glyphs are a parameter. A text is its bytes, for `DisplayStep` those that `sprint_va` leaves.
-/

namespace Gec6818Bl1.Display

open ByteMem RegTrace

abbrev U32 := BitVec 32

abbrev History := List (Access (ℕ × ℕ) ℕ U32)

/-- The value of each reading, told by the address and the time. -/
abbrev Readings := ℕ × ℕ → U32

/-- `BOOT_LOGO_DELAY_MS`, and `LCD_BACKLIGHT_LEVEL` where it is defined. -/
structure Config where
  bootLogoDelayMs : U32
  lcdBacklightLevel : Option U32

/-! ## The panel and the framebuffers -/

def lcdWidth : ℕ := 800
def lcdHeight : ℕ := 480
def lcdHfp : ℕ := 80
def lcdHbp : ℕ := 36
def lcdHsw : ℕ := 10
def lcdVfp : ℕ := 22
def lcdVbp : ℕ := 15
def lcdVsw : ℕ := 8
def lcdFreq : ℕ := 61
def lcdPllHz : ℕ := 800000000

def lcdClkDiv : ℕ :=
  lcdPllHz / ((lcdHsw + lcdHbp + lcdHfp + lcdWidth) * (lcdVsw + lcdVbp + lcdVfp + lcdHeight) *
    lcdFreq)

def fbBase : ℕ := 0x46000000
def fbBar : ℕ := fbBase + lcdWidth * lcdHeight * 4
def bgColor : U32 := 0x000000
def fgColor : U32 := 0xFFFFFF
def fontWidth : ℕ := 8
def fontHeight : ℕ := 16
def fontFirst : Byte := 0x20
def fontLast : Byte := 0x7E
def textScale : ℕ := 2
def glyphW : ℕ := fontWidth * textScale
def glyphH : ℕ := fontHeight * textScale
def textCols : ℕ := lcdWidth / glyphW
def textRows : ℕ := 12
def textTop : ℕ := 16

def barColor : U32 := 0x3399FF
def barX : ℕ := 40
def barY : ℕ := textTop + textRows * glyphH + 24
def barW : ℕ := lcdWidth - 2 * barX
def barH : ℕ := 24
def barBorder : ℕ := 2
def barInset : ℕ := 2 * barBorder
def barFillW : ℕ := barW - 2 * barInset

/-! ## Registers -/

def timer : ℕ := 0xC0017000
def timerTcfg0 : ℕ := timer + 0x00
def timerTcfg1 : ℕ := timer + 0x04
def timerTcon : ℕ := timer + 0x08
def timerTcntb0 : ℕ := timer + 0x0C
def timerTcmpb0 : ℕ := timer + 0x10
def timerTcnto0 : ℕ := timer + 0x14
def timerPclkHz : ℕ := 200000000

def disptopTftmpuMux : ℕ := 0xC0101024
def mlc0 : ℕ := 0xC0102000
def dpc0 : ℕ := 0xC0102800

def mlccontrolt : ℕ := mlc0 + 0x000
def mlcscreensize : ℕ := mlc0 + 0x004
def mlcbgcolor : ℕ := mlc0 + 0x008
def mlcrgb (l off : ℕ) : ℕ := mlc0 + 0x00C + l * 0x34 + off
def rgbLeftright : ℕ := 0x00
def rgbTopbottom : ℕ := 0x04
def rgbInvalid0Lr : ℕ := 0x08
def rgbControl : ℕ := 0x18
def rgbHstride : ℕ := 0x1C
def rgbVstride : ℕ := 0x20
def rgbTpcolor : ℕ := 0x24
def rgbInvcolor : ℕ := 0x28
def rgbAddress : ℕ := 0x2C
def mlcgammacont : ℕ := mlc0 + 0x0F0
def mlcclkenb : ℕ := mlc0 + 0x3C0

def mlcTopDirty : U32 := 1#32 <<< 3
def mlcRgbDirty : U32 := 1#32 <<< 4
def mlcFmtXrgb8888 : U32 := 0x06530000

def dpchtotal : ℕ := dpc0 + 0x0F8
def dpcvtotal : ℕ := dpc0 + 0x108
def dpcctrl0 : ℕ := dpc0 + 0x118
def dpcctrl1 : ℕ := dpc0 + 0x11C
def dpcevtotal : ℕ := dpc0 + 0x120
def dpcctrl2 : ℕ := dpc0 + 0x130
def dpcvseoffset : ℕ := dpc0 + 0x134
def dpcdelay0 : ℕ := dpc0 + 0x144
def dpcdelay1 : ℕ := dpc0 + 0x178
def dpcclkenb : ℕ := dpc0 + 0x3C0
def dpcclkgen (i j : ℕ) : ℕ := dpc0 + 0x3C4 + i * 8 + j * 4

def dpcIntpend : U32 := 1#32 <<< 10

def gpioa : ℕ := 0xC001A000
def gpiod : ℕ := 0xC001D000
def gpioOut : ℕ := 0x00
def gpioOutenb : ℕ := 0x04
def gpioAltfn0 : ℕ := 0x20
def gpioAltfn1 : ℕ := 0x24
def gpioDrv1 : ℕ := 0x48
def gpioDrv0 : ℕ := 0x50
def gpioPullsel : ℕ := 0x58
def gpioPullselDd : ℕ := 0x5C
def gpioPullenb : ℕ := 0x60
def gpioPullenbDd : ℕ := 0x64

/-- `REGRST` of the reset controller. -/
def regrst (i : ℕ) : ℕ := 0xC0012000 + 4 * i

abbrev RegOp := RegTrace.Op ℕ U32

def rmw (addr : ℕ) (clear set : U32) : RegOp := .modify addr fun v => v &&& ~~~clear ||| set

/-- `ResetCon`. -/
def resetCon (devicenum : U32) (en : Bool) : RegOp :=
  resetConOn (fun i => regrst i.toNat) devicenum en

def lcdGpioInit (lcdBacklightLevel : Option U32) : List RegOp :=
  let pins := 0x0FFFFFFF
  [.write (gpioa + gpioAltfn0) 0x55555555,
    rmw (gpioa + gpioAltfn1) 0x00FFFFFF 0x00555555,
    rmw (gpioa + gpioPullselDd) 0 pins,
    rmw (gpioa + gpioPullenbDd) 0 pins,
    rmw (gpioa + gpioPullenb) pins 0,
    rmw (gpioa + gpioPullsel) pins 0,
    rmw (gpioa + gpioDrv1) pins 0x0E000001,
    rmw (gpioa + gpioDrv0) pins 0x01FFFFFE] ++
  match lcdBacklightLevel with
  | none => []
  | some level =>
    [rmw (gpiod + gpioAltfn0) (3#32 <<< 2) 0,
      rmw (gpiod + gpioOut) (1#32 <<< 1) (level <<< 1),
      rmw (gpiod + gpioOutenb) 0 (1#32 <<< 1)]

def layerSetup (l : ℕ) (x y w h fb : U32) : List RegOp :=
  [rmw (mlcrgb l rgbControl) (0xFFFF0000#32 ||| 3#32 <<< 12 ||| mlcRgbDirty ||| 7)
      (mlcFmtXrgb8888 ||| 2#32 <<< 12),
    rmw (mlcrgb l rgbTpcolor) 0xF0FFFFFF (15#32 <<< 28),
    rmw (mlcrgb l rgbInvcolor) 0x00FFFFFF 0] ++
  (List.range 4).map (fun i => .write (mlcrgb l rgbInvalid0Lr + i * 4) 0) ++
  [.write (mlcrgb l rgbLeftright) (x <<< 16 ||| (x + w - 1)),
    .write (mlcrgb l rgbTopbottom) (y <<< 16 ||| (y + h - 1)),
    .write (mlcrgb l rgbHstride) 4,
    .write (mlcrgb l rgbVstride) (w * 4),
    .write (mlcrgb l rgbAddress) fb,
    rmw (mlcrgb l rgbControl) mlcRgbDirty (1#32 <<< 5),
    rmw (mlcrgb l rgbControl) 0 mlcRgbDirty]

def timerInit : List RegOp :=
  [rmw timerTcfg0 0xFF (BitVec.ofNat 32 (timerPclkHz / 1000000 - 1)),
    rmw timerTcfg1 0xF 0,
    .write timerTcntb0 0xFFFFFFFF,
    .write timerTcmpb0 0xFFFFFFFF,
    rmw timerTcon 0xF (1#32 <<< 1),
    rmw timerTcon 0xF (1#32 <<< 3 ||| 1)]

/-- `show_rows`. -/
def showRows (rows : U32) : List RegOp :=
  [.write (mlcrgb 1 rgbTopbottom) (BitVec.ofNat 32 textTop <<< 16 |||
      (BitVec.ofNat 32 textTop + rows * BitVec.ofNat 32 glyphH - 1)),
    rmw (mlcrgb 1 rgbControl) 0 mlcRgbDirty]

/-- The registers that `DisplayInit` sets between `bar_init` and `timer_init`. -/
def displaySetup (lcdBacklightLevel : Option U32) : List RegOp :=
  let u := BitVec.ofNat 32
  lcdGpioInit lcdBacklightLevel ++
  -- dp_control_init, dp_plane_init, dp_plane_screen_setup
  [resetCon 9 true, resetCon 9 false, resetCon 10 true, resetCon 10 false,
    rmw dpcclkenb (1#32 <<< 3) (1#32 <<< 3),
    rmw mlcclkenb (1#32 <<< 3 ||| 3) (1#32 <<< 3 ||| 3),
    .write mlcscreensize (u (lcdHeight - 1) <<< 16 ||| u (lcdWidth - 1)),
    rmw mlccontrolt (3#32 <<< 8 ||| mlcTopDirty ||| 1) 0,
    .write mlcbgcolor bgColor,
    rmw mlcgammacont 0xF2F 0,
    rmw mlccontrolt mlcTopDirty (1#32 <<< 11 ||| 1#32 <<< 10)] ++
  layerSetup 1 0 (u textTop) (u lcdWidth) (2 * u glyphH) (u fbBase) ++
  layerSetup 0 (u barX) (u barY) (u barW) (u barH) (u fbBar) ++
  -- dp_plane_screen_enable, rgb_switch, dp_control_setup
  [rmw mlccontrolt mlcTopDirty (1#32 <<< 1),
    rmw mlccontrolt 0 mlcTopDirty,
    .write disptopTftmpuMux 0,
    rmw (dpcclkgen 0 0) (7#32 <<< 2 ||| 0xFF#32 <<< 5) (6#32 <<< 2 ||| u (lcdClkDiv - 1) <<< 5),
    rmw (dpcclkgen 1 0) (7#32 <<< 2 ||| 0xFF#32 <<< 5) (7#32 <<< 2),
    rmw (dpcclkgen 0 1) 0x1F 0,
    rmw (dpcclkgen 1 1) 0x1F 0,
    -- nx_dpc_set_mode
    rmw dpcctrl0 (dpcIntpend ||| 1#32 <<< 9 ||| 1#32 <<< 8 ||| 1#32 <<< 2) (1#32 <<< 12),
    .modify dpcctrl1 fun v => v &&& 0x3F ||| 2#32 <<< 8 ||| 1#32 <<< 13,
    rmw dpcctrl2 (1#32 <<< 4) 0,
    rmw dpcctrl2 (3#32 <<< 0 ||| 3#32 <<< 7) 0,
    rmw (dpcclkgen 0 0) (1#32 <<< 1) 0,
    rmw (dpcclkgen 1 0) (1#32 <<< 1) 0,
    -- nx_dpc_set_hsync, nx_dpc_set_vsync
    .write (dpchtotal + 0x0) (u (lcdHsw + lcdHbp + lcdWidth + lcdHfp - 1)),
    .write (dpchtotal + 0x4) (u (lcdHsw - 1)),
    .write (dpchtotal + 0x8) (u (lcdHsw + lcdHbp - 1)),
    .write (dpchtotal + 0xC) (u (lcdHsw + lcdHbp + lcdWidth - 1)),
    rmw dpcctrl0 (dpcIntpend ||| 1#32 <<< 0) 0] ++
  [dpcvtotal, dpcevtotal].flatMap (fun base =>
    [.write (base + 0x0) (u (lcdVsw + lcdVbp + lcdHeight + lcdVfp - 1)),
      .write (base + 0x4) (u (lcdVsw - 1)),
      .write (base + 0x8) (u (lcdVsw + lcdVbp - 1)),
      .write (base + 0xC) (u (lcdVsw + lcdVbp + lcdHeight - 1))]) ++
  [rmw dpcctrl0 (dpcIntpend ||| 1#32 <<< 1) 0] ++
  (List.range 4).map (fun i => .write (dpcvseoffset + i * 4) 1) ++
  -- nx_dpc_set_delay, nx_dpc_set_dither, dp_control_enable
  [rmw dpcctrl0 (dpcIntpend ||| 0xF#32 <<< 4) 0,
    .write dpcdelay0 (7#32 <<< 8 ||| 7),
    .write dpcdelay1 7,
    rmw dpcctrl1 0x3F 0x3F,
    rmw dpcctrl0 (dpcIntpend ||| 1#32 <<< 15) (1#32 <<< 15),
    rmw dpcclkenb (1#32 <<< 2) (1#32 <<< 2)]

/-! ## Drawing -/

/-- The stores of a call: the address and the color. -/
abbrev Stores := List (ℕ × U32)

/-- `for (i = i0; i < i1; i++)`. -/
def upTo (i0 i1 : U32) : List U32 :=
  (List.range' i0.toNat (i1.toNat - i0.toNat)).map (BitVec.ofNat 32)

/-- How many characters of the string `s` fit. -/
def rowLen (s : List Byte) : ℕ := min (s.takeWhile (· != 0)).length (textCols - 2)

/-- What stands in column `col`, as the index of its glyph. -/
def rowGlyph (s : List Byte) (center : Bool) (col : ℕ) : ℕ :=
  let len := rowLen s
  let pad := if center then (textCols - len) / 2 else 1
  let c := if pad ≤ col ∧ col - pad < len then s.getD (col - pad) 0 else 0x20
  let c := if c < fontFirst ∨ c > fontLast then 0x3F else c
  (c - fontFirst).toNat

/-- `draw_row`. -/
def drawRow (font8x16 : ℕ → ℕ → Byte) (row : U32) (s : List Byte) (center : Bool) : Stores :=
  let fb := fbBase + 4 * (row * BitVec.ofNat 32 glyphH * BitVec.ofNat 32 lcdWidth).toNat
  (List.range textCols).flatMap fun col =>
    (List.range glyphH).flatMap fun y =>
      let bits := font8x16 (rowGlyph s center col) (y / textScale)
      (List.range glyphW).map fun x =>
        (fb + 4 * (glyphW * col) + 4 * (y * lcdWidth) + 4 * x,
          if bits &&& (0x80 >>> (x / textScale)) ≠ 0 then fgColor else bgColor)

/-- `bar_rect`. -/
def barRect (x0 y0 x1 y1 color : U32) : Stores :=
  (upTo y0 y1).flatMap fun y =>
    (upTo x0 x1).map fun x => (fbBar + 4 * (y * BitVec.ofNat 32 barW + x).toNat, color)

/-- `bar_init`. -/
def barInit : Stores :=
  let u := BitVec.ofNat 32
  barRect 0 0 (u barW) (u barH) fgColor ++
    barRect (u barBorder) (u barBorder) (u (barW - barBorder)) (u (barH - barBorder)) bgColor

/-! ## The screen -/

/-- What `bar_shown` and `bar_target` are set to, and whether that starts them anew. -/
structure Bar where
  anew : Bool
  shown : U32
  target : U32

/-- The static variables, and what the calls have done. -/
structure Screen where
  barShown : U32
  barTarget : U32
  nextRow : ℤ
  log : History
  stores : Stores
  bars : List Bar
  ops : List (ExactArith.Op 32)
  timerOps : List (ExactArith.Op 32)

/-- Before the first call. Not every boot path clears `bar_shown` and `bar_target`. -/
def Screen.boot (barShown barTarget : U32) : Screen where
  barShown
  barTarget
  nextRow := -1
  log := []
  stores := []
  bars := []
  ops := []
  timerOps := []

namespace Screen

def draw (s : Screen) (stores : Stores) : Screen := { s with stores := s.stores ++ stores }

def setBar (s : Screen) (anew : Bool) (barShown barTarget : U32) : Screen :=
  { s with barShown, barTarget, bars := s.bars ++ [⟨anew, barShown, barTarget⟩] }

def setNextRow (s : Screen) (nextRow : ℤ) : Screen := { s with nextRow }

def exec (rd : Readings) (s : Screen) (ops : List RegOp) : Screen :=
  { s with log := RegTrace.exec rd Prod.mk ops s.log }

def perform (s : Screen) (op : ExactArith.Op 32) : U32 × Screen :=
  (op.eval, { s with ops := s.ops ++ [op] })

def performTimer (s : Screen) (op : ExactArith.Op 32) : U32 × Screen :=
  (op.eval, { s with timerOps := s.timerOps ++ [op] })

def readIO32 (rd : Readings) (s : Screen) (addr : ℕ) : U32 × Screen :=
  (rd (addr, s.log.length), { s with log := s.log ++ [.read (addr, s.log.length)] })

end Screen

section Calls

variable (rd : Readings) (mode : OpMode) (fuel : ℕ)

/-- A call of `getquotient`. -/
def quotient (dividend divisor : U32) (s : Screen) : Option (U32 × Screen) :=
  (getquotient mode fuel dividend divisor).map fun q =>
    (q, { s with ops := s.ops ++ [.div dividend divisor] })

/-- `bar_grow`. -/
def barGrow («to» : U32) (s : Screen) : Screen :=
  let u := BitVec.ofNat 32
  if «to» ≤ s.barShown then s else
    (s.draw (barRect (u barInset + s.barShown) (u barInset) (u barInset + «to»)
      (u (barH - barInset)) barColor)).setBar false «to» s.barTarget

/-- One round of the loop of `delay_ms`, with `t` at its end. -/
def delayRound (ms start «from» : U32) (s : Screen) : Option (U32 × Screen) := do
  let (now, s) := s.readIO32 rd timerTcnto0
  let (elapsed, s) := s.performTimer (.sub start now)
  let (t, s) ← quotient mode fuel elapsed 1000 s
  let t := if t > ms then ms else t
  if t = ms then return (t, barGrow s.barTarget s)
  let (left, s) := s.perform (.sub s.barTarget «from»)
  let (product, s) := s.perform (.mul left t)
  let (grown, s) ← quotient mode fuel product ms s
  let («to», s) := s.perform (.add «from» grown)
  return (t, barGrow «to» s)

/-- `while (t < ms)`. -/
def delayBody (ms start «from» : U32) (s : Screen) : Screen ⊕ Option Screen :=
  match delayRound rd mode fuel ms start «from» s with
  | none => .inr none
  | some (t, s) => if t < ms then .inl s else .inr (some s)

/-- `delay_ms`. -/
def delayMs (ms : U32) (s : Screen) : Option Screen :=
  let (start, s) := s.readIO32 rd timerTcnto0
  (Polling.run (delayBody rd mode fuel ms start s.barShown) fuel s).join

variable (cfg : Config) (font8x16 : ℕ → ℕ → Byte)

/-- `DisplayInit`. -/
def displayInit (title : List Byte) (s : Screen) : Option Screen :=
  let s := s.draw (drawRow font8x16 0 title true)
  let s := s.draw (drawRow font8x16 1 [] false)
  let s := s.setBar true 0 0
  let s := s.draw barInit
  let s := s.exec rd (displaySetup cfg.lcdBacklightLevel)
  let s := s.exec rd timerInit
  delayMs rd mode fuel cfg.bootLogoDelayMs (s.setNextRow 2)

/-- `if (target > bar_target) bar_target = target;`. -/
def raiseTarget (target : U32) (s : Screen) : Screen :=
  if target > s.barTarget then s.setBar false s.barShown target else s

/-- From `if (next_row == TEXT_ROWS)` to `show_rows`. -/
def putRow (buf : List Byte) (s : Screen) : Screen :=
  let nextRow := if s.nextRow = textRows then s.nextRow - 1 else s.nextRow
  let s := s.draw (drawRow font8x16 (BitVec.ofInt 32 nextRow) buf false)
  let s := s.setNextRow (nextRow + 1)
  s.exec rd (showRows (BitVec.ofInt 32 s.nextRow))

/-- `DisplayStep`, with what `sprint_va` has left in `buf`. -/
def displayStep (percent : U32) (buf : List Byte) (s : Screen) : Option Screen := do
  if s.nextRow < 0 then return s
  let (product, s) :=
    s.perform (.mul (if percent > 100 then 100 else percent) (BitVec.ofNat 32 barFillW))
  let (target, s) ← quotient mode fuel product 100 s
  let s := raiseTarget target s
  let s := putRow rd font8x16 buf s
  delayMs rd mode fuel cfg.bootLogoDelayMs s

inductive Call where
  | init (title : List Byte)
  | step (percent : U32) (buf : List Byte)

/-- One call, if it returns. -/
def call (s : Screen) : Call → Option Screen
  | .init title => displayInit rd mode fuel cfg font8x16 title s
  | .step percent buf => displayStep rd mode fuel cfg font8x16 percent buf s

end Calls

end Gec6818Bl1.Display
