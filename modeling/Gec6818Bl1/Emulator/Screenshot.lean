import Gec6818Bl1.Emulator.Dwmmc
import Gec6818Bl1.Lib.Raster
import Gec6818Bl1.Lib.RegBus

/-!
# The emulator's picture of the screen

`Board.screenshot` of `s5p6818_emu.py` renders what the panel would show from the registers of the
display's `MLC` and from memory: a background colour, and over it the two layers that can be
enabled, each clipped to the screen. A layer in another format is left out, and one that leaves the
RAM ends there.

The picture is written byte by byte and line by line; as a picture it is the layers one on top of
the other, whatever the registers say (`screenshot_eq`).
-/

namespace Gec6818Bl1.Emulator

open ByteMem Raster

abbrev Regs := ℕ → Word

namespace Board

/-! ## Registers -/

def clkpwr : ℕ := 0xC0010000
def clkmodereg0 : ℕ := 0x000
def pwrmode : ℕ := 0x228
def cpuwarmresetreq : ℕ := 0x2AC
def uartBases : List ℕ :=
  [0xC00A1000, 0xC00A0000, 0xC00A2000, 0xC00A3000, 0xC006D000, 0xC006F000]
def sdmmcBases : List ℕ := [0xC0062000, 0xC0068000, 0xC0069000]
def drex : ℕ := 0xC00E0000
def ddrphy : ℕ := 0xC00E1000
def cci400 : ℕ := 0xE0090000
def timer : ℕ := 0xC0017000
def gmac : ℕ := 0xC0060000
def gpioc : ℕ := 0xC001C000
def gicd : ℕ := 0xC0009000
def mlc0 : ℕ := 0xC0102000

/-- `addr` belongs to one of the objects that emulate a device. -/
def device (addr : ℕ) : Prop := addr / 0x1000 * 0x1000 ∈ uartBases ++ sdmmcBases ++ [timer, gpioc]

instance (addr : ℕ) : Decidable (device addr) := inferInstanceAs (Decidable (_ ∈ _))

/-- `mmio_read`, for the registers that are only kept. -/
def mmioRead (regs : Regs) (addr : ℕ) : Word :=
  let v := regs (addr / 4 * 4)
  if addr = clkpwr + clkmodereg0 then v &&& ~~~(1#32 <<< 31)
  else if addr = clkpwr + pwrmode then v &&& ~~~(1#32 <<< 15)
  else if addr = drex + 0x040 then v ||| 1#32 <<< 3 ||| 1#32 <<< 2
  else if addr = drex + 0x048 then 0
  else if addr = ddrphy + 0x0C4 then v ||| 1
  else if addr = ddrphy + 0x0B4 then v ||| 7
  else if addr = cci400 + 0x0C then 0
  else if addr = gmac + 0x10 then v &&& ~~~1
  else if addr = gmac + 0x14 then 0xFFFF
  else if addr = gmac + 0x1000 then v &&& ~~~1
  else if gicd + 0x800 ≤ addr ∧ addr < gicd + 0x820 then 0x01010101
  else v

/-- `mmio_write`, likewise. -/
def mmioWrite (regs : Regs) (addr : ℕ) (value : Word) : Regs :=
  if device addr then regs
  else if addr = clkpwr + cpuwarmresetreq ∧ value.getLsbD 0 then
    Function.update regs (addr / 4 * 4) (value &&& ~~~1)
  else Function.update regs (addr / 4 * 4) value

def bus : Polling.Bus ℕ Word Regs where
  read addr regs := (mmioRead regs addr, regs)
  write addr value regs := mmioWrite regs addr value

/-! ## The screenshot -/

/-- A register of the `MLC`, a Python integer. -/
def reg (regs : Regs) (off : ℕ) : ℕ := (regs (mlc0 + off)).toNat

/-- The lines from `y` on, `n` points of each. `none` of `mem_read` is its exception. -/
def drawLines (ram : ℕ → Byte) (w sx sy vstride addr n : ℕ) : List ℕ → List Byte → List Byte
  | [], img => img
  | y :: ys, img =>
    match memRead ram (addr + (y - sy) * vstride) (n * 4) with
    | none => img
    | some row =>
      let rgb := (List.range n).flatMap fun i =>
        [row.getD (4 * i + 2) 0, row.getD (4 * i + 1) 0, row.getD (4 * i) 0]
      drawLines ram w sx sy vstride addr n ys (Splice.splice 0 img ((y * w + sx) * 3) rgb)

/-- One turn of `for layer in (0, 1)`. -/
def drawLayer (regs : Regs) (ram : ℕ → Byte) (w h : ℕ) (img : List Byte) (layer : ℕ) :
    List Byte :=
  let base := 0x0C + layer * 0x34
  let ctrl := reg regs (base + 0x18)
  if ctrl &&& (1 <<< 5) = 0 then img
  else if ctrl >>> 16 ≠ 0x0653 then img
  else
    let lr := reg regs base
    let tb := reg regs (base + 0x04)
    let sx := (lr >>> 16) &&& 0xFFF
    let ex := min (lr &&& 0xFFF) (w - 1)
    let sy := (tb >>> 16) &&& 0xFFF
    let ey := min (tb &&& 0xFFF) (h - 1)
    let vstride := reg regs (base + 0x20)
    let addr := reg regs (base + 0x2C)
    let n := ex + 1 - sx
    if n = 0 then img
    else drawLines ram w sx sy vstride addr n (List.range' sy (ey + 1 - sy)) img

/-- What `write_png` is given. -/
structure Image where
  w : ℕ
  h : ℕ
  img : List Byte

/-- The three bytes of a colour, red first. -/
def rgb (v : Word) : List Byte := [v.extractLsb' 16 8, v.extractLsb' 8 8, v.extractLsb' 0 8]

/-- `screenshot`. -/
def screenshot (regs : Regs) (ram : ℕ → Byte) : Image :=
  let size := reg regs 0x04
  let w := (size &&& 0x7FF) + 1
  let h := ((size >>> 16) &&& 0x7FF) + 1
  let img := (List.replicate (w * h) (rgb (regs (mlc0 + 0x08) &&& 0xFFFFFF))).flatten
  { w, h, img := [0, 1].foldl (drawLayer regs ram w h) img }

/-! ## What is in the picture -/

/-- A layer, as its registers describe it. Its edges are points of the layer. -/
structure Layer where
  enabled : Bool
  format : ℕ
  left : ℕ
  right : ℕ
  top : ℕ
  bottom : ℕ
  vstride : ℕ
  addr : ℕ

def Layer.ofRegs (regs : Regs) (layer : ℕ) : Layer where
  enabled := (reg regs (0x0C + layer * 0x34 + 0x18)).testBit 5
  format := reg regs (0x0C + layer * 0x34 + 0x18) >>> 16
  left := (reg regs (0x0C + layer * 0x34) >>> 16) &&& 0xFFF
  right := reg regs (0x0C + layer * 0x34) &&& 0xFFF
  top := (reg regs (0x0C + layer * 0x34 + 0x04) >>> 16) &&& 0xFFF
  bottom := reg regs (0x0C + layer * 0x34 + 0x04) &&& 0xFFF
  vstride := reg regs (0x0C + layer * 0x34 + 0x20)
  addr := reg regs (0x0C + layer * 0x34 + 0x2C)

namespace Layer

variable (l : Layer) (ram : ℕ → Byte) (w : ℕ)

/-- Where line `y` of the screen is in memory. -/
def line (y : ℕ) : ℕ := l.addr + (y - l.top) * l.vstride

/-- How much of a line is on a screen of `w` columns. -/
def width : ℕ := min l.right (w - 1) + 1 - l.left

/-- The point is on the layer, and the layer is in RAM from its first line to the point's. -/
def Shows (x y : ℕ) : Prop :=
  (l.enabled = true ∧ l.format = 0x0653) ∧ (l.left ≤ x ∧ x ≤ l.right) ∧
    (l.top ≤ y ∧ y ≤ l.bottom) ∧ ∀ y' ≤ y, l.top ≤ y' → InRam (l.line y') (l.width w * 4)

instance (x y : ℕ) : Decidable (l.Shows w x y) := by unfold Shows; infer_instance

/-- The colour of a point of the layer. -/
def color (x y : ℕ) : Word := word ram (l.line y + 4 * (x - l.left))

end Layer

section Picture

variable {regs : Regs} {ram : ℕ → Byte} {w h : ℕ}

theorem and_bit_eq_zero_iff (n : ℕ) : n &&& (1 <<< 5) = 0 ↔ n.testBit 5 = false := by
  rw [Nat.one_shiftLeft, Nat.and_two_pow]
  cases n.testBit 5 <;> simp

theorem rgb_word (m : ℕ → Byte) (a : ℕ) : rgb (word m a) = [m (a + 2), m (a + 1), m a] := by
  simp only [rgb, word, List.cons.injEq, and_true]
  refine ⟨?_, ?_, ?_⟩ <;>
  · ext i hi
    simp only [BitVec.getElem_extractLsb', BitVec.getLsbD_append]
    grind

/-- The bytes of a line of words. -/
theorem row_rgb {addr n : ℕ} {row : List Byte} (h : memRead ram addr (n * 4) = some row) :
    ((List.range n).flatMap fun i =>
      [row.getD (4 * i + 2) 0, row.getD (4 * i + 1) 0, row.getD (4 * i) 0]) =
      (List.range n).flatMap fun i => rgb (word ram (addr + 4 * i)) := by
  obtain ⟨-, heq⟩ := Option.ite_none_right_eq_some.1 h
  obtain rfl := Option.some.inj heq
  apply List.flatMap_congr
  intro i hi
  have hi := List.mem_range.1 hi
  have hbyte {k : ℕ} (hk : k < 4) :
      ((List.range (n * 4)).map fun i => ram (addr + i)).getD (4 * i + k) 0 =
        ram (addr + 4 * i + k) := by
    rw [List.getD_eq_getElem _ _ (by rw [List.length_map, List.length_range]; omega),
      List.getElem_map, List.getElem_range, Nat.add_assoc]
  have h0 := hbyte (by decide : 0 < 4)
  rw [Nat.add_zero] at h0
  rw [hbyte (by decide), hbyte (by decide), h0, rgb_word]
  rfl

theorem drawLines_raster (l : Layer) (hw : l.left + l.width w ≤ w) (k y₀ : ℕ)
    (hy : ∀ i < k, y₀ + i < h) (color : ℕ → ℕ → Word) :
    drawLines ram w l.left l.top l.vstride l.addr (l.width w) (List.range' y₀ k)
      (raster w h fun x y => rgb (color x y)) =
      raster w h fun x y => rgb (if (l.left ≤ x ∧ x < l.left + l.width w) ∧
        (y₀ ≤ y ∧ y < y₀ + k) ∧ ∀ y' ≤ y, y₀ ≤ y' → InRam (l.line y') (l.width w * 4)
          then l.color ram x y else color x y) := by
  induction k generalizing y₀ color with
  | zero =>
    apply raster_congr
    intro x y _ _
    rw [if_neg (by omega)]
  | succ k ih =>
    rw [List.range'_succ, drawLines]
    cases hrow : memRead ram (l.addr + (y₀ - l.top) * l.vstride) (l.width w * 4) with
    | none =>
      have hout : ¬InRam (l.line y₀) (l.width w * 4) := by
        intro hin
        rw [memRead, if_pos (show InRam (l.addr + (y₀ - l.top) * l.vstride) _ from hin)] at hrow
        cases hrow
      apply raster_congr
      intro x y _ _
      rw [if_neg fun h => hout (h.2.2 y₀ h.2.1.1 (Nat.le_refl _))]
    | some row =>
      have hin : InRam (l.line y₀) (l.width w * 4) := (Option.ite_none_right_eq_some.1 hrow).1
      have hy₀ : y₀ < h := hy 0 k.succ_pos
      dsimp only
      rw [row_rgb hrow, splice_raster (n := 3) (fun x y => rfl) (fun i => rfl) hw hy₀]
      have hrgb (x y : ℕ) : (if y = y₀ ∧ l.left ≤ x ∧ x < l.left + l.width w then
          rgb (word ram (l.addr + (y₀ - l.top) * l.vstride + 4 * (x - l.left)))
          else rgb (color x y)) = rgb (if y = y₀ ∧ l.left ≤ x ∧ x < l.left + l.width w then
            l.color ram x y₀ else color x y) := (apply_ite rgb _ _ _).symm
      simp only [hrgb]
      rw [ih (y₀ + 1) fun i hi => by have := hy (i + 1) (by omega); omega]
      apply raster_congr
      intro x y _ _
      congr 1
      by_cases hline : y = y₀
      · rw [hline, if_neg (by omega)]
        by_cases hcol : l.left ≤ x ∧ x < l.left + l.width w
        · rw [if_pos ⟨rfl, hcol⟩, if_pos]
          refine ⟨hcol, by omega, fun y' hle hge => ?_⟩
          rwa [Nat.le_antisymm hle hge]
        · rw [if_neg fun h => hcol h.2, if_neg fun h => hcol h.1]
      · have hnot : ¬(y = y₀ ∧ l.left ≤ x ∧ x < l.left + l.width w) := fun h => hline h.1
        rw [if_neg hnot]
        refine if_congr (and_congr_right fun _ => ?_) rfl rfl
        constructor
        · intro ⟨hrow, hall⟩
          refine ⟨by omega, fun y' hle hge => ?_⟩
          by_cases hy' : y' = y₀
          · rwa [hy']
          · exact hall y' hle (by omega)
        · intro ⟨hrow, hall⟩
          exact ⟨by omega, fun y' hle hge => hall y' hle (by omega)⟩

/-- One turn of the loop lays the layer over what is there. -/
theorem drawLayer_raster (regs : Regs) (layer : ℕ) (hw : 0 < w) (hh : 0 < h)
    (color : ℕ → ℕ → Word) :
    drawLayer regs ram w h (raster w h fun x y => rgb (color x y)) layer =
      raster w h fun x y => rgb (if (Layer.ofRegs regs layer).Shows w x y then
        (Layer.ofRegs regs layer).color ram x y else color x y) := by
  have hhidden (hnot : ∀ x y, x < w → ¬(Layer.ofRegs regs layer).Shows w x y) :
      (raster w h fun x y => rgb (color x y)) = raster w h fun x y => rgb
        (if (Layer.ofRegs regs layer).Shows w x y then
          (Layer.ofRegs regs layer).color ram x y else color x y) :=
    raster_congr fun x y hx _ => by rw [if_neg (hnot x y hx)]
  have hwidth : min (reg regs (0x0C + layer * 0x34) &&& 0xFFF) (w - 1) + 1 -
      ((reg regs (0x0C + layer * 0x34) >>> 16) &&& 0xFFF) =
        (Layer.ofRegs regs layer).width w := rfl
  unfold drawLayer
  dsimp only
  rw [hwidth]
  split_ifs with henabled hformat hn
  · apply hhidden
    intro x y _ hshows
    have hoff : (Layer.ofRegs regs layer).enabled = false := (and_bit_eq_zero_iff _).1 henabled
    rw [Layer.Shows, hoff] at hshows
    exact Bool.false_ne_true hshows.1.1
  · exact hhidden fun x y _ hshows => hformat hshows.1.2
  · apply hhidden
    intro x y hx hshows
    have hcol := hshows.2.1
    rw [Layer.width] at hn
    omega
  · have hon : (Layer.ofRegs regs layer).enabled = true :=
      Bool.not_eq_false _ ▸ mt (and_bit_eq_zero_iff _).2 henabled
    have hformat : (Layer.ofRegs regs layer).format = 0x0653 := Decidable.not_not.1 hformat
    have hfits : (Layer.ofRegs regs layer).left + (Layer.ofRegs regs layer).width w ≤ w := by
      unfold Layer.width at hn ⊢
      omega
    refine (drawLines_raster (Layer.ofRegs regs layer) hfits _ _ ?_ color).trans ?_
    · intro i hi
      omega
    · apply raster_congr
      intro x y hx hy
      congr 1
      refine if_congr ?_ rfl rfl
      have hcol : (Layer.ofRegs regs layer).left ≤ x ∧
          x < (Layer.ofRegs regs layer).left + (Layer.ofRegs regs layer).width w ↔
            (Layer.ofRegs regs layer).left ≤ x ∧ x ≤ (Layer.ofRegs regs layer).right := by
        unfold Layer.width at hn ⊢
        omega
      have hrow : (Layer.ofRegs regs layer).top ≤ y ∧ y < (Layer.ofRegs regs layer).top +
          (min (Layer.ofRegs regs layer).bottom (h - 1) + 1 - (Layer.ofRegs regs layer).top) ↔
            (Layer.ofRegs regs layer).top ≤ y ∧ y ≤ (Layer.ofRegs regs layer).bottom := by
        omega
      exact (and_congr hcol (and_congr_left fun _ => hrow)).trans
        (and_iff_right ⟨hon, hformat⟩).symm

/-- The colour of a point: that of the top layer that shows it, or the background's. -/
def color (regs : Regs) (ram : ℕ → Byte) (w x y : ℕ) : Word :=
  if (Layer.ofRegs regs 1).Shows w x y then (Layer.ofRegs regs 1).color ram x y
  else if (Layer.ofRegs regs 0).Shows w x y then (Layer.ofRegs regs 0).color ram x y
  else regs (mlc0 + 0x08) &&& 0xFFFFFF

/-- **The screenshot.** -/
theorem screenshot_eq (regs : Regs) (ram : ℕ → Byte) :
    screenshot regs ram =
      { w := (reg regs 0x04 &&& 0x7FF) + 1
        h := ((reg regs 0x04 >>> 16) &&& 0x7FF) + 1
        img := raster ((reg regs 0x04 &&& 0x7FF) + 1) (((reg regs 0x04 >>> 16) &&& 0x7FF) + 1)
          fun x y => rgb (color regs ram ((reg regs 0x04 &&& 0x7FF) + 1) x y) } := by
  unfold screenshot
  dsimp only
  rw [List.foldl_cons, List.foldl_cons, List.foldl_nil, flatten_replicate,
    drawLayer_raster regs 0 (Nat.succ_pos _) (Nat.succ_pos _),
    drawLayer_raster regs 1 (Nat.succ_pos _) (Nat.succ_pos _)]
  rfl

end Picture

end Board

end Gec6818Bl1.Emulator
