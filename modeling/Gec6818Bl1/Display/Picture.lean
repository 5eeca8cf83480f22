import Gec6818Bl1.Display.Framebuffer
import Gec6818Bl1.Emulator.Screenshot

/-!
# What the boot screen shows

The emulator makes a picture of the screen from its registers and its memory. Here the registers are
what the calls of `display.c` have written to them, and the memory is what they have stored.

* `layer_setup` puts a layer in its place (`placed_layerSetup`), and what `DisplayInit` sets up is a
  layer of text over one with the bar (`onPanel_panelSetup`); `show_rows` makes room for more lines.
* The layers show the words in the two framebuffers (`OnPanel.color`), and those are the lines and
  the bar (`Drawn`).
* The calls keep both (`shows_displayInit`, `shows_displayStep`), so after every run that has called
  `DisplayInit` the emulator shows the view (`boot_picture`).

The timer gives any readings. All other readings are answered by the emulator.
-/

namespace Gec6818Bl1.Display

open ByteMem RegTrace Raster Emulator

/-! ## The layers -/

section Layers

/-- A layer as `layer_setup` leaves it: where it is, where its points are, and that it is on. -/
structure Placed (l : ℕ) (x y w h fb : U32) (regs : Emulator.Regs) : Prop where
  leftright : regs (mlcrgb l rgbLeftright) = x <<< 16 ||| (x + w - 1)
  topbottom : regs (mlcrgb l rgbTopbottom) = y <<< 16 ||| (y + h - 1)
  vstride : regs (mlcrgb l rgbVstride) = w * 4
  address : regs (mlcrgb l rgbAddress) = fb
  format : regs (mlcrgb l rgbControl) >>> 16 = 0x0653
  enabled : (regs (mlcrgb l rgbControl)).getLsbD 5 = true

/-- The three changes that `layer_setup` makes to the control register. -/
def controlSet (v : U32) : U32 :=
  let v := v &&& ~~~(0xFFFF0000#32 ||| 3#32 <<< 12 ||| mlcRgbDirty ||| 7) |||
    (mlcFmtXrgb8888 ||| 2#32 <<< 12)
  let v := v &&& ~~~mlcRgbDirty ||| 1#32 <<< 5
  v &&& ~~~0 ||| mlcRgbDirty

theorem controlSet_format (v : U32) : controlSet v >>> 16 = 0x0653 := by
  simp only [controlSet, mlcRgbDirty, mlcFmtXrgb8888]
  ext i hi
  interval_cases i <;> simp

theorem controlSet_enabled (v : U32) : (controlSet v).getLsbD 5 = true := by
  simp [controlSet, mlcRgbDirty, mlcFmtXrgb8888]

variable {l : ℕ} {x y w h fb : U32} {regs : Emulator.Regs} {ops : List RegOp}

theorem placed_layerSetup (hl : l = 0 ∨ l = 1) :
    Placed l x y w h fb (perform Polling.Bus.store (layerSetup l x y w h fb) regs) := by
  have hctrl : perform Polling.Bus.store (layerSetup l x y w h fb) regs (mlcrgb l rgbControl) =
      controlSet (regs (mlcrgb l rgbControl)) := by
    rcases hl with rfl | rfl <;> rfl
  constructor
  · rcases hl with rfl | rfl <;> rfl
  · rcases hl with rfl | rfl <;> rfl
  · rcases hl with rfl | rfl <;> rfl
  · rcases hl with rfl | rfl <;> rfl
  · rw [hctrl, controlSet_format]
  · rw [hctrl, controlSet_enabled]

/-- Not a register of the layer. -/
def OffLayer (l a : ℕ) : Prop := a < mlcrgb l 0 ∨ mlcrgb l rgbAddress < a

instance (l a : ℕ) : Decidable (OffLayer l a) := inferInstanceAs (Decidable (_ ∨ _))

theorem spares_of_offLayer {off : ℕ} (hops : ∀ op ∈ ops, OffLayer l op.register)
    (hoff : off ≤ rgbAddress) : Spares (mlcrgb l off) ops := by
  intro op hop htarget
  have hreg : op.register = mlcrgb l off := by
    cases op with
    | read a => cases htarget
    | write a w => exact Option.some.inj htarget
    | modify a f => exact Option.some.inj htarget
  have hrange := hops op hop
  rw [hreg] at hrange
  simp only [OffLayer, mlcrgb, rgbAddress] at hrange hoff
  omega

theorem Placed.perform (hp : Placed l x y w h fb regs)
    (hops : ∀ op ∈ ops, OffLayer l op.register) :
    Placed l x y w h fb (perform Polling.Bus.store ops regs) := by
  have hsame {off : ℕ} (hoff : off ≤ rgbAddress) :
      RegTrace.perform Polling.Bus.store ops regs (mlcrgb l off) = regs (mlcrgb l off) :=
    perform_store_of_spares (spares_of_offLayer hops hoff)
  constructor
  · exact (hsame (by decide)).trans hp.leftright
  · exact (hsame (by decide)).trans hp.topbottom
  · exact (hsame (by decide)).trans hp.vstride
  · exact (hsame (by decide)).trans hp.address
  · rw [hsame (by decide), hp.format]
  · rw [hsame (by decide), hp.enabled]

theorem Placed.ofRegs (hp : Placed l x y w h fb regs) (hl : l = 0 ∨ l = 1) :
    Board.Layer.ofRegs regs l =
      { enabled := true
        format := 0x0653
        left := ((x <<< 16 ||| (x + w - 1)).toNat >>> 16) &&& 0xFFF
        right := (x <<< 16 ||| (x + w - 1)).toNat &&& 0xFFF
        top := ((y <<< 16 ||| (y + h - 1)).toNat >>> 16) &&& 0xFFF
        bottom := (y <<< 16 ||| (y + h - 1)).toNat &&& 0xFFF
        vstride := (w * 4).toNat
        addr := fb.toNat } := by
  have hformat : (regs (mlcrgb l rgbControl)).toNat >>> 16 = 0x0653 := by
    rw [← BitVec.toNat_ushiftRight, hp.format]
    rfl
  have heq : Board.Layer.ofRegs regs l =
      { enabled := (regs (mlcrgb l rgbControl)).getLsbD 5
        format := (regs (mlcrgb l rgbControl)).toNat >>> 16
        left := ((regs (mlcrgb l rgbLeftright)).toNat >>> 16) &&& 0xFFF
        right := (regs (mlcrgb l rgbLeftright)).toNat &&& 0xFFF
        top := ((regs (mlcrgb l rgbTopbottom)).toNat >>> 16) &&& 0xFFF
        bottom := (regs (mlcrgb l rgbTopbottom)).toNat &&& 0xFFF
        vstride := (regs (mlcrgb l rgbVstride)).toNat
        addr := (regs (mlcrgb l rgbAddress)).toNat } := by
    rcases hl with rfl | rfl <;> rfl
  rw [heq, hp.leftright, hp.topbottom, hp.vstride, hp.address, hp.enabled, hformat]

end Layers

/-! ## The registers -/

section Panel

variable {regs : Emulator.Regs} {rows : ℕ}

def screenSize : U32 := BitVec.ofNat 32 (lcdHeight - 1) <<< 16 ||| BitVec.ofNat 32 (lcdWidth - 1)

/-- The registers when `rows` lines of text are shown. -/
structure OnPanel (rows : ℕ) (regs : Emulator.Regs) : Prop where
  size : regs mlcscreensize = screenSize
  background : regs mlcbgcolor = bgColor
  text : Placed 1 0 (BitVec.ofNat 32 textTop) (BitVec.ofNat 32 lcdWidth)
    (BitVec.ofNat 32 rows * BitVec.ofNat 32 glyphH) (BitVec.ofNat 32 fbBase) regs
  bar : Placed 0 (BitVec.ofNat 32 barX) (BitVec.ofNat 32 barY) (BitVec.ofNat 32 barW)
    (BitVec.ofNat 32 barH) (BitVec.ofNat 32 fbBar) regs

/-- What `DisplayInit` sets after the pins. -/
def panelSetup : List RegOp := (displaySetup none).drop 8

theorem displaySetup_eq (level : Option U32) :
    displaySetup level = lcdGpioInit level ++ panelSetup := by
  cases level <;> rfl

theorem panelSetup_layers : panelSetup = panelSetup.take 11 ++
    (layerSetup 1 0 (BitVec.ofNat 32 textTop) (BitVec.ofNat 32 lcdWidth)
      (2 * BitVec.ofNat 32 glyphH) (BitVec.ofNat 32 fbBase) ++
      (layerSetup 0 (BitVec.ofNat 32 barX) (BitVec.ofNat 32 barY) (BitVec.ofNat 32 barW)
        (BitVec.ofNat 32 barH) (BitVec.ofNat 32 fbBar) ++ panelSetup.drop 39)) := rfl

theorem onPanel_panelSetup : OnPanel 2 (perform Polling.Bus.store panelSetup regs) := by
  constructor
  · change perform Polling.Bus.store
      (panelSetup.take 6 ++ .write mlcscreensize screenSize :: panelSetup.drop 7) _ _ = _
    exact perform_store_write _ (by decide +kernel)
  · change perform Polling.Bus.store
      (panelSetup.take 8 ++ .write mlcbgcolor bgColor :: panelSetup.drop 9) _ _ = _
    exact perform_store_write _ (by decide +kernel)
  · rw [panelSetup_layers, perform_append, perform_append, perform_append]
    refine ((placed_layerSetup (.inr rfl)).perform ?_).perform ?_
    · exact List.forall_mem_map.1 (by decide +kernel)
    · exact List.forall_mem_map.1 (by decide +kernel)
  · rw [panelSetup_layers, perform_append, perform_append, perform_append]
    refine (placed_layerSetup (.inl rfl)).perform ?_
    exact List.forall_mem_map.1 (by decide +kernel)

/-- `show_rows`. -/
theorem OnPanel.showRows {rows' : ℕ} (h : OnPanel rows regs) :
    OnPanel rows' (perform Polling.Bus.store (showRows (BitVec.ofNat 32 rows')) regs) := by
  have hctrl : perform Polling.Bus.store (Display.showRows (BitVec.ofNat 32 rows')) regs
      (mlcrgb 1 rgbControl) = regs (mlcrgb 1 rgbControl) ||| mlcRgbDirty := by
    change regs (mlcrgb 1 rgbControl) &&& ~~~0#32 ||| mlcRgbDirty = _
    rw [BitVec.not_zero, BitVec.and_allOnes]
  constructor
  · exact h.size
  · exact h.background
  · constructor
    · exact h.text.leftright
    · rfl
    · exact h.text.vstride
    · exact h.text.address
    · rw [hctrl, BitVec.ushiftRight_or_distrib, h.text.format]
      rfl
    · rw [hctrl, BitVec.getLsbD_or, h.text.enabled, Bool.true_or]
  · refine h.bar.perform (List.forall_mem_map.1 ?_)
    change ∀ a ∈ [mlcrgb 1 rgbTopbottom, mlcrgb 1 rgbControl], OffLayer 0 a
    decide

/-! ## The picture -/

section Picture

variable {m : ℕ → Byte} {x y : ℕ}

theorem OnPanel.textLayer (h : OnPanel rows regs) (hrows : 1 ≤ rows ∧ rows ≤ textRows) :
    Board.Layer.ofRegs regs 1 = ⟨true, 0x0653, 0, lcdWidth - 1, textTop,
      textTop + rows * glyphH - 1, lcdWidth * 4, fbBase⟩ := by
  obtain ⟨hpos, hle⟩ := hrows
  rw [h.text.ofRegs (.inr rfl)]
  simp only [textRows] at hle
  interval_cases rows <;> rfl

theorem OnPanel.barLayer (h : OnPanel rows regs) :
    Board.Layer.ofRegs regs 0 = ⟨true, 0x0653, barX, barX + barW - 1, barY, barY + barH - 1,
      barW * 4, fbBar⟩ := by
  rw [h.bar.ofRegs (.inl rfl)]
  rfl

/-- What the emulator shows: the rows of text, the bar, and the background around them. -/
theorem OnPanel.color (h : OnPanel rows regs) (hrows : 1 ≤ rows ∧ rows ≤ textRows)
    (hx : x < lcdWidth) :
    Board.color regs m lcdWidth x y =
      if textTop ≤ y ∧ y < textTop + rows * glyphH then word m (textAddr x (y - textTop))
      else if (barX ≤ x ∧ x < barX + barW) ∧ barY ≤ y ∧ y < barY + barH then
        word m (barAddr (x - barX) (y - barY))
      else bgColor := by
  have htext : Board.Layer.Shows ⟨true, 0x0653, 0, lcdWidth - 1, textTop,
      textTop + rows * glyphH - 1, lcdWidth * 4, fbBase⟩ lcdWidth x y ↔
        textTop ≤ y ∧ y < textTop + rows * glyphH := by
    simp only [Board.Layer.Shows, Board.Layer.line, Board.Layer.width, InRam, sramBase, sramSize,
      ddrBase, ddrSize, fbBase, textTop, textRows, glyphH, fontHeight, textScale, lcdWidth,
      true_and] at hx hrows ⊢
    constructor
    · rintro ⟨-, hy, -⟩
      omega
    · intro hy
      exact ⟨by omega, by omega, fun y' hle hge => by omega⟩
  have hbar : Board.Layer.Shows ⟨true, 0x0653, barX, barX + barW - 1, barY, barY + barH - 1,
      barW * 4, fbBar⟩ lcdWidth x y ↔
        (barX ≤ x ∧ x < barX + barW) ∧ barY ≤ y ∧ y < barY + barH := by
    simp only [Board.Layer.Shows, Board.Layer.line, Board.Layer.width, InRam, sramBase, sramSize,
      ddrBase, ddrSize, fbBar, fbBase, barX, barY, barW, barH, textTop, textRows, glyphH,
      fontHeight, textScale, lcdWidth, lcdHeight, true_and]
    constructor
    · rintro ⟨hx, hy, -⟩
      omega
    · rintro ⟨hx, hy⟩
      exact ⟨by omega, by omega, fun y' hle hge => by omega⟩
  have hline : fbBase + (y - textTop) * (lcdWidth * 4) + 4 * (x - 0) =
      textAddr x (y - textTop) := by
    simp only [textAddr, lcdWidth]
    omega
  have hline' : fbBar + (y - barY) * (barW * 4) + 4 * (x - barX) =
      barAddr (x - barX) (y - barY) := by
    simp only [barAddr, barW, lcdWidth, barX]
    omega
  have hbackground : regs (Board.mlc0 + 0x08) &&& 0xFFFFFF = bgColor := by
    change regs mlcbgcolor &&& 0xFFFFFF = bgColor
    rw [h.background]
    rfl
  rw [Board.color, h.textLayer hrows, h.barLayer, if_congr htext rfl (if_congr hbar rfl rfl),
    hbackground, Board.Layer.color, Board.Layer.color, Board.Layer.line, Board.Layer.line, hline,
    hline']

/-- The framebuffers show the lines and a bar filled up to `shown`. -/
structure Drawn (font8x16 : ℕ → ℕ → Byte) (lines : List Line) (shown : U32) (m : ℕ → Byte) :
    Prop where
  text : ∀ r x y, r < lines.length → x < lcdWidth → y < glyphH →
    word m (textAddr x (r * glyphH + y)) = (lines.getD r ⟨[], false⟩).color font8x16 x y
  bar : ∀ x y, x < barW → y < barH → word m (barAddr x y) = barPoint shown.toNat x y

variable {font8x16 : ℕ → ℕ → Byte} {v : View} {lines : List Line} {shown : U32}

theorem OnPanel.color_view (h : OnPanel v.lines.length regs)
    (hrows : 1 ≤ v.lines.length ∧ v.lines.length ≤ textRows) (hd : Drawn font8x16 v.lines shown m)
    (hfill : shown.toNat = v.fill) (hx : x < lcdWidth) :
    Board.color regs m lcdWidth x y = v.color font8x16 x y := by
  rw [h.color hrows hx, View.color]
  by_cases htext : textTop ≤ y ∧ y < textTop + v.lines.length * glyphH
  · rw [if_pos htext, if_pos htext]
    have hrow : (y - textTop) / glyphH < v.lines.length :=
      Nat.div_lt_of_lt_mul (by rw [Nat.mul_comm]; omega)
    have hword := hd.text _ x _ hrow hx (Nat.mod_lt (y - textTop) (by decide))
    rwa [Nat.div_add_mod'] at hword
  · rw [if_neg htext, if_neg htext]
    refine if_ctx_congr Iff.rfl (fun hbar => ?_) fun _ => rfl
    rw [← hfill]
    exact hd.bar _ _ (by omega) (by omega)

theorem screenshot_view (h : OnPanel v.lines.length regs)
    (hrows : 1 ≤ v.lines.length ∧ v.lines.length ≤ textRows) (hd : Drawn font8x16 v.lines shown m)
    (hfill : shown.toNat = v.fill) :
    Board.screenshot regs m =
      { w := lcdWidth
        h := lcdHeight
        img := raster lcdWidth lcdHeight fun x y => Board.rgb (v.color font8x16 x y) } := by
  have hsize : Board.reg regs 0x04 = screenSize.toNat := congrArg BitVec.toNat h.size
  have hw : (Board.reg regs 0x04 &&& 0x7FF) + 1 = lcdWidth := by
    rw [hsize]
    rfl
  have hh : ((Board.reg regs 0x04 >>> 16) &&& 0x7FF) + 1 = lcdHeight := by
    rw [hsize]
    rfl
  rw [Board.screenshot_eq, hw, hh]
  refine congrArg (Board.Image.mk lcdWidth lcdHeight) (raster_congr fun x y hx _ => ?_)
  rw [h.color_view hrows hd hfill hx]

/-! ## What the calls draw -/

theorem barPoint_growth {x y : ℕ} {w : U32} (h : shown < w) :
    (if (barInset + shown.toNat ≤ x ∧ x < barInset + w.toNat) ∧
        barInset ≤ y ∧ y < barH - barInset then barColor else barPoint shown.toNat x y) =
      barPoint w.toNat x y := by
  have hlt : shown.toNat < w.toNat := h
  unfold barPoint
  split_ifs <;> first | rfl | omega

theorem toNat_inset {w : U32} (h : w ≤ BitVec.ofNat 32 barFillW) :
    (BitVec.ofNat 32 barInset + w).toNat = barInset + w.toNat := by
  have hle : w.toNat ≤ barFillW := h
  simp only [barFillW, barW, lcdWidth, barX, barInset, barBorder] at hle
  simp only [barInset, barBorder, BitVec.toNat_add, BitVec.toNat_ofNat]
  omega

theorem Drawn.growth {w : U32} (hd : Drawn font8x16 lines shown m) (hlen : lines.length ≤ textRows)
    (h : shown < w) (hw : w ≤ BitVec.ofNat 32 barFillW) :
    Drawn font8x16 lines w (draw m (growth shown w)) := by
  have hright := toNat_inset hw
  have hleft := toNat_inset (BitVec.le_trans (BitVec.le_of_lt h) hw)
  have hx1 : (BitVec.ofNat 32 barInset + w).toNat ≤ barW := by
    have hle : w.toNat ≤ barFillW := hw
    rw [hright]
    simp only [barFillW, barW, lcdWidth, barX, barInset, barBorder] at hle ⊢
    omega
  constructor
  · intro r x y hr hx hy
    rw [Display.growth, word_barRect_text hx1 (by decide) hx, hd.text r x y hr hx hy]
    have hrow : (r + 1) * glyphH ≤ textRows * glyphH := Nat.mul_le_mul_right _ (by omega)
    rw [Nat.succ_mul] at hrow
    omega
  · intro x y hx hy
    rw [Display.growth, word_barRect hx1 (by decide) hx, hleft, hright, hd.bar x y hx hy]
    exact barPoint_growth h

/-- A row more, or another last one. -/
theorem Drawn.row {text : List Byte} (hd : Drawn font8x16 lines shown m) :
    Drawn font8x16 (lines.take (textRows - 1) ++ [⟨text, false⟩]) shown
      (draw m (drawRow font8x16 (BitVec.ofNat 32 (min (textRows - 1) lines.length)) text
        false)) := by
  have hrow : (BitVec.ofNat 32 (min (textRows - 1) lines.length)).toNat =
      min (textRows - 1) lines.length := by
    have hle : min (textRows - 1) lines.length ≤ 11 := Nat.min_le_left _ _
    rw [BitVec.toNat_ofNat, Nat.mod_eq_of_lt (by omega)]
  generalize BitVec.ofNat 32 (min (textRows - 1) lines.length) = row at hrow ⊢
  have hlt : row.toNat < textRows := by
    rw [hrow]
    exact Nat.lt_of_le_of_lt (Nat.min_le_left _ _) (by decide)
  have hlen : (lines.take (textRows - 1)).length = row.toNat := by
    rw [List.length_take, hrow]
  constructor
  · intro r x y hr hx hy
    rw [List.length_append, hlen, List.length_singleton] at hr
    by_cases hlast : r = row.toNat
    · rw [hlast, word_drawRow hlt hx hy, List.getD_append_right _ _ _ _ (Nat.le_of_eq hlen), hlen,
        Nat.sub_self]
      rfl
    · have hr' : r < (lines.take (textRows - 1)).length := by omega
      have hr₀ : r < lines.length := by
        rw [List.length_take] at hr'
        omega
      rw [word_drawRow_of_ne hlt hlast hx hy, hd.text r x y hr₀ hx hy,
        List.getD_append _ _ _ _ hr', List.getD_eq_getElem _ _ hr₀, List.getD_eq_getElem _ _ hr',
        List.getElem_take]
  · intro x y hx hy
    rw [word_drawRow_bar hlt, hd.bar x y hx hy]

/-- `DisplayInit`, from any memory. -/
theorem drawn_init (title : List Byte) : Drawn font8x16 (View.init title).lines 0
    (draw (draw (draw m (drawRow font8x16 0 title true)) (drawRow font8x16 1 [] false))
      barInit) := by
  constructor
  · intro r x y hr hx hy
    have hfirst (m : ℕ → Byte) : word (draw m (drawRow font8x16 0 title true))
        (textAddr x ((0 : U32).toNat * glyphH + y)) =
          (Line.mk title true).color font8x16 x y := word_drawRow (by decide) hx hy
    have hsecond (m : ℕ → Byte) : word (draw m (drawRow font8x16 1 [] false))
        (textAddr x ((1 : U32).toNat * glyphH + y)) =
          (Line.mk [] false).color font8x16 x y := word_drawRow (by decide) hx hy
    have hr₂ : r < 2 := hr
    have hy' : r * glyphH + y < textRows * glyphH := by
      simp only [textRows, glyphH, fontHeight, textScale] at hy ⊢
      omega
    rw [barInit, draw_append, word_barRect_text (by decide) (by decide) hx hy',
      word_barRect_text (by decide) (by decide) hx hy']
    interval_cases r
    · rw [word_drawRow_of_ne (by decide) (by decide) hx hy]
      exact hfirst m
    · exact hsecond _
  · intro x y hx hy
    rw [barInit, draw_append, word_barRect (by decide) (by decide) hx,
      word_barRect (by decide) (by decide) hx, barPoint]
    change (if (barBorder ≤ x ∧ x < barW - barBorder) ∧ barBorder ≤ y ∧ y < barH - barBorder then
        bgColor else if (0 ≤ x ∧ x < barW) ∧ 0 ≤ y ∧ y < barH then fgColor else _) =
      if barInset ≤ x ∧ x < barInset + 0 ∧ _ then _ else _
    split_ifs <;> first | rfl | omega

end Picture

end Panel

/-! ## The registers of a run -/

section Answered

open Board

/-- The addresses that `mmio_read` and `mmio_write` treat like any other. -/
def Ordinary (a : ℕ) : Prop :=
  (¬device a ∧ a / 4 * 4 = a ∧ a ≠ clkpwr + cpuwarmresetreq) ∧
    (a ∉ [clkpwr + clkmodereg0, clkpwr + pwrmode, drex + 0x040, drex + 0x048, ddrphy + 0x0C4,
      ddrphy + 0x0B4, cci400 + 0x0C, gmac + 0x10, gmac + 0x14, gmac + 0x1000] ∧
    ¬(gicd + 0x800 ≤ a ∧ a < gicd + 0x820))

instance (a : ℕ) : Decidable (Ordinary a) := by unfold Ordinary; infer_instance

theorem Ordinary.read {a : ℕ} (h : Ordinary a) (regs : Emulator.Regs) :
    mmioRead regs a = regs a := by
  obtain ⟨⟨-, halign, -⟩, hspecial, hgic⟩ := h
  simp only [List.mem_cons, List.not_mem_nil, or_false, not_or] at hspecial
  simp only [mmioRead, halign, hspecial, hgic, if_false]

theorem Ordinary.write {a : ℕ} (h : Ordinary a) (regs : Emulator.Regs) (w : U32) :
    mmioWrite regs a w = Function.update regs a w := by
  obtain ⟨⟨hdevice, halign, hreset⟩, -⟩ := h
  simp only [mmioWrite, halign, hdevice, hreset, if_false, false_and]

/-- What `DisplayInit` sets up before its timer is made of such registers. -/
theorem ordinary_displaySetup (level : Option U32) :
    ∀ op ∈ displaySetup level, Ordinary op.register := by
  have hmap : ∀ a ∈ (displaySetup level).map Op.register, Ordinary a := by
    cases level with
    | none => decide +kernel
    | some v =>
      change ∀ a ∈ (displaySetup (some 0)).map Op.register, Ordinary a
      decide +kernel
  exact List.forall_mem_map.1 hmap

theorem device_timerInit : ∀ op ∈ timerInit, device op.register :=
  List.forall_mem_map.1 (by decide)

/-- The emulator answers wherever none of its devices does. -/
abbrev Answered (regs : Emulator.Regs) (rd : Readings) (log : History) : Prop :=
  AnsweredBy bus (fun a => ¬device a) regs rd log

variable {regs : Emulator.Regs} {rd : Readings} {log : History} {ops : List RegOp} {rows : ℕ}

theorem after_ordinary (hops : ∀ op ∈ ops, Ordinary op.register)
    (hrd : Answered regs rd (RegTrace.exec rd Prod.mk ops log)) :
    after bus regs (RegTrace.exec rd Prod.mk ops log) =
      perform Polling.Bus.store ops (after bus regs log) := by
  rw [after_exec (fun op hop => (hops op hop).1.1) hrd]
  refine perform_eq_store fun op hop regs => ⟨?_, (hops op hop).write regs⟩
  exact Prod.ext ((hops op hop).read regs) rfl

/-- The timer is another device. -/
theorem after_timerInit :
    after bus regs (RegTrace.exec rd Prod.mk timerInit log) = after bus regs log := by
  apply after_exec_of_idle
  intro op hop regs
  refine ⟨rfl, fun w => ?_⟩
  exact if_pos (device_timerInit op hop)

theorem after_timer (times : List ℕ) :
    after bus regs (log ++ times.map fun time => .read (timerTcnto0, time)) =
      after bus regs log := by
  rw [after_append]
  induction times with
  | nil => rfl
  | cons time times ih => exact ih

theorem onPanel_setup {level : Option U32}
    (hrd : Answered regs rd (RegTrace.exec rd Prod.mk timerInit
      (RegTrace.exec rd Prod.mk (displaySetup level) log))) :
    OnPanel 2 (after bus regs (RegTrace.exec rd Prod.mk timerInit
      (RegTrace.exec rd Prod.mk (displaySetup level) log))) := by
  rw [after_timerInit, after_ordinary (ordinary_displaySetup level) (hrd.of_prefix prefix_exec),
    displaySetup_eq, perform_append]
  exact onPanel_panelSetup

theorem onPanel_showRows {rows' : ℕ} (h : OnPanel rows (after bus regs log))
    (hrd : Answered regs rd (RegTrace.exec rd Prod.mk (showRows (BitVec.ofNat 32 rows')) log)) :
    OnPanel rows' (after bus regs
      (RegTrace.exec rd Prod.mk (showRows (BitVec.ofNat 32 rows')) log)) := by
  rw [after_ordinary (List.forall_mem_map.1 ?_) hrd]
  · exact h.showRows
  · change ∀ a ∈ [mlcrgb 1 rgbTopbottom, mlcrgb 1 rgbControl], Ordinary a
    decide +kernel

end Answered

/-! ## Every run -/

section Runs

variable {rd : Readings} {mode : OpMode} {fuel : ℕ} {cfg : Config} {font8x16 : ℕ → ℕ → Byte}
variable {regs : Emulator.Regs} {m : ℕ → Byte} {v : View} {s s' : Screen}

/-- The screen shows `v`: the statics say so, and so do the framebuffers and the registers. -/
structure Shows (font8x16 : ℕ → ℕ → Byte) (regs : Emulator.Regs) (m : ℕ → Byte) (v : View)
    (s : Screen) : Prop where
  settled : Settled s
  rows : s.nextRow = v.lines.length
  fill : s.barShown.toNat = v.fill
  drawn : Drawn font8x16 v.lines s.barShown (draw m s.stores)
  panel : OnPanel v.lines.length (after Board.bus regs s.log)

theorem Shows.le_rows (h : Shows font8x16 regs m v s) :
    2 ≤ v.lines.length ∧ v.lines.length ≤ textRows := by
  have hrow := h.settled.nextRow
  rw [h.rows] at hrow
  omega

/-- `delay_ms` fills the bar and leaves the rest. -/
theorem shows_delayMs {barTarget ms : U32} (h : delayMs rd mode fuel ms s = some s')
    (hs : Filling barTarget v.lines.length s)
    (hrow : 2 ≤ v.lines.length ∧ v.lines.length ≤ textRows) (hfill : barTarget.toNat = v.fill)
    (hd : Drawn font8x16 v.lines s.barShown (draw m s.stores))
    (hp : OnPanel v.lines.length (after Board.bus regs s.log)) : Shows font8x16 regs m v s' := by
  obtain ⟨hfilling, hfilled⟩ := delayMs_spec h hs
  obtain ⟨times, htimes⟩ := delayMs_log h
  have hgrows (stores : Stores) (shown w : U32) (hlt : shown < w)
      (hle : w ≤ BitVec.ofNat 32 barFillW) (hdrawn : Drawn font8x16 v.lines shown (draw m stores)) :
      Drawn font8x16 v.lines w (draw m (stores ++ growth shown w)) := by
    rw [draw_append]
    exact hdrawn.growth hrow.2 hlt hle
  refine ⟨hfilling.settled hfilled (by omega), hfilling.nextRow, ?_,
    delayMs_stores hgrows h hs hd, ?_⟩
  · rw [hfilled, hfill]
  · rwa [htimes, after_timer]

theorem prefix_delayMs {ms : U32} (h : delayMs rd mode fuel ms s = some s') : s.log <+: s'.log := by
  obtain ⟨times, htimes⟩ := delayMs_log h
  rw [htimes]
  exact List.prefix_append _ _

theorem shows_displayInit {title : List Byte} (hs : Sound s)
    (h : displayInit rd mode fuel cfg font8x16 title s = some s')
    (hrd : Answered regs rd s'.log) : Shows font8x16 regs m (View.init title) s' := by
  have hprefix := prefix_delayMs h
  refine shows_delayMs (v := View.init title) h (hs.setUp title cfg.lcdBacklightLevel)
    ⟨Nat.le_refl 2, Nat.le_of_ble_eq_true rfl⟩ rfl ?_ ?_
  · change Drawn _ _ 0 (draw m (s.stores ++ _ ++ _ ++ barInit))
    rw [draw_append, draw_append, draw_append]
    exact drawn_init title
  · dsimp only [Screen.setNextRow, Screen.exec, Screen.draw, Screen.setBar] at hprefix ⊢
    exact onPanel_setup (hrd.of_prefix hprefix)

theorem percent_fill (percent : U32) :
    ((if percent > 100 then 100 else percent) * BitVec.ofNat 32 barFillW / 100).toNat =
      min percent.toNat 100 * barFillW / 100 := by
  have hmul : ((if percent > 100 then 100 else percent) * BitVec.ofNat 32 barFillW).toNat =
      (if percent > 100 then 100 else percent).toNat * barFillW :=
    ExactArith.Op.Exact.toNat_mul (percent_exact percent)
  rw [BitVec.toNat_udiv, hmul]
  congr 2
  split_ifs with h
  · exact (Nat.min_eq_right (Nat.le_of_lt h)).symm
  · exact (Nat.min_eq_left (BitVec.not_lt.1 h)).symm

theorem raiseTarget_fields (target : U32) (s : Screen) :
    (raiseTarget target s).stores = s.stores ∧ (raiseTarget target s).log = s.log ∧
      (raiseTarget target s).barShown = s.barShown ∧
      (raiseTarget target s).barTarget.toNat = max s.barTarget.toNat target.toNat := by
  rw [raiseTarget]
  split_ifs with h
  · exact ⟨rfl, rfl, rfl, (Nat.max_eq_right (Nat.le_of_lt h)).symm⟩
  · exact ⟨rfl, rfl, rfl, (Nat.max_eq_left (BitVec.not_lt.1 h)).symm⟩

theorem putRow_eq {n : ℕ} (hn : n ≤ textRows) (h : s.nextRow = n) (buf : List Byte) :
    putRow rd font8x16 buf s =
      ((s.draw (drawRow font8x16 (BitVec.ofNat 32 (min (textRows - 1) n)) buf false)).setNextRow
        (min (textRows - 1) n + 1 : ℕ)).exec rd
          (showRows (BitVec.ofNat 32 (min (textRows - 1) n + 1))) := by
  have hrow : (if s.nextRow = textRows then s.nextRow - 1 else s.nextRow) =
      (min (textRows - 1) n : ℕ) := by
    rw [h]
    simp only [textRows] at hn ⊢
    split_ifs <;> omega
  have hnext : (if s.nextRow = textRows then s.nextRow - 1 else s.nextRow) + 1 =
      (min (textRows - 1) n + 1 : ℕ) := by
    rw [hrow]
    rfl
  rw [putRow]
  dsimp only [Screen.setNextRow]
  rw [hnext, hrow, BitVec.ofInt_natCast, BitVec.ofInt_natCast]

theorem shows_displayStep {percent : U32} {buf : List Byte} (hs : Shows font8x16 regs m v s)
    (h : displayStep rd mode fuel cfg font8x16 percent buf s = some s')
    (hrd : Answered regs rd s'.log) : Shows font8x16 regs m (v.step percent buf) s' := by
  have hrows := hs.le_rows
  have hon : ¬ s.nextRow < 0 := by
    rw [hs.rows]
    omega
  rw [displayStep, if_neg hon] at h
  simp only [Option.bind_eq_bind, Option.bind_eq_some_iff] at h
  obtain ⟨⟨target, s₁⟩, hq, h⟩ := h
  have hs₀ : Filling s.barTarget s.nextRow s := ⟨hs.settled.sound, hs.settled.tracked, rfl, rfl⟩
  obtain ⟨hstores, hshown, hlog⟩ := quotient_fields hq
  obtain ⟨htarget, hs₁⟩ := (hs₀.perform (percent_exact percent)).quotient hq (by decide)
  obtain ⟨barTarget, hs₂⟩ := hs₁.raiseTarget (htarget.symm ▸ percent_target_le percent)
  obtain ⟨hstores', hlog', hshown', hraised⟩ := raiseTarget_fields target s₁
  dsimp only at h
  generalize raiseTarget target s₁ = s₂ at *
  obtain ⟨nextRow, hrow, hs₃⟩ : ∃ nextRow : ℤ, _ ∧ Filling barTarget nextRow
    (putRow rd font8x16 buf s₂) := hs₂.putRow hs.settled.nextRow buf
  have hlen : (v.step percent buf).lines.length = min (textRows - 1) v.lines.length + 1 := by
    rw [View.step, List.length_append, List.length_take, List.length_singleton]
  rw [putRow_eq hrows.2 (hs₂.nextRow.trans hs.rows), ← hlen] at h hs₃
  obtain rfl : ((v.step percent buf).lines.length : ℤ) = nextRow := hs₃.nextRow
  have hfill : barTarget.toNat = (v.step percent buf).fill := by
    rw [← hs₂.target, hraised, hs₁.target, ← hs.settled.filled, hs.fill, htarget]
    exact congrArg (max v.fill) (percent_fill percent)
  have hdrawn : Drawn font8x16 v.lines s₂.barShown (draw m s₂.stores) := by
    rw [hstores', hstores, hshown', hshown]
    exact hs.drawn
  have hpanel : OnPanel v.lines.length (after Board.bus regs s₂.log) := by
    rw [hlog', hlog]
    exact hs.panel
  refine shows_delayMs h hs₃ (by omega) hfill ?_
    (onPanel_showRows hpanel (hrd.of_prefix (prefix_delayMs h)))
  change Drawn _ _ s₂.barShown (draw m (s₂.stores ++ _))
  rw [draw_append]
  exact hdrawn.row

/-- Nothing that has been on the bus is taken back. -/
theorem prefix_call {c : Call} (h : call rd mode fuel cfg font8x16 s c = some s') :
    s.log <+: s'.log := by
  cases c with
  | init title => exact (prefix_exec.trans prefix_exec).trans (prefix_delayMs h)
  | step percent buf =>
    rw [call, displayStep] at h
    by_cases hoff : s.nextRow < 0
    · rw [if_pos hoff] at h
      obtain rfl := Option.some.inj h
      exact List.prefix_rfl
    · rw [if_neg hoff] at h
      simp only [Option.bind_eq_bind, Option.bind_eq_some_iff] at h
      obtain ⟨⟨target, s₁⟩, hq, h⟩ := h
      have hlog : (raiseTarget target s₁).log = s.log :=
        (raiseTarget_fields target s₁).2.1.trans (quotient_fields hq).2.2
      have hput : (raiseTarget target s₁).log <+:
          (putRow rd font8x16 buf (raiseTarget target s₁)).log := prefix_exec
      rw [hlog] at hput
      exact hput.trans (prefix_delayMs h)

/-- Nothing is shown before the first `DisplayInit`. -/
def Shown (font8x16 : ℕ → ℕ → Byte) (regs : Emulator.Regs) (m : ℕ → Byte) :
    Option View → Screen → Prop
  | none, s => Sound s ∧ s.nextRow < 0
  | some v, s => Shows font8x16 regs m v s

theorem shown_call {v : Option View} {c : Call} (hs : Shown font8x16 regs m v s)
    (h : call rd mode fuel cfg font8x16 s c = some s') (hrd : Answered regs rd s'.log) :
    Shown font8x16 regs m (View.call v c) s' := by
  cases c with
  | init title =>
    cases v with
    | none => exact shows_displayInit hs.1 h hrd
    | some v => exact shows_displayInit hs.settled.sound h hrd
  | step percent buf =>
    cases v with
    | none =>
      rw [call, displayStep, if_pos hs.2] at h
      obtain rfl := Option.some.inj h
      exact hs
    | some v => exact shows_displayStep hs h hrd

theorem shown_run {calls : List Call} {v : Option View} (hs : Shown font8x16 regs m v s)
    (h : Lts.run (call rd mode fuel cfg font8x16) s calls = some s')
    (hrd : Answered regs rd s'.log) : Shown font8x16 regs m (calls.foldl View.call v) s' := by
  induction calls generalizing s v with
  | nil =>
    obtain rfl := Option.some.inj h
    exact hs
  | cons c calls ih =>
    obtain ⟨s₁, hcall, hrun⟩ := Lts.run_cons h
    have hprefix : s₁.log <+: s'.log :=
      Lts.run_invariant (P := fun s => s₁.log <+: s.log)
        (fun _ _ _ hpre hstep => hpre.trans (prefix_call hstep)) List.prefix_rfl hrun
    exact ih (shown_call hs hcall (hrd.of_prefix hprefix)) hrun

/-- **What the boot screen shows.** Whatever is called, with whatever texts and percentages and
whatever the timer, the registers and the memory hold: once `DisplayInit` has been called, the
emulator's screenshot is the picture of the view that the calls make. -/
theorem boot_picture {calls : List Call} {barShown barTarget : U32}
    (h : Lts.run (call rd mode fuel cfg font8x16) (.boot barShown barTarget) calls = some s)
    (hv : calls.foldl View.call none = some v) (hrd : Answered regs rd s.log) :
    Board.screenshot (after Board.bus regs s.log) (draw m s.stores) =
      { w := lcdWidth
        h := lcdHeight
        img := raster lcdWidth lcdHeight fun x y => Board.rgb (v.color font8x16 x y) } := by
  have hboot : Shown font8x16 regs m none (.boot barShown barTarget) :=
    ⟨sound_boot barShown barTarget, Int.negSucc_lt_zero 0⟩
  have hshown := shown_run hboot h hrd
  rw [hv] at hshown
  have hshows : Shows font8x16 regs m v s := hshown
  exact screenshot_view hshows.panel ⟨by have := hshows.le_rows; omega, hshows.le_rows.2⟩
    hshows.drawn hshows.fill

/-- The emulator's answers to straight code. -/
def emulated (regs : Emulator.Regs) (ops : List RegOp) : Readings := fun q =>
  Board.mmioRead (deviceAt Board.bus ops regs q.2) q.1

theorem answered_emulated (regs : Emulator.Regs) (ops : List RegOp) :
    Answered regs (emulated regs ops) (RegTrace.exec (emulated regs ops) Prod.mk ops []) := by
  have hempty : Answered regs (emulated regs ops) [] := by
    intro n a hread
    cases hread
  refine hempty.exec_deviceAt rfl fun a n => ?_
  rw [List.length_nil, Nat.zero_add]
  rfl

end Runs

/-- The title and a line below it, with the bar half full, from registers and memory that are
zero. -/
theorem boot_picture_firstStep : ∃ rd s,
    Lts.run (call rd .aarch32 33 ⟨0, none⟩ fun c y => BitVec.ofNat 8 (c + y)) (.boot 0xFFFFFFFF 7)
        [.init [0x42, 0x4C, 0x31], .step 50 [0x4F, 0x4B]] = some s ∧
      Answered (fun _ => 0) rd s.log ∧
      Board.screenshot (after Board.bus (fun _ => 0) s.log) (draw (fun _ => 0) s.stores) =
        { w := 800
          h := 480
          img := raster 800 480 fun x y => Board.rgb
            (((View.init [0x42, 0x4C, 0x31]).step 50 [0x4F, 0x4B]).color
              (fun c y => BitVec.ofNat 8 (c + y)) x y) } := by
  let calls : List Call := [.init [0x42, 0x4C, 0x31], .step 50 [0x4F, 0x4B]]
  let rd := emulated (fun _ => 0) (runOps ⟨0, none⟩ (-1) calls)
  obtain ⟨s, hrun, hlog⟩ := run_zero rd .aarch32 ⟨0, none⟩ (fun c y => BitVec.ofNat 8 (c + y))
    (Nat.le_refl 33) rfl (.boot 0xFFFFFFFF 7) calls
  have hrd : Answered (fun _ => 0) rd s.log := by
    rw [hlog]
    exact answered_emulated _ _
  exact ⟨rd, s, hrun, hrd, boot_picture hrun rfl hrd⟩

end Gec6818Bl1.Display
