import Gec6818Bl1.Display.BootDelay
import Gec6818Bl1.Lib.Raster

/-!
# The boot screen in memory

What is on the screen is a `View`: some lines of text, and a bar that is filled up to some column.
The calls draw it a word for each point, the text in one framebuffer and the bar in another. A row
of text is drawn as its line says (`word_drawRow`) and touches no other row; a rectangle of the bar
is filled (`word_barRect`) and the rest is as it was. While `delay_ms` waits the bar only grows, and
the timer is read, no other register (`delayMs_log`).
-/

namespace Gec6818Bl1.Display

open ByteMem RegTrace Raster

/-! ## The view -/

/-- A line of text. -/
structure Line where
  text : List Byte
  center : Bool

/-- The characters that fill the line. -/
def Line.chars (l : Line) : List Byte :=
  let cs := (l.text.takeWhile (· != 0)).take (textCols - 2)
  let left := if l.center then (textCols - cs.length) / 2 else 1
  List.replicate left 0x20 ++ cs ++ List.replicate (textCols - left - cs.length) 0x20

/-- The glyph of a character, that of the question mark if it has none. -/
def glyph (c : Byte) : ℕ :=
  if fontFirst ≤ c ∧ c ≤ fontLast then (c - fontFirst).toNat else (0x3F - fontFirst).toNat

/-- The colour at `(x, y)` of a line. -/
def Line.color (font8x16 : ℕ → ℕ → Byte) (l : Line) (x y : ℕ) : U32 :=
  if (font8x16 (glyph (l.chars.getD (x / glyphW) 0x20)) (y / textScale)).getMsbD
    (x % glyphW / textScale) then fgColor else bgColor

/-- The colour at `(x, y)` of the bar, `fill` columns of it filled. -/
def barPoint (fill x y : ℕ) : U32 :=
  if barInset ≤ x ∧ x < barInset + fill ∧ barInset ≤ y ∧ y < barH - barInset then barColor
  else if barBorder ≤ x ∧ x < barW - barBorder ∧ barBorder ≤ y ∧ y < barH - barBorder then bgColor
  else fgColor

/-- What is on the screen: the lines of text and how far the bar is filled. -/
structure View where
  lines : List Line
  fill : ℕ

namespace View

def init (title : List Byte) : View := ⟨[⟨title, true⟩, ⟨[], false⟩], 0⟩

/-- One line more. If there is no room for it, it takes the place of the last one. -/
def step (percent : U32) (text : List Byte) (v : View) : View where
  lines := v.lines.take (textRows - 1) ++ [⟨text, false⟩]
  fill := max v.fill (min percent.toNat 100 * barFillW / 100)

/-- Nothing is shown before the first `DisplayInit`. -/
def call : Option View → Call → Option View
  | _, .init title => some (init title)
  | v, .step percent buf => v.map (step percent buf)

/-- The colour at `(x, y)` of the screen. -/
def color (font8x16 : ℕ → ℕ → Byte) (v : View) (x y : ℕ) : U32 :=
  if textTop ≤ y ∧ y < textTop + v.lines.length * glyphH then
    (v.lines.getD ((y - textTop) / glyphH) ⟨[], false⟩).color font8x16 x ((y - textTop) % glyphH)
  else if (barX ≤ x ∧ x < barX + barW) ∧ barY ≤ y ∧ y < barY + barH then
    barPoint v.fill (x - barX) (y - barY)
  else bgColor

end View

/-! ## The text in memory -/

section Text

variable {font8x16 : ℕ → ℕ → Byte} {m : ℕ → Byte} {row : U32} {s : List Byte} {center : Bool}

theorem getD_chars (l : Line) (col : ℕ) : l.chars.getD col 0x20 =
    if (if l.center then (textCols - rowLen l.text) / 2 else 1) ≤ col ∧
      col - (if l.center then (textCols - rowLen l.text) / 2 else 1) < rowLen l.text then
        l.text.getD (col - if l.center then (textCols - rowLen l.text) / 2 else 1) 0 else 0x20 := by
  have hlen : ((l.text.takeWhile (· != 0)).take (textCols - 2)).length = rowLen l.text := by
    rw [List.length_take, rowLen, Nat.min_comm]
  rw [Line.chars]
  simp only [hlen]
  generalize (if l.center then (textCols - rowLen l.text) / 2 else 1) = left
  have hfront : (List.replicate left (0x20 : Byte) ++
      (l.text.takeWhile (· != 0)).take (textCols - 2)).length = left + rowLen l.text := by
    rw [List.length_append, List.length_replicate, hlen]
  by_cases hin : left ≤ col ∧ col - left < rowLen l.text
  · rw [if_pos hin, List.getD_append _ _ _ _ (by omega), List.getD_append_right _ _ _ _
      (by rw [List.length_replicate]; exact hin.1), List.length_replicate]
    obtain ⟨rest, hrest⟩ := (List.take_prefix (textCols - 2) _).trans
      (List.takeWhile_prefix (· != (0 : Byte)) (l := l.text))
    have hcs : col - left < ((l.text.takeWhile (· != 0)).take (textCols - 2)).length := by omega
    have htext := List.getD_append _ rest 0 _ hcs
    rw [hrest, List.getD_eq_getElem _ _ hcs] at htext
    rw [htext, List.getD_eq_getElem _ _ hcs]
  · rw [if_neg hin]
    by_cases hcol : col < left
    · rw [List.getD_append _ _ _ _ (by omega), List.getD_append _ _ _ _
        (by rwa [List.length_replicate]), List.getD_replicate _ hcol]
    · rw [List.getD_append_right _ _ _ _ (by omega), List.getD_eq_getElem?_getD,
        List.getElem?_getD_replicate_default_eq]

theorem glyph_eq (c : Byte) :
    glyph c = ((if c < fontFirst ∨ c > fontLast then 0x3F else c) - fontFirst).toNat := by
  unfold glyph
  by_cases hc : fontFirst ≤ c ∧ c ≤ fontLast
  · rw [if_pos hc, if_neg]
    rw [not_or, BitVec.not_lt, BitVec.not_lt]
    exact hc
  · rw [if_neg hc, if_pos]
    rwa [← not_and_or.trans (or_congr BitVec.not_le BitVec.not_le)]

theorem rowGlyph_eq (s : List Byte) (center : Bool) (col : ℕ) :
    rowGlyph s center col = glyph ((Line.mk s center).chars.getD col 0x20) := by
  rw [getD_chars, glyph_eq]
  rfl

theorem bit_iff (bits : Byte) {k : ℕ} (hk : k < 8) :
    bits &&& (0x80 >>> k) ≠ 0 ↔ bits.getMsbD k = true := by
  interval_cases k <;> revert bits <;> decide +kernel

/-- Where the point `(x, y)` of the text is. -/
def textAddr (x y : ℕ) : ℕ := fbBase + 4 * (y * lcdWidth + x)

/-- The stores of a row, point by point. -/
theorem mem_drawRow {st : ℕ × U32} (hrow : row.toNat < textRows) :
    st ∈ drawRow font8x16 row s center ↔ ∃ x y, x < lcdWidth ∧ y < glyphH ∧
      st = (textAddr x (row.toNat * glyphH + y), (Line.mk s center).color font8x16 x y) := by
  have hfb : (row * BitVec.ofNat 32 glyphH * BitVec.ofNat 32 lcdWidth).toNat =
      row.toNat * 25600 := by
    simp only [textRows, glyphH, fontHeight, textScale, lcdWidth] at hrow ⊢
    simp only [BitVec.toNat_mul, BitVec.toNat_ofNat]
    omega
  have hpoint (col x y : ℕ) (hx : x < glyphW) :
      (fbBase + 4 * (row.toNat * 25600) + 4 * (glyphW * col) + 4 * (y * lcdWidth) + 4 * x,
        if font8x16 (rowGlyph s center col) (y / textScale) &&& (0x80 >>> (x / textScale)) ≠ 0
          then fgColor else bgColor) = (textAddr (glyphW * col + x) (row.toNat * glyphH + y),
            (Line.mk s center).color font8x16 (glyphW * col + x) y) := by
    have hcol : (glyphW * col + x) / glyphW = col := by
      rw [Nat.mul_add_div (by decide), Nat.div_eq_of_lt hx, Nat.add_zero]
    have hbit : x / textScale < 8 := by
      simp only [glyphW, fontWidth, textScale] at hx ⊢
      omega
    refine Prod.ext ?_ ?_
    · simp only [textAddr, lcdWidth, glyphH, fontHeight, textScale]
      omega
    · rw [Line.color, hcol, Nat.mul_add_mod, Nat.mod_eq_of_lt hx, ← rowGlyph_eq]
      exact if_congr (bit_iff _ hbit) rfl rfl
  simp only [drawRow, hfb, List.mem_flatMap, List.mem_map, List.mem_range]
  constructor
  · rintro ⟨col, hcol, y, hy, x, hx, rfl⟩
    refine ⟨glyphW * col + x, y, ?_, hy, hpoint col x y hx⟩
    simp only [textCols, glyphW, fontWidth, textScale, lcdWidth] at hcol hx ⊢
    omega
  · rintro ⟨x, y, hx, hy, rfl⟩
    refine ⟨x / glyphW, ?_, y, hy, x % glyphW, Nat.mod_lt _ (by decide), ?_⟩
    · exact Nat.div_lt_of_lt_mul hx
    · rw [hpoint _ _ _ (Nat.mod_lt _ (by decide)), Nat.div_add_mod]

theorem textAddr_injective {x x' y y' : ℕ} (hx : x < lcdWidth) (hx' : x' < lcdWidth)
    (h : textAddr x y = textAddr x' y') : x = x' ∧ y = y' := by
  simp only [textAddr, lcdWidth] at hx hx' h
  omega

theorem row_injective {r r' y y' : ℕ} (hy : y < glyphH) (hy' : y' < glyphH)
    (h : r * glyphH + y = r' * glyphH + y') : r = r' ∧ y = y' := by
  simp only [glyphH, fontHeight, textScale] at hy hy' h
  omega

theorem dvd_textAddr (x y : ℕ) : 4 ∣ textAddr x y :=
  Nat.dvd_add (by decide) (Nat.dvd_mul_right 4 _)

theorem dvd_drawRow (hrow : row.toNat < textRows) :
    ∀ st ∈ drawRow font8x16 row s center, 4 ∣ st.1 := by
  intro st hst
  obtain ⟨x, y, -, -, rfl⟩ := (mem_drawRow hrow).1 hst
  exact dvd_textAddr _ _

variable {x y : ℕ}

theorem word_drawRow (hrow : row.toNat < textRows) (hx : x < lcdWidth) (hy : y < glyphH) :
    word (draw m (drawRow font8x16 row s center)) (textAddr x (row.toNat * glyphH + y)) =
      (Line.mk s center).color font8x16 x y := by
  apply word_draw (dvd_drawRow hrow)
  · exact ⟨_, (mem_drawRow hrow).2 ⟨x, y, hx, hy, rfl⟩, rfl⟩
  · intro st hst heq
    obtain ⟨x', y', hx', hy', rfl⟩ := (mem_drawRow hrow).1 hst
    obtain ⟨rfl, hrows⟩ := textAddr_injective hx' hx heq
    obtain ⟨-, rfl⟩ := row_injective hy' hy hrows
    rfl

/-- The other rows are as they were. -/
theorem word_drawRow_of_ne {r : ℕ} (hrow : row.toNat < textRows) (hr : r ≠ row.toNat)
    (hx : x < lcdWidth) (hy : y < glyphH) :
    word (draw m (drawRow font8x16 row s center)) (textAddr x (r * glyphH + y)) =
      word m (textAddr x (r * glyphH + y)) := by
  apply word_draw_of_ne (dvd_drawRow hrow) (dvd_textAddr _ _)
  intro st hst heq
  obtain ⟨x', y', hx', hy', rfl⟩ := (mem_drawRow hrow).1 hst
  exact hr (row_injective hy' hy (textAddr_injective hx' hx heq).2).1.symm

end Text

/-! ## The bar in memory -/

section Bar

variable {font8x16 : ℕ → ℕ → Byte} {m : ℕ → Byte} {x0 y0 x1 y1 c : U32} {x y : ℕ}

def barAddr (x y : ℕ) : ℕ := fbBar + 4 * (y * barW + x)

theorem dvd_barAddr (x y : ℕ) : 4 ∣ barAddr x y :=
  Nat.dvd_add (by decide) (Nat.dvd_mul_right 4 _)

theorem mem_upTo {i0 i1 i : U32} : i ∈ upTo i0 i1 ↔ i0.toNat ≤ i.toNat ∧ i.toNat < i1.toNat := by
  have hlt := i1.isLt
  rw [upTo, List.mem_map]
  constructor
  · rintro ⟨n, hn, rfl⟩
    rw [List.mem_range'_1] at hn
    rw [BitVec.toNat_ofNat, Nat.mod_eq_of_lt (by omega)]
    omega
  · intro h
    refine ⟨i.toNat, List.mem_range'_1.2 (by omega), ?_⟩
    rw [BitVec.ofNat_toNat, BitVec.setWidth_eq]

/-- The stores of a rectangle, point by point. -/
theorem mem_barRect {st : ℕ × U32} (hx : x1.toNat ≤ barW) (hy : y1.toNat ≤ barH) :
    st ∈ barRect x0 y0 x1 y1 c ↔ ∃ x y, (x0.toNat ≤ x ∧ x < x1.toNat) ∧
      (y0.toNat ≤ y ∧ y < y1.toNat) ∧ st = (barAddr x y, c) := by
  have hpoint {x y : U32} (hx' : x.toNat < x1.toNat) (hy' : y.toNat < y1.toNat) :
      fbBar + 4 * (y * BitVec.ofNat 32 barW + x).toNat = barAddr x.toNat y.toNat := by
    simp only [barW, barH, lcdWidth, barX] at hx hy ⊢
    simp only [barAddr, barW, lcdWidth, barX, BitVec.toNat_add, BitVec.toNat_mul,
      BitVec.toNat_ofNat]
    omega
  simp only [barRect, List.mem_flatMap, List.mem_map, mem_upTo]
  constructor
  · rintro ⟨y, hy', x, hx', rfl⟩
    exact ⟨x.toNat, y.toNat, hx', hy', Prod.ext (hpoint hx'.2 hy'.2) rfl⟩
  · rintro ⟨x, y, hx', hy', rfl⟩
    have hxlt := x1.isLt
    have hylt := y1.isLt
    have hxn : (BitVec.ofNat 32 x).toNat = x := Nat.mod_eq_of_lt (by omega)
    have hyn : (BitVec.ofNat 32 y).toNat = y := Nat.mod_eq_of_lt (by omega)
    refine ⟨BitVec.ofNat 32 y, by rwa [hyn], BitVec.ofNat 32 x, by rwa [hxn], Prod.ext ?_ rfl⟩
    rw [hpoint (by rw [hxn]; exact hx'.2) (by rw [hyn]; exact hy'.2), hxn, hyn]

theorem dvd_barRect (hx : x1.toNat ≤ barW) (hy : y1.toNat ≤ barH) :
    ∀ st ∈ barRect x0 y0 x1 y1 c, 4 ∣ st.1 := by
  intro st hst
  obtain ⟨x, y, -, -, rfl⟩ := (mem_barRect hx hy).1 hst
  exact dvd_barAddr _ _

/-- A rectangle is filled, and the rest of the bar is as it was. -/
theorem word_barRect (hx1 : x1.toNat ≤ barW) (hy1 : y1.toNat ≤ barH) (hx : x < barW) :
    word (draw m (barRect x0 y0 x1 y1 c)) (barAddr x y) =
      if (x0.toNat ≤ x ∧ x < x1.toNat) ∧ y0.toNat ≤ y ∧ y < y1.toNat then c
      else word m (barAddr x y) := by
  have hinj {x' y' : ℕ} (hx' : x' < x1.toNat) (h : barAddr x' y' = barAddr x y) :
      x' = x ∧ y' = y := by
    simp only [barAddr, barW, lcdWidth, barX] at hx hx1 h
    omega
  by_cases hin : (x0.toNat ≤ x ∧ x < x1.toNat) ∧ y0.toNat ≤ y ∧ y < y1.toNat
  · rw [if_pos hin]
    apply word_draw (dvd_barRect hx1 hy1)
    · exact ⟨_, (mem_barRect hx1 hy1).2 ⟨x, y, hin.1, hin.2, rfl⟩, rfl⟩
    · intro st hst _
      obtain ⟨x', y', -, -, rfl⟩ := (mem_barRect hx1 hy1).1 hst
      rfl
  · rw [if_neg hin]
    apply word_draw_of_ne (dvd_barRect hx1 hy1) (dvd_barAddr _ _)
    intro st hst heq
    obtain ⟨x', y', hx', hy', rfl⟩ := (mem_barRect hx1 hy1).1 hst
    obtain ⟨rfl, rfl⟩ := hinj hx'.2 heq
    exact hin ⟨hx', hy'⟩

/-- The text and the bar do not overlap. -/
theorem textAddr_ne_barAddr {x' y' : ℕ} (hx : x < lcdWidth) (hy : y < textRows * glyphH) :
    textAddr x y ≠ barAddr x' y' := by
  simp only [textAddr, barAddr, fbBar, lcdWidth, lcdHeight, textRows, glyphH, fontHeight,
    textScale] at hx hy ⊢
  omega

theorem word_barRect_text (hx1 : x1.toNat ≤ barW) (hy1 : y1.toNat ≤ barH) (hx : x < lcdWidth)
    (hy : y < textRows * glyphH) :
    word (draw m (barRect x0 y0 x1 y1 c)) (textAddr x y) = word m (textAddr x y) := by
  apply word_draw_of_ne (dvd_barRect hx1 hy1) (dvd_textAddr _ _)
  intro st hst heq
  obtain ⟨x', y', -, -, rfl⟩ := (mem_barRect hx1 hy1).1 hst
  exact textAddr_ne_barAddr hx hy heq.symm

theorem word_drawRow_bar {row : U32} {s : List Byte} {center : Bool}
    (hrow : row.toNat < textRows) :
    word (draw m (drawRow font8x16 row s center)) (barAddr x y) = word m (barAddr x y) := by
  apply word_draw_of_ne (dvd_drawRow hrow) (dvd_barAddr _ _)
  intro st hst heq
  obtain ⟨x', y', hx', hy', rfl⟩ := (mem_drawRow hrow).1 hst
  refine textAddr_ne_barAddr hx' ?_ heq
  simp only [textRows, glyphH, fontHeight, textScale] at hrow hy' ⊢
  omega

end Bar

/-! ## The delay -/

section Delay

variable {rd : Readings} {mode : OpMode} {fuel : ℕ} {ms start «from» t w barTarget : U32}
variable {nextRow : ℤ} {s s' : Screen}

/-- The stores that grow the bar from `shown` to `w`. -/
def growth (shown w : U32) : Stores :=
  barRect (BitVec.ofNat 32 barInset + shown) (BitVec.ofNat 32 barInset)
    (BitVec.ofNat 32 barInset + w) (BitVec.ofNat 32 (barH - barInset)) barColor

theorem barGrow_stores (w : U32) (s : Screen) :
    (barGrow w s).stores = s.stores ∧ (barGrow w s).barShown = s.barShown ∨
      s.barShown < w ∧ (barGrow w s).stores = s.stores ++ growth s.barShown w ∧
        (barGrow w s).barShown = w := by
  rw [barGrow]
  by_cases h : w ≤ s.barShown
  · rw [if_pos h]
    exact .inl ⟨rfl, rfl⟩
  · rw [if_neg h]
    exact .inr ⟨BitVec.not_le.1 h, rfl, rfl⟩

theorem quotient_fields {a b q : U32} (h : quotient mode fuel a b s = some (q, s')) :
    s'.stores = s.stores ∧ s'.barShown = s.barShown ∧ s'.log = s.log := by
  obtain ⟨_, -, heq⟩ := Option.map_eq_some_iff.1 h
  obtain ⟨rfl, rfl⟩ := Prod.mk.inj heq
  exact ⟨rfl, rfl, rfl⟩

/-- A round reads the timer and grows the bar. -/
theorem delayRound_eq_barGrow (h : delayRound rd mode fuel ms start «from» s = some (t, s')) :
    ∃ w s₁, s' = barGrow w s₁ ∧ s₁.stores = s.stores ∧ s₁.barShown = s.barShown ∧
      ∃ time, s₁.log = s.log ++ [.read (timerTcnto0, time)] := by
  rw [delayRound] at h
  simp only [Option.bind_eq_bind, Option.bind_eq_some_iff] at h
  obtain ⟨⟨t₀, s₁⟩, hq, h⟩ := h
  obtain ⟨hstores, hshown, hlog⟩ := quotient_fields hq
  dsimp only at h
  generalize (if t₀ > ms then ms else t₀) = t₁ at h
  split_ifs at h
  · obtain ⟨-, rfl⟩ := Prod.mk.inj (Option.some.inj h)
    exact ⟨_, _, rfl, hstores, hshown, _, hlog⟩
  · obtain ⟨⟨grown, s₂⟩, hq', h⟩ := Option.bind_eq_some_iff.1 h
    obtain ⟨hstores', hshown', hlog'⟩ := quotient_fields hq'
    obtain ⟨-, rfl⟩ := Prod.mk.inj (Option.some.inj h)
    exact ⟨_, _, rfl, hstores'.trans hstores, hshown'.trans hshown, _, hlog'.trans hlog⟩

theorem delayRound_log (h : delayRound rd mode fuel ms start «from» s = some (t, s')) :
    ∃ time, s'.log = s.log ++ [.read (timerTcnto0, time)] := by
  obtain ⟨w, s₁, rfl, -, -, time, hlog⟩ := delayRound_eq_barGrow h
  exact ⟨time, (barGrow_log _ _).trans hlog⟩

/-- What every round preserves holds after the delay. -/
theorem delayMs_induction {I : Screen → Prop} (h : delayMs rd mode fuel ms s = some s')
    (hround : ∀ s₁ t s₂, I s₁ → delayRound rd mode fuel ms (s.readIO32 rd timerTcnto0).1
      s.barShown s₁ = some (t, s₂) → I s₂)
    (hstart : I (s.readIO32 rd timerTcnto0).2) : I s' := by
  refine Polling.run_post (I := I) (Q := fun r => ∀ s', r = some s' → I s') ?_ ?_ hstart
    (Option.join_eq_some_iff.1 h) s' rfl
  · intro s₁ s₂ hs₁ hbody
    obtain ⟨t, ht⟩ := delayBody_inl hbody
    exact hround s₁ t s₂ hs₁ ht
  · rintro s₁ _ hs₁ hbody s₂ rfl
    obtain ⟨t, ht, -⟩ := delayBody_inr hbody
    exact hround s₁ t s₂ hs₁ ht

/-- The delay reads the timer, and that is all. -/
theorem delayMs_log (h : delayMs rd mode fuel ms s = some s') :
    ∃ times : List ℕ, s'.log = s.log ++ times.map fun time => .read (timerTcnto0, time) := by
  refine delayMs_induction (I := fun s₁ => ∃ times : List ℕ, s₁.log =
    s.log ++ times.map fun time => .read (timerTcnto0, time)) h ?_ ⟨[s.log.length], rfl⟩
  rintro s₁ t s₂ ⟨times, htimes⟩ hround
  obtain ⟨time, hlog⟩ := delayRound_log hround
  refine ⟨times ++ [time], ?_⟩
  rw [hlog, htimes, List.map_append, List.append_assoc]
  rfl

/-- What a growth of the bar preserves holds after a round. -/
theorem delayRound_stores {P : Stores → U32 → Prop}
    (hP : ∀ stores shown w, shown < w → w ≤ BitVec.ofNat 32 barFillW → P stores shown →
      P (stores ++ growth shown w) w)
    (h : delayRound rd mode fuel ms start «from» s = some (t, s'))
    (hfill : Filling barTarget nextRow s') (hs : P s.stores s.barShown) :
    P s'.stores s'.barShown := by
  obtain ⟨w, s₁, rfl, hstores, hshown, -⟩ := delayRound_eq_barGrow h
  rw [← hstores, ← hshown] at hs
  rcases barGrow_stores w s₁ with ⟨hsame, hsame'⟩ | ⟨hlt, hgrown, hw⟩
  · rwa [hsame, hsame']
  · rw [hgrown, hw]
    obtain ⟨hle, hfits⟩ := hfill.tracked.within hfill.sound
    rw [hw] at hle
    exact hP _ _ _ hlt (BitVec.le_trans hle hfits) hs

/-- What holds of the stores whenever the bar has grown holds of them after the delay. -/
theorem delayMs_stores {P : Stores → U32 → Prop}
    (hP : ∀ stores shown w, shown < w → w ≤ BitVec.ofNat 32 barFillW → P stores shown →
      P (stores ++ growth shown w) w)
    (h : delayMs rd mode fuel ms s = some s') (hs : Filling barTarget nextRow s)
    (hstart : P s.stores s.barShown) : P s'.stores s'.barShown := by
  have hfrom : s.barShown ≤ barTarget := hs.target ▸ (hs.tracked.within hs.sound).1
  have hread : Filling barTarget nextRow (s.readIO32 rd timerTcnto0).2 :=
    ⟨⟨hs.sound.bars, hs.sound.grown, hs.sound.stores, hs.sound.ops⟩, hs.tracked, hs.target,
      hs.nextRow⟩
  refine (delayMs_induction (I := fun s₁ => Filling barTarget nextRow s₁ ∧ P s₁.stores s₁.barShown)
    h ?_ ⟨hread, hstart⟩).2
  rintro s₁ t s₂ ⟨hfill, hs₁⟩ hround
  have hfill' := (delayRound_spec hround hfill hfrom).1
  exact ⟨hfill', delayRound_stores hP hround hfill' hs₁⟩

end Delay

end Gec6818Bl1.Display
