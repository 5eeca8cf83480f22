import Mathlib.Data.List.Chain
import Gec6818Bl1.Display.Screen
import Gec6818Bl1.Lib.Lts

/-!
# Runs of the boot screen

Any sequence of `DisplayInit` and `DisplayStep`, with any texts, any percentages and any readings of
the timer.

* **Drawing.** A rectangle in the bar and a row of the twelve are inside their framebuffers
  (`inFramebuffer_barRect`, `inFramebuffer_drawRow`).
* **The delay.** One round grows the bar to a part of the way to `bar_target`, so no round goes
  beyond it, and the last one, with `t = ms`, goes there (`delayRound_spec`, `delayMs_spec`). `t` is
  in milliseconds, which keeps the product in 32 bits whatever the timer says.
* **The calls.** `DisplayInit` switches the screen on whatever was before, and `DisplayStep` keeps
  it on (`displayInit_settled`, `displayStep_settled`).

The counter runs down and starts over, so the difference of two readings is taken modulo `2 ^ 32`
(`delay_wraps`). All other arithmetic is exact.
-/

namespace Gec6818Bl1.Display

open ByteMem ExactArith

/-- In the 12 rows of text, or in the bar. -/
def InFramebuffer (addr : ℕ) : Prop :=
  fbBase ≤ addr ∧ addr + 4 ≤ fbBase + 4 * (textRows * glyphH * lcdWidth) ∨
    fbBar ≤ addr ∧ addr + 4 ≤ fbBar + 4 * (barW * barH)

/-! ## Drawing -/

theorem lt_of_mem_upTo {i0 i1 i : U32} (h : i ∈ upTo i0 i1) : i.toNat < i1.toNat := by
  obtain ⟨n, hn, rfl⟩ := List.mem_map.1 h
  rw [List.mem_range'_1] at hn
  have hlt := i1.isLt
  rw [BitVec.toNat_ofNat, Nat.mod_eq_of_lt (by omega)]
  omega

theorem inFramebuffer_barRect {x0 y0 x1 y1 color : U32} (hx : x1.toNat ≤ barW)
    (hy : y1.toNat ≤ barH) : ∀ st ∈ barRect x0 y0 x1 y1 color, InFramebuffer st.1 := by
  intro st hst
  obtain ⟨y, hy', hst⟩ := List.mem_flatMap.1 hst
  obtain ⟨x, hx', rfl⟩ := List.mem_map.1 hst
  have hxlt := lt_of_mem_upTo hx'
  have hylt := lt_of_mem_upTo hy'
  right
  simp only [barW, barH, lcdWidth, barX] at *
  have hidx : (y * BitVec.ofNat 32 (800 - 2 * 40) + x).toNat = y.toNat * 720 + x.toNat := by
    rw [BitVec.toNat_add, BitVec.toNat_mul, BitVec.toNat_ofNat]
    omega
  rw [hidx]
  omega

theorem inFramebuffer_drawRow (font8x16 : ℕ → ℕ → Byte) (row : U32) (s : List Byte) (center : Bool)
    (hrow : row.toNat < textRows) : ∀ st ∈ drawRow font8x16 row s center, InFramebuffer st.1 := by
  intro st hst
  obtain ⟨col, hcol, hst⟩ := List.mem_flatMap.1 hst
  obtain ⟨y, hy, hst⟩ := List.mem_flatMap.1 hst
  obtain ⟨x, hx, rfl⟩ := List.mem_map.1 hst
  left
  simp only [List.mem_range, textCols, glyphH, glyphW, textRows, lcdWidth, fontWidth, fontHeight,
    textScale] at *
  have hfb : (row * BitVec.ofNat 32 (16 * 2) * BitVec.ofNat 32 800).toNat = row.toNat * 25600 := by
    simp only [BitVec.toNat_mul, BitVec.toNat_ofNat]
    omega
  rw [hfb]
  omega

theorem inFramebuffer_barInit : ∀ st ∈ barInit, InFramebuffer st.1 := by
  intro st hst
  rcases List.mem_append.1 hst with hst | hst
  · exact inFramebuffer_barRect (by decide) (by decide) st hst
  · exact inFramebuffer_barRect (by decide) (by decide) st hst

/-! ## What the calls leave -/

def Bar.Within (bar : Bar) : Prop :=
  bar.shown ≤ bar.target ∧ bar.target ≤ BitVec.ofNat 32 barFillW

/-- Neither goes back, unless both start anew. -/
def Grown (bar bar' : Bar) : Prop :=
  bar'.anew = true ∨ bar.shown ≤ bar'.shown ∧ bar.target ≤ bar'.target

/-- What has been done so far was as it should be. -/
structure Sound (s : Screen) : Prop where
  bars : ∀ bar ∈ s.bars, bar.Within
  grown : s.bars.IsChain Grown
  stores : ∀ st ∈ s.stores, InFramebuffer st.1
  ops : AllExact s.ops

/-- The bar is as it was last set. -/
def Tracked (s : Screen) : Prop :=
  ∃ anew, s.bars.getLast? = some ⟨anew, s.barShown, s.barTarget⟩

section Sound

variable {s : Screen}

theorem Sound.draw (h : Sound s) {stores : Stores}
    (hstores : ∀ st ∈ stores, InFramebuffer st.1) : Sound (s.draw stores) where
  bars := h.bars
  grown := h.grown
  stores := fun st hst => (List.mem_append.1 hst).elim (h.stores st) (hstores st)
  ops := h.ops

theorem Sound.perform (h : Sound s) {op : Op 32} (hop : op.Exact) : Sound (s.perform op).2 :=
  ⟨h.bars, h.grown, h.stores, h.ops.snoc hop⟩

theorem Sound.setBar (h : Sound s) (bar : Bar) (hwithin : bar.Within)
    (hgrown : ∀ bar' ∈ s.bars.getLast?, Grown bar' bar) :
    Sound (s.setBar bar.anew bar.shown bar.target) where
  bars := fun bar' hbar => (List.mem_append.1 hbar).elim (h.bars bar') fun hmem => by
    rw [List.mem_singleton.1 hmem]
    exact hwithin
  grown := by
    refine h.grown.append (List.isChain_singleton _) ?_
    intro bar' hbar' bar'' hbar''
    obtain rfl := Option.some.inj hbar''
    exact hgrown bar' hbar'
  stores := h.stores
  ops := h.ops

theorem tracked_setBar (anew : Bool) (barShown barTarget : U32) :
    Tracked (s.setBar anew barShown barTarget) :=
  ⟨anew, List.getLast?_concat⟩

theorem Tracked.within (h : Tracked s) (hs : Sound s) :
    s.barShown ≤ s.barTarget ∧ s.barTarget ≤ BitVec.ofNat 32 barFillW := by
  obtain ⟨anew, hlast⟩ := h
  exact hs.bars _ (List.mem_of_getLast? hlast)

theorem Tracked.grown (h : Tracked s) {anew : Bool} {barShown barTarget : U32}
    (hshown : s.barShown ≤ barShown) (htarget : s.barTarget ≤ barTarget) :
    ∀ bar ∈ s.bars.getLast?, Grown bar ⟨anew, barShown, barTarget⟩ := by
  obtain ⟨_, hlast⟩ := h
  intro bar hbar
  obtain rfl := Option.some.inj (hlast.symm.trans hbar)
  exact .inr ⟨hshown, htarget⟩

end Sound

/-! ## The bar grows -/

section Grow

variable {s : Screen} {w : U32}

theorem Sound.barGrow (hs : Sound s) (ht : Tracked s) (hw : w ≤ s.barTarget) :
    Sound (barGrow w s) ∧ Tracked (barGrow w s) := by
  rw [Display.barGrow]
  split_ifs with h
  · exact ⟨hs, ht⟩
  obtain ⟨-, hfill⟩ := ht.within hs
  have hw' : w.toNat ≤ barFillW := Nat.le_trans hw hfill
  have hstores : ∀ st ∈ barRect (BitVec.ofNat 32 barInset + s.barShown) (BitVec.ofNat 32 barInset)
      (BitVec.ofNat 32 barInset + w) (BitVec.ofNat 32 (barH - barInset)) barColor,
      InFramebuffer st.1 := by
    refine inFramebuffer_barRect ?_ (by decide)
    simp only [barFillW, barInset, barBorder, barW, lcdWidth, barX] at hw' ⊢
    rw [BitVec.toNat_add, BitVec.toNat_ofNat]
    omega
  refine ⟨(hs.draw hstores).setBar ⟨false, w, s.barTarget⟩ ⟨hw, hfill⟩ ?_, tracked_setBar _ _ _⟩
  exact ht.grown (BitVec.le_of_lt (BitVec.not_le.1 h)) (BitVec.le_refl _)

theorem barGrow_fields (w : U32) (s : Screen) : (barGrow w s).barTarget = s.barTarget ∧
    (barGrow w s).nextRow = s.nextRow := by
  rw [Display.barGrow]
  split_ifs <;> exact ⟨rfl, rfl⟩

theorem barGrow_target (hs : Sound s) (ht : Tracked s) :
    (barGrow s.barTarget s).barShown = s.barTarget := by
  rw [Display.barGrow]
  split_ifs with h
  · exact BitVec.le_antisymm (ht.within hs).1 h
  · rfl

end Grow

/-! ## The delay -/

/-- Between two rounds of `delay_ms`. -/
structure Filling (barTarget : U32) (nextRow : ℤ) (s : Screen) : Prop where
  sound : Sound s
  tracked : Tracked s
  target : s.barTarget = barTarget
  nextRow : s.nextRow = nextRow

section Delay

variable {rd : Readings} {mode : OpMode} {fuel : ℕ} {a b q ms start «from» t barTarget : U32}
variable {nextRow : ℤ} {s s' : Screen}

theorem quotient_eq (h : quotient mode fuel a b s = some (q, s')) (hb : b ≠ 0) :
    q = a / b ∧ s' = (s.perform (.div a b)).2 := by
  obtain ⟨q', hq, heq⟩ := Option.map_eq_some_iff.1 h
  obtain ⟨rfl, rfl⟩ := Prod.mk.inj heq
  exact ⟨getquotient_of_eq_some hb hq, rfl⟩

theorem Filling.perform (h : Filling barTarget nextRow s) {op : Op 32} (hop : op.Exact) :
    Filling barTarget nextRow (s.perform op).2 :=
  ⟨h.sound.perform hop, h.tracked, h.target, h.nextRow⟩

theorem Filling.quotient (hs : Filling barTarget nextRow s)
    (h : quotient mode fuel a b s = some (q, s')) (hb : b ≠ 0) :
    q = a / b ∧ Filling barTarget nextRow s' := by
  obtain ⟨hq, rfl⟩ := quotient_eq h hb
  exact ⟨hq, hs.perform (show (Op.div a b).Exact from hb)⟩

theorem Filling.barGrow (h : Filling barTarget nextRow s) {w : U32} (hw : w ≤ barTarget) :
    Filling barTarget nextRow (barGrow w s) := by
  obtain ⟨htarget, hrow⟩ := barGrow_fields w s
  obtain ⟨hsound, htracked⟩ := h.sound.barGrow h.tracked (h.target ▸ hw)
  exact ⟨hsound, htracked, htarget.trans h.target, hrow.trans h.nextRow⟩

theorem Filling.fill (h : Filling barTarget nextRow s) : barTarget ≤ BitVec.ofNat 32 barFillW :=
  h.target ▸ (h.tracked.within h.sound).2

theorem toNat_div_1000_le (x : U32) : (x / 1000).toNat ≤ 4294967 := by
  have hx := x.isLt
  rw [BitVec.toNat_udiv, show (1000 : U32).toNat = 1000 from rfl]
  omega

/-- `t` is in milliseconds, so the product fits. -/
theorem fill_exact (hfrom : «from» ≤ barTarget) (hfill : barTarget ≤ BitVec.ofNat 32 barFillW)
    (ht : t.toNat ≤ 4294967) : (Op.mul (barTarget - «from») t).Exact := by
  have hleft : (barTarget - «from»).toNat ≤ 712 := by
    rw [BitVec.toNat_sub_of_le hfrom]
    exact Nat.le_trans (Nat.sub_le _ _) hfill
  calc (barTarget - «from»).toNat * t.toNat ≤ 712 * 4294967 := Nat.mul_le_mul hleft ht
    _ < 2 ^ 32 := by decide

/-- Of what is left to fill no more than all is filled in `t` of `ms`. -/
theorem fill_le (hfrom : «from» ≤ barTarget) (hfill : barTarget ≤ BitVec.ofNat 32 barFillW)
    (ht : t.toNat ≤ 4294967) (hlt : t < ms) :
    «from».toNat + ((barTarget - «from») * t / ms).toNat ≤ barTarget.toNat := by
  have hmul := Op.Exact.toNat_mul (fill_exact hfrom hfill ht)
  have hgrown : ((barTarget - «from») * t / ms).toNat ≤ (barTarget - «from»).toNat := by
    rw [BitVec.toNat_udiv]
    refine Nat.div_le_of_le_mul (hmul.trans_le ?_)
    rw [Nat.mul_comm]
    exact Nat.mul_le_mul_right _ (Nat.le_of_lt hlt)
  rw [BitVec.toNat_sub_of_le hfrom] at hgrown
  have hle : «from».toNat ≤ barTarget.toNat := hfrom
  omega

theorem delayRound_spec (h : delayRound rd mode fuel ms start «from» s = some (t, s'))
    (hs : Filling barTarget nextRow s) (hfrom : «from» ≤ barTarget) :
    Filling barTarget nextRow s' ∧ t ≤ ms ∧ (t = ms → s'.barShown = barTarget) := by
  rw [delayRound] at h
  simp only [Option.bind_eq_bind, Option.bind_eq_some_iff] at h
  obtain ⟨⟨t₀, s₁⟩, hq, h⟩ := h
  dsimp only at h
  have hread : Filling barTarget nextRow ((s.readIO32 rd timerTcnto0).2.performTimer
      (.sub start (s.readIO32 rd timerTcnto0).1)).2 :=
    ⟨⟨hs.sound.bars, hs.sound.grown, hs.sound.stores, hs.sound.ops⟩, hs.tracked, hs.target,
      hs.nextRow⟩
  obtain ⟨ht₀, hs₁⟩ := hread.quotient hq (by decide)
  have hle : (if t₀ > ms then ms else t₀) ≤ ms := by
    split_ifs with hgt
    · exact BitVec.le_refl _
    · exact BitVec.not_lt.1 hgt
  have hbound : (if t₀ > ms then ms else t₀).toNat ≤ 4294967 := by
    have h₀ : t₀.toNat ≤ 4294967 := ht₀ ▸ toNat_div_1000_le _
    split_ifs with hgt
    · exact Nat.le_trans (Nat.le_of_lt hgt) h₀
    · exact h₀
  generalize (if t₀ > ms then ms else t₀) = t₁ at h hle hbound
  split_ifs at h with heq
  · obtain ⟨rfl, rfl⟩ := Prod.mk.inj (Option.some.inj h)
    refine ⟨hs₁.barGrow (BitVec.le_of_eq hs₁.target), hle, fun _ => ?_⟩
    exact (barGrow_target hs₁.sound hs₁.tracked).trans hs₁.target
  · have hlt : t₁ < ms := BitVec.lt_of_le_ne hle heq
    have hms : ms ≠ 0 := fun h0 => by
      rw [h0] at hlt
      exact BitVec.not_lt_zero hlt
    obtain ⟨⟨grown, s₂⟩, hq', h⟩ := Option.bind_eq_some_iff.1 h
    obtain ⟨rfl, rfl⟩ := Prod.mk.inj (Option.some.inj h)
    have hprod : Filling barTarget nextRow ((s₁.perform (.sub s₁.barTarget «from»)).2.perform
        (.mul (s₁.perform (.sub s₁.barTarget «from»)).1 t₁)).2 := by
      refine (hs₁.perform ?_).perform ?_
      · rw [hs₁.target]
        exact hfrom
      · simp only [Screen.perform, Op.eval, hs₁.target]
        exact fill_exact hfrom hs₁.fill hbound
    obtain ⟨hgrown, hs₂⟩ := hprod.quotient hq' hms
    have hfill := fill_le hfrom hs₁.fill hbound hlt
    simp only [Screen.perform, Op.eval, hs₁.target] at hgrown
    rw [← hgrown] at hfill
    have hadd : (Op.add «from» grown).Exact := Nat.lt_of_le_of_lt hfill barTarget.isLt
    refine ⟨(hs₂.perform hadd).barGrow ?_, hle, fun h => absurd h heq⟩
    exact hadd.toNat_add.trans_le hfill

theorem delayBody_inl (h : delayBody rd mode fuel ms start «from» s = .inl s') :
    ∃ t, delayRound rd mode fuel ms start «from» s = some (t, s') := by
  rw [delayBody] at h
  rcases hround : delayRound rd mode fuel ms start «from» s with _ | ⟨t, s₁⟩
  · rw [hround] at h
    cases h
  · rw [hround] at h
    dsimp only at h
    split_ifs at h
    exact ⟨t, by rw [Sum.inl.inj h]⟩

theorem delayBody_inr (h : delayBody rd mode fuel ms start «from» s = .inr (some s')) :
    ∃ t, delayRound rd mode fuel ms start «from» s = some (t, s') ∧ ms ≤ t := by
  rw [delayBody] at h
  rcases hround : delayRound rd mode fuel ms start «from» s with _ | ⟨t, s₁⟩
  · rw [hround] at h
    cases h
  · rw [hround] at h
    dsimp only at h
    split_ifs at h with hlt
    exact ⟨t, by rw [Option.some.inj (Sum.inr.inj h)], BitVec.not_lt.1 hlt⟩

/-- **`delay_ms`** returns with the bar where it was to go. -/
theorem delayMs_spec (h : delayMs rd mode fuel ms s = some s')
    (hs : Filling barTarget nextRow s) :
    Filling barTarget nextRow s' ∧ s'.barShown = barTarget := by
  have hfrom : s.barShown ≤ barTarget := hs.target ▸ (hs.tracked.within hs.sound).1
  have hread : Filling barTarget nextRow (s.readIO32 rd timerTcnto0).2 :=
    ⟨⟨hs.sound.bars, hs.sound.grown, hs.sound.stores, hs.sound.ops⟩, hs.tracked, hs.target,
      hs.nextRow⟩
  refine Polling.run_post (I := Filling barTarget nextRow)
    (Q := fun r => ∀ s', r = some s' → Filling barTarget nextRow s' ∧ s'.barShown = barTarget)
    ?_ ?_ hread (Option.join_eq_some_iff.1 h) s' rfl
  · intro s₁ s₂ hs₁ hbody
    obtain ⟨t, hround⟩ := delayBody_inl hbody
    exact (delayRound_spec hround hs₁ hfrom).1
  · rintro s₁ _ hs₁ hbody s₂ rfl
    obtain ⟨t, hround, hms⟩ := delayBody_inr hbody
    obtain ⟨hs₂, hle, hshown⟩ := delayRound_spec hround hs₁ hfrom
    exact ⟨hs₂, hshown (BitVec.le_antisymm hle hms)⟩

end Delay

/-! ## The calls -/

section Calls

variable {rd : Readings} {mode : OpMode} {fuel : ℕ} {cfg : Config} {font8x16 : ℕ → ℕ → Byte}
variable {s s' : Screen}

/-- After a call that has found the screen on. -/
structure Settled (s : Screen) : Prop where
  sound : Sound s
  tracked : Tracked s
  filled : s.barShown = s.barTarget
  nextRow : 2 ≤ s.nextRow ∧ s.nextRow ≤ textRows

theorem Filling.settled {barTarget : U32} {nextRow : ℤ} (h : Filling barTarget nextRow s)
    (hfilled : s.barShown = barTarget) (hrow : 2 ≤ nextRow ∧ nextRow ≤ textRows) : Settled s :=
  ⟨h.sound, h.tracked, hfilled.trans h.target.symm, h.nextRow.symm ▸ hrow⟩

theorem Filling.draw {barTarget : U32} {nextRow : ℤ} (h : Filling barTarget nextRow s)
    {stores : Stores} (hstores : ∀ st ∈ stores, InFramebuffer st.1) :
    Filling barTarget nextRow (s.draw stores) :=
  ⟨h.sound.draw hstores, h.tracked, h.target, h.nextRow⟩

theorem Filling.exec {barTarget : U32} {nextRow : ℤ} (h : Filling barTarget nextRow s)
    (rd : Readings) (ops : List RegOp) : Filling barTarget nextRow (s.exec rd ops) :=
  ⟨⟨h.sound.bars, h.sound.grown, h.sound.stores, h.sound.ops⟩, h.tracked, h.target, h.nextRow⟩

theorem Filling.setNextRow {barTarget : U32} {nextRow : ℤ} (h : Filling barTarget nextRow s)
    (nextRow' : ℤ) : Filling barTarget nextRow' (s.setNextRow nextRow') :=
  ⟨⟨h.sound.bars, h.sound.grown, h.sound.stores, h.sound.ops⟩, h.tracked, h.target, rfl⟩

/-- What `DisplayInit` does before its delay. -/
theorem Sound.setUp (hs : Sound s) (title : List Byte) (level : Option U32) :
    Filling 0 2 ((((((s.draw (drawRow font8x16 0 title true)).draw
      (drawRow font8x16 1 [] false)).setBar true 0 0).draw barInit).exec rd
        (displaySetup level)).exec rd timerInit |>.setNextRow 2) := by
  have hdraw := (hs.draw (inFramebuffer_drawRow font8x16 0 title true (by decide))).draw
    (inFramebuffer_drawRow font8x16 1 [] false (by decide))
  have hbar : Filling 0 s.nextRow _ :=
    ⟨hdraw.setBar ⟨true, 0, 0⟩ ⟨by decide, by decide⟩ fun _ _ => .inl rfl, tracked_setBar _ _ _,
      rfl, rfl⟩
  exact (((hbar.draw inFramebuffer_barInit).exec rd (displaySetup level)).exec rd
    timerInit).setNextRow 2

/-- `DisplayInit`, whatever the variables held. -/
theorem displayInit_settled {title : List Byte} (hs : Sound s)
    (h : displayInit rd mode fuel cfg font8x16 title s = some s') : Settled s' := by
  obtain ⟨hfilling, hfilled⟩ := delayMs_spec h (hs.setUp title cfg.lcdBacklightLevel)
  exact hfilling.settled hfilled (by decide)

theorem percent_le (percent : U32) : (if percent > 100 then 100 else percent).toNat ≤ 100 := by
  split_ifs with h
  · exact Nat.le_refl _
  · exact BitVec.not_lt.1 h

theorem percent_exact (percent : U32) :
    (Op.mul (if percent > 100 then 100 else percent) (BitVec.ofNat 32 barFillW)).Exact :=
  calc (if percent > 100 then 100 else percent).toNat * (BitVec.ofNat 32 barFillW).toNat
      ≤ 100 * (BitVec.ofNat 32 barFillW).toNat := Nat.mul_le_mul_right _ (percent_le percent)
    _ < 2 ^ 32 := by decide

/-- A hundred percent is the whole bar. -/
theorem percent_target_le (percent : U32) :
    (if percent > 100 then 100 else percent) * BitVec.ofNat 32 barFillW / 100 ≤
      BitVec.ofNat 32 barFillW := by
  have hmul := Op.Exact.toNat_mul (percent_exact percent)
  rw [BitVec.le_def, BitVec.toNat_udiv]
  exact Nat.div_le_of_le_mul (hmul.trans_le (Nat.mul_le_mul_right _ (percent_le percent)))

theorem Filling.raiseTarget {barTarget target : U32} {nextRow : ℤ}
    (h : Filling barTarget nextRow s) (htarget : target ≤ BitVec.ofNat 32 barFillW) :
    ∃ barTarget, Filling barTarget nextRow (raiseTarget target s) := by
  rw [Display.raiseTarget]
  split_ifs with hgt
  · have hle := BitVec.le_of_lt hgt
    have hshown : s.barShown ≤ target := BitVec.le_trans (h.tracked.within h.sound).1 hle
    exact ⟨target, h.sound.setBar ⟨false, s.barShown, target⟩ ⟨hshown, htarget⟩
      (h.tracked.grown (BitVec.le_refl _) hle), tracked_setBar _ _ _, rfl, h.nextRow⟩
  · exact ⟨barTarget, h⟩

/-- The row that is drawn is one of the twelve, and so is what is left of them. -/
theorem Filling.putRow {barTarget : U32} {nextRow : ℤ} (h : Filling barTarget nextRow s)
    (hrow : 2 ≤ nextRow ∧ nextRow ≤ textRows) (buf : List Byte) :
    ∃ nextRow : ℤ, (2 ≤ nextRow ∧ nextRow ≤ textRows) ∧
      Filling barTarget nextRow (putRow rd font8x16 buf s) := by
  rw [Display.putRow, h.nextRow]
  simp only [textRows] at hrow ⊢
  have hdraw : 2 ≤ (if nextRow = 12 then nextRow - 1 else nextRow) ∧
      (if nextRow = 12 then nextRow - 1 else nextRow) < 12 := by
    split_ifs <;> omega
  refine ⟨(if nextRow = 12 then nextRow - 1 else nextRow) + 1, by omega,
    ((h.draw (inFramebuffer_drawRow _ _ _ _ ?_)).setNextRow _).exec rd _⟩
  rw [BitVec.toNat_ofInt]
  simp only [textRows]
  omega

theorem displayStep_settled {percent : U32} {buf : List Byte} (hs : Settled s)
    (h : displayStep rd mode fuel cfg font8x16 percent buf s = some s') : Settled s' := by
  have hon : ¬ s.nextRow < 0 := by
    have := hs.nextRow.1
    omega
  rw [displayStep, if_neg hon] at h
  simp only [Option.bind_eq_bind, Option.bind_eq_some_iff] at h
  obtain ⟨⟨target, s₁⟩, hq, h⟩ := h
  have hs₀ : Filling s.barTarget s.nextRow s := ⟨hs.sound, hs.tracked, rfl, rfl⟩
  obtain ⟨htarget, hs₁⟩ := (hs₀.perform (percent_exact percent)).quotient hq (by decide)
  obtain ⟨barTarget, hs₂⟩ := hs₁.raiseTarget (htarget.symm ▸ percent_target_le percent)
  obtain ⟨nextRow, hrow, hs₃⟩ := hs₂.putRow hs.nextRow buf
  obtain ⟨hfilling, hfilled⟩ := delayMs_spec h hs₃
  exact hfilling.settled hfilled hrow

/-- A call that finds the screen on leaves it on. -/
theorem call_settled {c : Call} (hs : Settled s)
    (h : call rd mode fuel cfg font8x16 s c = some s') : Settled s' := by
  cases c with
  | init title => exact displayInit_settled hs.sound h
  | step percent buf => exact displayStep_settled hs h

theorem displayStep_boot (percent barShown barTarget : U32) (buf : List Byte) :
    displayStep rd mode fuel cfg font8x16 percent buf (.boot barShown barTarget) =
      some (.boot barShown barTarget) := rfl

theorem sound_boot (barShown barTarget : U32) : Sound (.boot barShown barTarget) :=
  ⟨List.forall_mem_nil _, List.isChain_nil, List.forall_mem_nil _, allExact_nil⟩

end Calls

/-! ## A delay of nothing -/

section Zero

variable {rd : Readings} {mode : OpMode} {fuel : ℕ}

theorem quotient_eq_some {a b : U32} (hb : b ≠ 0) (hfuel : 33 ≤ fuel) (s : Screen) :
    quotient mode fuel a b s = some (a / b, (s.perform (.div a b)).2) := by
  rw [quotient, getquotient_eq mode hb hfuel]
  rfl

theorem barGrow_timerOps (w : U32) (s : Screen) : (barGrow w s).timerOps = s.timerOps := by
  rw [barGrow]
  split_ifs <;> rfl

theorem barGrow_log (w : U32) (s : Screen) : (barGrow w s).log = s.log := by
  rw [barGrow]
  split_ifs <;> rfl

theorem barGrow_nextRow (w : U32) (s : Screen) : (barGrow w s).nextRow = s.nextRow := by
  rw [barGrow]
  split_ifs <;> rfl

variable (rd mode)

theorem delayRound_zero (hfuel : 33 ≤ fuel) (start «from» : U32) (s : Screen) :
    ∃ s', delayRound rd mode fuel 0 start «from» s = some (0, s') ∧
      s'.timerOps = s.timerOps ++ [.sub start (rd (timerTcnto0, s.log.length))] ∧
      s'.nextRow = s.nextRow ∧ s'.log = s.log ++ [.read (timerTcnto0, s.log.length)] := by
  have hzero : ∀ t : U32, (if t > 0 then 0 else t) = 0 := by
    intro t
    split_ifs with h
    · rfl
    · exact BitVec.le_zero_iff.1 (BitVec.not_lt.1 h)
  rw [delayRound]
  simp only [quotient_eq_some (show (1000 : U32) ≠ 0 by decide) hfuel, Option.bind_eq_bind,
    Option.bind_some, hzero, if_true]
  exact ⟨_, rfl, barGrow_timerOps _ _, barGrow_nextRow _ _, barGrow_log _ _⟩

/-- `ReadIO32(&timer->TCNTO0)` before the loop and in its only round. -/
def delayReads : List RegOp := [.read timerTcnto0, .read timerTcnto0]

/-- With `BOOT_LOGO_DELAY_MS` 0 the timer is read twice, and the bar is filled at once. -/
theorem delayMs_zero (hfuel : 33 ≤ fuel) (s : Screen) :
    ∃ s', delayMs rd mode fuel 0 s = some s' ∧ s'.timerOps = s.timerOps ++
        [.sub (rd (timerTcnto0, s.log.length)) (rd (timerTcnto0, s.log.length + 1))] ∧
      s'.nextRow = s.nextRow ∧ s'.log = RegTrace.exec rd Prod.mk delayReads s.log := by
  obtain ⟨s', hround, htimer, hrow, hlog⟩ := delayRound_zero rd mode hfuel
    (s.readIO32 rd timerTcnto0).1 s.barShown (s.readIO32 rd timerTcnto0).2
  have hbody : delayBody rd mode fuel 0 (s.readIO32 rd timerTcnto0).1 s.barShown
      (s.readIO32 rd timerTcnto0).2 = .inr (some s') := by
    rw [delayBody, hround]
    rfl
  refine ⟨s', Option.join_eq_some_iff.2 (Polling.run_first (by omega) hbody), ?_, hrow, hlog⟩
  rw [htimer]
  simp [Screen.readIO32]

variable (cfg : Config) (font8x16 : ℕ → ℕ → Byte)

theorem displayInit_zero (hfuel : 33 ≤ fuel) (hcfg : cfg.bootLogoDelayMs = 0) (title : List Byte)
    (s : Screen) : ∃ s' t, displayInit rd mode fuel cfg font8x16 title s = some s' ∧
      t = (RegTrace.exec rd Prod.mk timerInit
        (RegTrace.exec rd Prod.mk (displaySetup cfg.lcdBacklightLevel) s.log)).length ∧
      s'.timerOps = s.timerOps ++ [.sub (rd (timerTcnto0, t)) (rd (timerTcnto0, t + 1))] := by
  rw [displayInit, hcfg]
  obtain ⟨s', h, htimer, -⟩ := delayMs_zero rd mode hfuel _
  exact ⟨s', _, h, rfl, htimer⟩

theorem raiseTarget_kept (target : U32) (s : Screen) :
    (raiseTarget target s).nextRow = s.nextRow ∧ (raiseTarget target s).log = s.log := by
  rw [raiseTarget]
  split_ifs <;> exact ⟨rfl, rfl⟩

/-- What a call does on the bus then, and the row that it leaves. -/
def callOps (nextRow : ℤ) : Call → ℤ × List RegOp
  | .init _ => (2, displaySetup cfg.lcdBacklightLevel ++ timerInit ++ delayReads)
  | .step _ _ =>
    if nextRow < 0 then (nextRow, [])
    else
      let row := (if nextRow = textRows then nextRow - 1 else nextRow) + 1
      (row, showRows (BitVec.ofInt 32 row) ++ delayReads)

def runOps : ℤ → List Call → List RegOp
  | _, [] => []
  | nextRow, c :: calls => (callOps cfg nextRow c).2 ++ runOps (callOps cfg nextRow c).1 calls

/-- Then every call returns and is straight code on the bus, and so is every sequence of calls. -/
theorem call_zero (hfuel : 33 ≤ fuel) (hcfg : cfg.bootLogoDelayMs = 0) (s : Screen) (c : Call) :
    ∃ s', call rd mode fuel cfg font8x16 s c = some s' ∧
      s'.nextRow = (callOps cfg s.nextRow c).1 ∧
      s'.log = RegTrace.exec rd Prod.mk (callOps cfg s.nextRow c).2 s.log := by
  cases c with
  | init title =>
    rw [call, displayInit, hcfg]
    obtain ⟨s', h, -, hrow, hlog⟩ := delayMs_zero rd mode hfuel _
    refine ⟨s', h, hrow, hlog.trans ?_⟩
    rw [callOps, RegTrace.exec_append, RegTrace.exec_append]
    rfl
  | step percent buf =>
    rw [call, displayStep]
    by_cases hoff : s.nextRow < 0
    · rw [if_pos hoff, callOps, if_pos hoff]
      exact ⟨s, rfl, rfl, rfl⟩
    · rw [if_neg hoff, callOps, if_neg hoff]
      simp only [quotient_eq_some (show (100 : U32) ≠ 0 by decide) hfuel, Option.bind_eq_bind,
        Option.bind_some, hcfg]
      generalize hs₁ : raiseTarget _ _ = s₁
      have hkept : s₁.nextRow = s.nextRow ∧ s₁.log = s.log := hs₁ ▸ raiseTarget_kept _ _
      obtain ⟨s', h, -, hrow, hlog⟩ := delayMs_zero rd mode hfuel (putRow rd font8x16 buf s₁)
      refine ⟨s', h, hrow.trans ?_, hlog.trans ?_⟩
      · rw [putRow, ← hkept.1]
        rfl
      · rw [RegTrace.exec_append, putRow, ← hkept.1, ← hkept.2]
        rfl

theorem run_zero (hfuel : 33 ≤ fuel) (hcfg : cfg.bootLogoDelayMs = 0) (s : Screen)
    (calls : List Call) : ∃ s', Lts.run (call rd mode fuel cfg font8x16) s calls = some s' ∧
      s'.log = RegTrace.exec rd Prod.mk (runOps cfg s.nextRow calls) s.log := by
  induction calls generalizing s with
  | nil => exact ⟨s, rfl, rfl⟩
  | cons c calls ih =>
    obtain ⟨s₁, hcall, hrow, hlog⟩ := call_zero rd mode cfg font8x16 hfuel hcfg s c
    obtain ⟨s', hrun, hlog'⟩ := ih s₁
    refine ⟨s', ?_, ?_⟩
    · rw [Lts.run, hcall]
      exact hrun
    · rw [hlog', hlog, hrow, runOps, RegTrace.exec_append]

end Zero

/-! ## Every run -/

section Runs

variable {rd : Readings} {mode : OpMode} {fuel : ℕ} {cfg : Config} {font8x16 : ℕ → ℕ → Byte}
variable {s : Screen}

/-- **The boot screen.** Whatever is called, with whatever texts, percentages and readings: what the
bar is set to is in bounds and never goes back, each store is in a framebuffer and no operation
wraps or divides by zero, the difference of two readings of the timer apart. From the first
`DisplayInit` on each call returns with the bar filled up to its target and a row of the twelve to
go on with. Before it nothing happens. -/
theorem boot_screen {calls : List Call} {barShown barTarget : U32}
    (h : Lts.run (call rd mode fuel cfg font8x16) (.boot barShown barTarget) calls = some s) :
    Sound s ∧ ((∃ title, .init title ∈ calls) → Settled s) ∧
      ((∀ title, .init title ∉ calls) → s = .boot barShown barTarget) := by
  induction calls with
  | nil =>
    obtain rfl := Option.some.inj h
    refine ⟨sound_boot _ _, ?_, fun _ => rfl⟩
    intro ⟨title, hmem⟩
    cases hmem
  | cons c calls ih =>
    obtain ⟨s₁, hcall, hrun⟩ := Lts.run_cons h
    cases c with
    | init title =>
      have hsettled := Lts.run_invariant (fun _ _ _ => call_settled)
        (displayInit_settled (sound_boot _ _) hcall) hrun
      refine ⟨hsettled.sound, fun _ => hsettled, ?_⟩
      intro hnone
      exact absurd List.mem_cons_self (hnone title)
    | step percent buf =>
      rw [call, displayStep_boot] at hcall
      obtain rfl := Option.some.inj hcall
      obtain ⟨hsound, hinit, hnone⟩ := ih hrun
      refine ⟨hsound, ?_, ?_⟩
      · intro ⟨title, hmem⟩
        refine hinit ⟨title, (List.mem_cons.1 hmem).resolve_left ?_⟩
        intro heq
        cases heq
      · intro hcons
        exact hnone fun title hmem => hcons title (List.mem_cons_of_mem _ hmem)

end Runs

/-- The title, and a step that asks for more than there is. -/
theorem boot_screen_title : ∃ s,
    Lts.run (call (fun _ => 0) .aarch32 33 ⟨0, none⟩ fun _ _ => 0) (.boot 0xFFFFFFFF 7)
        [.init [0x42, 0x4C, 0x31], .step 250 []] = some s ∧
      Sound s ∧ Settled s := by
  obtain ⟨s, hrun, -⟩ := run_zero (fun _ => 0) .aarch32 ⟨0, none⟩ (fun _ _ => 0) (Nat.le_refl 33) rfl
    (.boot 0xFFFFFFFF 7) [.init [0x42, 0x4C, 0x31], .step 250 []]
  obtain ⟨hsound, hinit, -⟩ := boot_screen hrun
  exact ⟨s, hrun, hsound, hinit ⟨_, List.mem_cons_self⟩⟩

/-- The counter stands at 0 when the delay begins, and then starts over. -/
def atReload : Readings := fun q => if q.2 ≤ 138 then 0 else 0xFFFFFFFF

/-- The difference of the two readings is below zero. -/
theorem delay_wraps : ∃ s,
    Lts.run (call atReload .aarch64 33 ⟨0, none⟩ fun _ _ => 0) (.boot 0 0) [.init []] = some s ∧
      ¬ AllExact (s.ops ++ s.timerOps) := by
  obtain ⟨s, t, hinit, ht, htimer⟩ := displayInit_zero atReload .aarch64 ⟨0, none⟩ (fun _ _ => 0)
    (Nat.le_refl 33) rfl [] (.boot 0 0)
  have hlog : (RegTrace.exec atReload Prod.mk timerInit
      (RegTrace.exec atReload Prod.mk (displaySetup none) [])).length = 138 := by decide +kernel
  refine ⟨s, ?_, ?_⟩
  · rw [Lts.run, call, hinit]
    rfl
  · intro hexact
    have hwrap : s.timerOps = [.sub 0 0xFFFFFFFF] := by
      refine htimer.trans ?_
      rw [ht.trans hlog]
      rfl
    rw [hwrap] at hexact
    exact absurd ((allExact_append.1 hexact).2 _ List.mem_cons_self) (by decide)

end Gec6818Bl1.Display
