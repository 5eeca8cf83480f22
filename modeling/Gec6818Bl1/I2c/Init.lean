import Gec6818Bl1.I2c.Lines

/-!
# I2C_Init on the emulator

`I2C_Init` of `i2c_gpio.c` on the bank that `s5p6818_emu.py` gives the GEC6818's PMIC: pins 15 and 16,
which are GPIO under alternate function 1.

Its writes can make and break conditions before both pins are muxed, whatever the registers held.
An idle slave sees too few edges for a whole byte (`Quiet`), and the last pin that is muxed lets the
data line up while the clock is high: a stop. So the bus is free at the end (`i2cInit_at`).
-/

namespace Gec6818Bl1.I2c

open ByteMem Polling OpenDrain Emulator

/-- The pins of the board's PMIC. -/
def gecPins : Pins := ⟨15, 16, by decide, by decide, by decide⟩

/-! ## A slave that sees a few edges -/

/-- An idle slave that has been called at most `k` times since. -/
structure Quiet (regs : Byte → Byte) (k : ℕ) (s : Axp228) : Prop where
  regs_eq : s.regs = regs
  low_eq : s.low = false
  state_or : s.state = .idle ∨ s.state = .recv ∧ s.phase = .data ∧ s.bits ≤ k

section Quiet

variable {regs : Byte → Byte} {k : ℕ} {s : Axp228} {g : I2cGpio}

theorem Quiet.start (h : Quiet regs k s) : Quiet regs (k + 1) s.start :=
  ⟨h.regs_eq, rfl, .inr ⟨rfl, rfl, Nat.zero_le _⟩⟩

theorem Quiet.stop (h : Quiet regs k s) : Quiet regs (k + 1) s.stop :=
  ⟨h.regs_eq, rfl, .inl rfl⟩

theorem Quiet.mono (h : Quiet regs k s) : Quiet regs (k + 1) s :=
  ⟨h.regs_eq, h.low_eq, h.state_or.imp id fun ⟨hs, hp, hb⟩ => ⟨hs, hp, Nat.le_succ_of_le hb⟩⟩

theorem Quiet.rise (h : Quiet regs k s) (b : Bool) : Quiet regs (k + 1) (s.rise b) := by
  rcases h.state_or with hidle | ⟨hstate, hphase, hbits⟩
  · rw [Axp228.rise_idle hidle]
    exact h.mono
  · rw [Axp228.rise_recv hstate hphase]
    exact ⟨h.regs_eq, h.low_eq, .inr ⟨hstate, hphase, Nat.succ_le_succ hbits⟩⟩

theorem Quiet.fall (h : Quiet regs k s) (hk : k < 8) : Quiet regs (k + 1) s.fall := by
  rcases h.state_or with hidle | ⟨hstate, hphase, hbits⟩
  · rw [Axp228.fall_idle hidle]
    exact h.mono
  · rw [Axp228.fall_of_bits_lt hstate hphase (Nat.lt_of_le_of_lt hbits hk)]
    exact h.mono

theorem Quiet.write (h : Quiet regs k g.slave) (hk : k < 8) (off : ℕ) (val : BitVec 32) :
    Quiet regs (k + 1) (g.write off val).slave := by
  simp only [I2cGpio.write, I2cGpio.update]
  split_ifs
  · simp only [I2cGpio.edge]
    split_ifs
    · exact h.stop
    · exact h.start
    · exact h.rise _
    · exact h.fall hk
    · exact h.mono
  · exact h.mono

end Quiet

/-! ## The registers -/

section Registers

variable {m : Master I2cGpio} {reg : ℕ} {data : BitVec 32}

theorem write_regs (g : I2cGpio) (off : ℕ) (val : BitVec 32) :
    (g.write off val).regs = Function.update g.regs off val ∧ (g.write off val).scl = g.scl ∧
      (g.write off val).sda = g.sda ∧ (g.write off val).alt = g.alt := by
  simp only [I2cGpio.write, I2cGpio.update]
  split_ifs
  · exact edge_regs _ _ _
  · exact ⟨rfl, rfl, rfl, rfl⟩

/-- The slave does not touch the clock. -/
theorem edge_lines_scl (g : I2cGpio) (scl sda : Bool) (hlt : g.scl < 32) (hne : g.scl ≠ g.sda) :
    (g.edge scl sda).lines.getLsbD g.scl = g.lines.getLsbD g.scl := by
  obtain ⟨hregs, hscl, hsda, halt⟩ := edge_regs g scl sda
  have hmux : ∀ pin, (g.edge scl sda).muxed pin = g.muxed pin := fun pin => by
    simp only [I2cGpio.muxed, hregs, halt]
  rw [I2cGpio.getLsbD_lines _ hlt, I2cGpio.getLsbD_lines _ hlt, hregs, hscl, hsda, hmux, hmux]
  simp [hne]

/-- `prev` is the level of the lines as the slave has left them. -/
theorem write_prev (g : I2cGpio) {off : ℕ} (val : BitVec 32)
    (hoff : off = I2cGpio.out ∨ off = I2cGpio.outenb ∨ off >>> 3 = I2cGpio.altfn0 >>> 3)
    (hlt : g.scl < 32) (hne : g.scl ≠ g.sda) : (g.write off val).prev =
      ((g.write off val).lines.getLsbD g.scl, (g.write off val).lines.getLsbD g.sda) := by
  simp only [I2cGpio.write, if_pos hoff]
  refine Prod.ext ?_ ?_
  · exact (edge_lines_scl { g with regs := Function.update g.regs off val } _ _ hlt hne).symm
  · exact congrArg (I2cGpio.lines _).getLsbD
      (edge_regs { g with regs := Function.update g.regs off val } _ _).2.2.1

theorem setIO32_dev (h : reg ≠ I2cGpio.pad) : (setIO32 I2cGpio.bus reg data m).dev =
    m.dev.write reg (m.dev.regs reg ||| data) := by
  simp only [setIO32, Bus.modify, I2cGpio.bus, I2cGpio.read, if_neg h]

theorem clearIO32_dev (h : reg ≠ I2cGpio.pad) : (clearIO32 I2cGpio.bus reg data m).dev =
    m.dev.write reg (m.dev.regs reg &&& ~~~data) := by
  simp only [clearIO32, Bus.modify, I2cGpio.bus, I2cGpio.read, if_neg h]

end Registers

/-! ## Two bits of a register -/

section Field

variable (v : BitVec 32) {k : ℕ}

theorem and_three_eq_one {x : BitVec 32} (h0 : x.getLsbD 0 = true) (h1 : x.getLsbD 1 = false) :
    x &&& 3 = 1 := by
  apply BitVec.eq_of_getLsbD_eq
  intro i _
  rw [BitVec.getLsbD_and]
  match i with
  | 0 => rw [h0]; rfl
  | 1 => rw [h1]; rfl
  | i + 2 =>
    have hthree : (3 : BitVec 32).getLsbD (i + 2) = false := by
      simp [BitVec.getLsbD_ofNat, Nat.testBit_succ]
    have hone : (1 : BitVec 32).getLsbD (i + 2) = false := by
      simp [BitVec.getLsbD_ofNat, Nat.testBit_succ]
    rw [hthree, hone, Bool.and_false]

theorem field_set (hk : k ≤ 30) :
    ((v &&& ~~~(3#32 <<< k) ||| 1#32 <<< k) >>> k) &&& 3 = 1 := by
  apply and_three_eq_one
  · simp [show k < 32 by omega]
  · simp

theorem field_clear (hk : k ≤ 30) : ((v &&& ~~~(3#32 <<< k)) >>> k) &&& 3 ≠ 1 := by
  intro h
  have hbit := congrArg (fun x : BitVec 32 => x.getLsbD 0) h
  simp [show k < 32 by omega] at hbit

end Field

/-! ## The initialisation -/

section Init

variable {regs : Byte → Byte} {m : Master I2cGpio} {g : I2cGpio}

/-- The outputs are low and disabled, and the clock is muxed. -/
structure Grounded (g : I2cGpio) : Prop where
  scl_eq : g.scl = 15
  sda_eq : g.sda = 16
  alt_eq : g.alt = 1
  out_scl : (g.regs I2cGpio.out).getLsbD 15 = false
  out_sda : (g.regs I2cGpio.out).getLsbD 16 = false
  outenb_scl : (g.regs I2cGpio.outenb).getLsbD 15 = false
  outenb_sda : (g.regs I2cGpio.outenb).getLsbD 16 = false
  muxed_scl : g.muxed 15 = true

/-- Only three registers matter, and what pin 16 is muxed to is in none of them. -/
theorem Grounded.congr {g' : I2cGpio} (h : Grounded g) (hscl : g'.scl = g.scl)
    (hsda : g'.sda = g.sda) (halt : g'.alt = g.alt)
    (hregs : ∀ off ∈ [I2cGpio.out, I2cGpio.outenb, I2cGpio.altfn0], g'.regs off = g.regs off) :
    Grounded g' := by
  have hout : g'.regs I2cGpio.out = g.regs I2cGpio.out := hregs _ (by simp)
  have houtenb : g'.regs I2cGpio.outenb = g.regs I2cGpio.outenb := hregs _ (by simp)
  have haltfn : g'.regs I2cGpio.altfn0 = g.regs I2cGpio.altfn0 := hregs _ (by simp)
  refine ⟨hscl.trans h.scl_eq, hsda.trans h.sda_eq, halt.trans h.alt_eq, ?_, ?_, ?_, ?_, ?_⟩
  · rw [hout, h.out_scl]
  · rw [hout, h.out_sda]
  · rw [houtenb, h.outenb_scl]
  · rw [houtenb, h.outenb_sda]
  · rw [← h.muxed_scl]
    change decide ((g'.regs I2cGpio.altfn0 >>> 30) &&& 3 = g'.alt) = _
    rw [haltfn, halt]
    rfl

/-- A write to another register. -/
theorem Grounded.write (h : Grounded g) {off : ℕ} (val : BitVec 32)
    (hoff : off ∉ [I2cGpio.out, I2cGpio.outenb, I2cGpio.altfn0]) : Grounded (g.write off val) := by
  obtain ⟨hregs, hscl, hsda, halt⟩ := write_regs g off val
  refine h.congr hscl hsda halt fun off' hoff' => ?_
  rw [hregs]
  refine Function.update_of_ne ?_ _ _
  rintro rfl
  exact hoff hoff'

theorem Grounded.lines_scl (h : Grounded g) : g.lines.getLsbD 15 = true := by
  rw [I2cGpio.getLsbD_lines g (by decide), h.scl_eq, h.sda_eq, h.muxed_scl, h.outenb_scl]
  simp

theorem Grounded.driven (h : Grounded g) (hmux : g.muxed 16 = true) :
    Driven gecPins true true g :=
  ⟨h.scl_eq, h.sda_eq, h.muxed_scl, hmux, h.out_scl, h.out_sda, h.outenb_scl, h.outenb_sda⟩

/-- While pin 16 is not GPIO the data line reads as low. -/
theorem Grounded.lines_sda (h : Grounded g) (hmux : g.muxed 16 = false) :
    g.lines.getLsbD 16 = false := by
  rw [I2cGpio.getLsbD_lines g (by decide), h.sda_eq, hmux]
  simp

/-- Pin 16 is taken off GPIO: the slave now sees a low data line, whatever it was. -/
theorem Grounded.unmux (h : Grounded g) {val : BitVec 32} (hval : (val >>> 0) &&& 3 ≠ 1) :
    Grounded (g.write (Reg.gpioxAltfn 1) val) ∧
      (g.write (Reg.gpioxAltfn 1) val).prev = (true, false) := by
  have hg : Grounded (g.write (Reg.gpioxAltfn 1) val) := h.write val (by decide)
  have hmux : (g.write (Reg.gpioxAltfn 1) val).muxed 16 = false := by
    change decide (((g.write (Reg.gpioxAltfn 1) val).regs (Reg.gpioxAltfn 1) >>> 0) &&& 3 =
      (g.write (Reg.gpioxAltfn 1) val).alt) = false
    rw [(write_regs g (Reg.gpioxAltfn 1) val).1, Function.update_self, hg.alt_eq]
    exact decide_eq_false hval
  refine ⟨hg, ?_⟩
  rw [write_prev g val (by decide) (by rw [h.scl_eq]; decide)
    (by rw [h.scl_eq, h.sda_eq]; decide), h.scl_eq, h.sda_eq, hg.lines_scl, hg.lines_sda hmux]

/-- Pin 16 becomes GPIO while the clock is high: the data line goes up, which is a stop. -/
theorem Grounded.mux (h : Grounded g) {val : BitVec 32} (hval : (val >>> 0) &&& 3 = 1)
    (hprev : g.prev = (true, false)) (hlow : g.slave.low = false) :
    Wired gecPins (g.write (Reg.gpioxAltfn 1) val)
      ⟨true, true, g.slave.stop, g.seen ++ [.stop]⟩ := by
  have hg : Grounded { g with regs := Function.update g.regs (Reg.gpioxAltfn 1) val } :=
    h.congr rfl rfl rfl fun off hoff => Function.update_of_ne (by
      rintro rfl
      revert hoff
      decide) _ _
  have hmux : ({ g with regs := Function.update g.regs (Reg.gpioxAltfn 1) val } :
      I2cGpio).muxed 16 = true := by
    change decide ((Function.update g.regs (Reg.gpioxAltfn 1) val (Reg.gpioxAltfn 1) >>> 0) &&& 3 =
      g.alt) = true
    rw [Function.update_self, h.alt_eq]
    exact decide_eq_true hval
  have hup := (hg.driven hmux).update (w := ⟨true, false, g.slave, g.seen⟩) rfl rfl hprev
  rw [Wires.drive_stop hlow] at hup
  exact hup

/-- A write to a register that has nothing to do with the lines. -/
theorem wired_write_other {p : Pins} {w : Wires Axp228} (h : Wired p g w) {off : ℕ}
    (hoff : 0x28 ≤ off) (val : BitVec 32) : Wired p (g.write off val) w := by
  have hne : ∀ off', off' < 0x28 → Function.update g.regs off val off' = g.regs off' :=
    fun off' hlt => Function.update_of_ne (by omega) _ _
  have hmux : ∀ pin, pin < 32 →
      ({ g with regs := Function.update g.regs off val } : I2cGpio).muxed pin = g.muxed pin := by
    intro pin hpin
    have hlt : I2cGpio.altfn0 + (pin >>> 4) * 4 < 0x28 := by
      rw [Nat.shiftRight_eq_div_pow, I2cGpio.altfn0]
      omega
    simp only [I2cGpio.muxed, hne _ hlt]
  have hwrite : g.write off val = { g with regs := Function.update g.regs off val } := by
    have hoff' : off >>> 3 ≠ I2cGpio.altfn0 >>> 3 := by
      rw [Nat.shiftRight_eq_div_pow, I2cGpio.altfn0]
      omega
    simp only [I2cGpio.write, I2cGpio.out, I2cGpio.outenb, hoff', or_false]
    exact if_neg (by omega)
  have hd := h.driven
  have hout := hne I2cGpio.out (by decide)
  have houtenb := hne I2cGpio.outenb (by decide)
  rw [hwrite]
  exact ⟨⟨hd.scl_eq, hd.sda_eq, (hmux _ p.scl_lt).trans hd.muxed_scl,
    (hmux _ p.sda_lt).trans hd.muxed_sda, by simpa only [hout] using hd.out_scl,
    by simpa only [hout] using hd.out_sda,
    by simpa only [houtenb] using hd.outenb_scl,
    by simpa only [houtenb] using hd.outenb_sda⟩, h.slave_eq, h.seen_eq, h.prev_eq⟩

/-- What is left of the first six writes: both outputs low and disabled, and the clock muxed. -/
theorem grounded_of_writes (hscl : g.scl = 15) (hsda : g.sda = 16) (halt : g.alt = 1)
    {v₂ v₄ v₅ v₆ : BitVec 32} (h₂ : v₂.getLsbD 15 = false ∧ v₂.getLsbD 16 = false)
    (h₄ : v₄.getLsbD 15 = false ∧ v₄.getLsbD 16 = false) (h₆ : (v₆ >>> 30) &&& 3 = 1)
    {g₂ g₃ g₄ g₅ g₆ : I2cGpio} (hg₂ : g₂ = g.write I2cGpio.out v₂)
    (hg₃ : ∃ v₃, g₃ = g₂.write I2cGpio.outenb v₃) (hg₄ : g₄ = g₃.write I2cGpio.outenb v₄)
    (hg₅ : g₅ = g₄.write I2cGpio.altfn0 v₅) (hg₆ : g₆ = g₅.write I2cGpio.altfn0 v₆) :
    Grounded g₆ := by
  obtain ⟨v₃, hg₃⟩ := hg₃
  have hregs : g₆.regs I2cGpio.out = v₂ ∧ g₆.regs I2cGpio.outenb = v₄ ∧
      g₆.regs I2cGpio.altfn0 = v₆ ∧ g₆.scl = 15 ∧ g₆.sda = 16 ∧ g₆.alt = 1 := by
    subst hg₂ hg₃ hg₄ hg₅ hg₆
    simp only [(write_regs _ _ _).1, (write_regs _ _ _).2.1, (write_regs _ _ _).2.2.1,
      (write_regs _ _ _).2.2.2]
    simp [I2cGpio.out, I2cGpio.outenb, I2cGpio.altfn0, hscl, hsda, halt]
  obtain ⟨hout, houtenb, haltfn, hscl', hsda', halt'⟩ := hregs
  refine ⟨hscl', hsda', halt', ?_, ?_, ?_, ?_, ?_⟩
  · rw [hout, h₂.1]
  · rw [hout, h₂.2]
  · rw [houtenb, h₄.1]
  · rw [houtenb, h₄.2]
  · change decide ((g₆.regs I2cGpio.altfn0 >>> 30) &&& 3 = g₆.alt) = true
    rw [haltfn, halt']
    exact decide_eq_true h₆

/-- Two bits of a register that have been cleared one after the other. -/
theorem cleared_bits (g : I2cGpio) (off : ℕ) (v : BitVec 32) {i j : ℕ} (hi : i < 32)
    (hj : j < 32) :
    ((g.write off (v &&& ~~~(1#32 <<< i))).regs off &&& ~~~(1#32 <<< j)).getLsbD i = false ∧
      ((g.write off (v &&& ~~~(1#32 <<< i))).regs off &&& ~~~(1#32 <<< j)).getLsbD j = false := by
  rw [(write_regs g off _).1, Function.update_self]
  constructor
  · rw [BitVec.getLsbD_and, BitVec.getLsbD_and, BitVec.getLsbD_not, I2cGpio.getLsbD_bit _ _ hi]
    simp
  · rw [BitVec.getLsbD_and, BitVec.getLsbD_not, I2cGpio.getLsbD_bit _ _ hj]
    simp

/-- **`I2C_Init` frees the bus**, whatever the GPIO registers and the lines were, and leaves the
registers of an idle slave alone. -/
theorem i2cInit_at (hscl : m.dev.scl = 15) (hsda : m.dev.sda = 16) (halt : m.dev.alt = 1)
    (hidle : m.dev.slave.state = .idle) (hlow : m.dev.slave.low = false) :
    ∃ s seen, At gecPins false ⟨true, true, s, seen⟩ (i2cInit I2cGpio.bus 15 16 1 1 m) ∧
      s.state = .idle ∧ s.low = false ∧ s.regs = m.dev.slave.regs := by
  have hq : Quiet m.dev.slave.regs 0 m.dev.slave := ⟨rfl, hlow, .inl hidle⟩
  generalize hm₁ : clearIO32 I2cGpio.bus Reg.gpioxOut (1#32 <<< 15) { m with started := false } = m₁
  generalize hm₂ : clearIO32 I2cGpio.bus Reg.gpioxOut (1#32 <<< 16) m₁ = m₂
  generalize hm₃ : clearIO32 I2cGpio.bus Reg.gpioxOutenb (1#32 <<< 15) m₂ = m₃
  generalize hm₄ : clearIO32 I2cGpio.bus Reg.gpioxOutenb (1#32 <<< 16) m₃ = m₄
  generalize hm₅ : clearIO32 I2cGpio.bus (Reg.gpioxAltfn 0) (3#32 <<< 30) m₄ = m₅
  generalize hm₆ : setIO32 I2cGpio.bus (Reg.gpioxAltfn 0) (1#32 <<< 30) m₅ = m₆
  generalize hm₇ : clearIO32 I2cGpio.bus (Reg.gpioxAltfn 1) (3#32 <<< 0) m₆ = m₇
  generalize hm₈ : setIO32 I2cGpio.bus (Reg.gpioxAltfn 1) (1#32 <<< 0) m₇ = m₈
  have hinit : i2cInit I2cGpio.bus 15 16 1 1 m =
      setIO32 I2cGpio.bus Reg.gpioxPullenb (1#32 <<< 15)
        (setIO32 I2cGpio.bus Reg.gpioxPullsel (1#32 <<< 15)
          (setIO32 I2cGpio.bus Reg.gpioxPullenb (1#32 <<< 16)
            (setIO32 I2cGpio.bus Reg.gpioxPullsel (1#32 <<< 16) m₈))) := by
    subst hm₁ hm₂ hm₃ hm₄ hm₅ hm₆ hm₇ hm₈
    rfl
  have hd₁ : m₁.dev = m.dev.write I2cGpio.out _ := hm₁ ▸ clearIO32_dev (by decide)
  have hd₂ : m₂.dev = m₁.dev.write I2cGpio.out _ := hm₂ ▸ clearIO32_dev (by decide)
  have hd₃ : m₃.dev = m₂.dev.write I2cGpio.outenb _ := hm₃ ▸ clearIO32_dev (by decide)
  have hd₄ : m₄.dev = m₃.dev.write I2cGpio.outenb _ := hm₄ ▸ clearIO32_dev (by decide)
  have hd₅ : m₅.dev = m₄.dev.write I2cGpio.altfn0 _ := hm₅ ▸ clearIO32_dev (by decide)
  have hd₆ : m₆.dev = m₅.dev.write I2cGpio.altfn0 _ := hm₆ ▸ setIO32_dev (by decide)
  have hd₇ : m₇.dev = m₆.dev.write (Reg.gpioxAltfn 1) _ := hm₇ ▸ clearIO32_dev (by decide)
  have hd₈ : m₈.dev = m₇.dev.write (Reg.gpioxAltfn 1) _ := hm₈ ▸ setIO32_dev (by decide)
  have hq₇ : Quiet m.dev.slave.regs 7 m₇.dev.slave := by
    rw [hd₇, hd₆, hd₅, hd₄, hd₃, hd₂, hd₁]
    exact ((((((hq.write (by decide) _ _).write (by decide) _ _).write (by decide) _ _).write
      (by decide) _ _).write (by decide) _ _).write (by decide) _ _).write (by decide) _ _
  have hv₆ : (((m₅.dev.regs I2cGpio.altfn0 ||| 1#32 <<< 30) >>> 30) &&& 3) = 1 := by
    rw [hd₅, (write_regs _ _ _).1, Function.update_self]
    exact field_set _ (by decide)
  have hg₆ : Grounded m₆.dev := by
    refine grounded_of_writes ?_ ?_ ?_ ?_ ?_ hv₆ hd₂ ⟨_, hd₃⟩ hd₄ hd₅ hd₆
    · rw [hd₁, (write_regs _ _ _).2.1, hscl]
    · rw [hd₁, (write_regs _ _ _).2.2.1, hsda]
    · rw [hd₁, (write_regs _ _ _).2.2.2, halt]
    · rw [hd₁]
      exact cleared_bits _ _ _ (by decide) (by decide)
    · rw [hd₃]
      exact cleared_bits _ _ _ (by decide) (by decide)
  have hg₇ := hg₆.unmux (field_clear (m₆.dev.regs (Reg.gpioxAltfn 1)) (Nat.zero_le 30))
  have hv₈ : (((m₇.dev.regs (Reg.gpioxAltfn 1) ||| 1#32 <<< 0) >>> 0) &&& 3) = 1 := by
    rw [hd₇, (write_regs _ _ _).1, Function.update_self]
    exact field_set _ (Nat.zero_le 30)
  rw [← hd₇] at hg₇
  have hw₈ := hg₇.1.mux hv₈ hg₇.2 hq₇.low_eq
  rw [← hd₈] at hw₈
  refine ⟨m₇.dev.slave.stop, m₇.dev.seen ++ [.stop], ⟨?_, ?_⟩, rfl, rfl, hq₇.regs_eq⟩
  · rw [hinit, setIO32_dev (by decide), setIO32_dev (by decide), setIO32_dev (by decide),
      setIO32_dev (by decide)]
    exact wired_write_other (wired_write_other (wired_write_other (wired_write_other hw₈
      (by decide) _) (by decide) _) (by decide) _) (by decide) _
  · rw [hinit]
    subst hm₁ hm₂ hm₃ hm₄ hm₅ hm₆ hm₇ hm₈
    rfl

end Init

end Gec6818Bl1.I2c
