import Gec6818Bl1.Ddr.InitDDR3

/-!
# The training values over a suspend

`vddPowerOff` of `sleep.c` saves what the training has found in the alive registers, and
`init_DDR3(1)` makes PHY settings of it again.

* Four of the five values are saved (`saved_eq`); `g_WR_lvl` is not.
* A resume that returns has set the PHY by what it found in the alive registers, and by the
  `g_WR_lvl` that start-up has left (`initDDR3_restored`).
* An offset is a code less a quarter of the lock value, as sign and magnitude, and a code that is
  too far up has none (`signMagnitude_vwmcOffset`). `SHIFTC_CON` is set to zero, so that of the gate
  cycles only what is common to the lanes is kept, and that in four bits (`gate_iff`).

So the settings survive exactly when none of this matters (`survives_iff`).
-/

namespace Gec6818Bl1.Ddr.Suspend

open RegTrace

/-! ## Saving -/

/-- The registers of the clock controller and of the alive block that `vddPowerOff` uses. -/
inductive PowerReg where
  | cpuWarmResetReq
  | pwrCont
  | pwrMode
  | alivePwrGateReg
  | aliveScratchRst (i : ℕ)
  | aliveScratchSet (i : ℕ)
  | vddOffCntValueRst
  | vddOffCntValueSet
  | aliveGpioDetectPendReg
  | vddCtrlSetReg
  | vddCtrlRstReg
deriving DecidableEq

abbrev PowerOp := Op PowerReg U32

/-- `vddPowerOff` up to its last wait. `pend` is the value of `ALIVEGPIODETECTPENDREG`. -/
def vddPowerOff (g : Globals) (pend : U32) : List PowerOp := [
  .write .cpuWarmResetReq 0x0,
  .modify .pwrCont (· ||| (0xF#32 <<< 12 ||| 0xF#32 <<< 20)),
  .modify .pwrCont (· &&& ~~~(0xF#32 <<< 8 ||| 0xF#32 <<< 16)),
  .write .alivePwrGateReg 0x00000001,
  .write (.aliveScratchRst 5) 0xFFFFFFFF,
  .write (.aliveScratchRst 6) 0xFFFFFFFF,
  .write (.aliveScratchRst 7) 0xFFFFFFFF,
  .write (.aliveScratchRst 8) 0xFFFFFFFF,
  .write (.aliveScratchSet 5) g.gGTcycle,
  .write (.aliveScratchSet 6) g.gGTcode,
  .write (.aliveScratchSet 7) g.gRDvwmc,
  .write (.aliveScratchSet 8) g.gWRvwmc,
  .write .vddOffCntValueRst 0xFFFFFFFF,
  .write .vddOffCntValueSet 0x00000001,
  .read .aliveGpioDetectPendReg] ++
  if pend ≠ 0 then [] else [
    .write .vddCtrlSetReg 0x000003FC,
    .write .vddCtrlRstReg 0x00000001,
    .write .aliveGpioDetectPendReg 0xFF,
    .write .pwrMode (0x1#32 <<< 1)]

/-- The alive registers that keep their value: what an operation clears, and what it sets. -/
def scratchStep (scratch : ℕ → U32) : PowerOp → ℕ → U32
  | .write (.aliveScratchRst i) w => Function.update scratch i (scratch i &&& ~~~w)
  | .write (.aliveScratchSet i) w => Function.update scratch i (scratch i ||| w)
  | _ => scratch

/-- What the alive registers hold after a suspend. -/
def saved (g : Globals) (pend : U32) (scratch : ℕ → U32) : ℕ → U32 :=
  (vddPowerOff g pend).foldl scratchStep scratch

/-- Four of the five values are saved, whatever the registers held. -/
theorem saved_eq (g : Globals) (pend : U32) (scratch : ℕ → U32) :
    saved g pend scratch 5 = g.gGTcycle ∧ saved g pend scratch 6 = g.gGTcode ∧
      saved g pend scratch 7 = g.gRDvwmc ∧ saved g pend scratch 8 = g.gWRvwmc := by
  rw [saved, vddPowerOff]
  split_ifs <;> simp [scratchStep, Function.update]

/-! ## Codes as sign and magnitude -/

/-- A lane of a register of four bytes. -/
def lane (word : U32) (i : ℕ) : U8 := (word >>> (8 * i)).setWidth 8

/-- Bit 7 is the sign. -/
def signMagnitude (b : U8) : ℤ :=
  if b.getLsbD 7 then -((b &&& 0x7F).toNat : ℤ) else (b &&& 0x7F).toNat

theorem lane_append (a b c d : U8) {i : ℕ} (hi : i < 4) : lane (a ++ b ++ c ++ d) i =
    if i = 0 then d else if i = 1 then c else if i = 2 then b else a := by
  have hbit : ∀ k : ℕ, BitVec.getLsbD (a ++ b ++ c ++ d : U32) k =
      if k < 8 then d.getLsbD k else if k - 8 < 8 then c.getLsbD (k - 8)
      else if k - 8 - 8 < 8 then b.getLsbD (k - 8 - 8) else a.getLsbD (k - 8 - 8 - 8) := by
    intro k
    refine (BitVec.getLsbD_append (x := a ++ b ++ c) (y := d)).trans ?_
    rw [BitVec.getLsbD_append, BitVec.getLsbD_append]
  apply BitVec.eq_of_getLsbD_eq
  intro j hj
  rw [lane, BitVec.getLsbD_setWidth, BitVec.getLsbD_ushiftRight, hbit, decide_eq_true hj,
    Bool.true_and]
  match i, hi with
  | 0, _ => rw [if_pos (by omega), if_pos rfl, Nat.mul_zero, Nat.zero_add]
  | 1, _ =>
    rw [if_neg (by omega), if_pos (by omega), show 8 * 1 + j - 8 = j by omega]
    rfl
  | 2, _ =>
    rw [if_neg (by omega), if_neg (by omega), if_pos (by omega),
      show 8 * 2 + j - 8 - 8 = j by omega]
    rfl
  | 3, _ =>
    rw [if_neg (by omega), if_neg (by omega), if_neg (by omega),
      show 8 * 3 + j - 8 - 8 - 8 = j by omega]
    rfl

theorem lane_getVWMCOffset (code lockDiv4 : U32) {i : ℕ} (hi : i < 4) :
    lane (getVWMCOffset code lockDiv4) i = vwmcOffset code lockDiv4 i := by
  rw [getVWMCOffset, lane_append _ _ _ _ hi]
  match i, hi with
  | 0, _ => rfl
  | 1, _ => rfl
  | 2, _ => rfl
  | 3, _ => rfl

theorem signMagnitude_eq (b : U8) :
    signMagnitude b = if b.toNat < 128 then (b.toNat : ℤ) else 128 - b.toNat := by
  have hsign : b.getLsbD 7 = decide (128 ≤ b.toNat) :=
    b.msb_eq_getLsbD_last.symm.trans b.msb_eq_decide
  have hmag : (b &&& 0x7F).toNat = b.toNat % 128 :=
    (BitVec.toNat_and _ _).trans (Nat.and_two_pow_sub_one_eq_mod b.toNat 7)
  have hlt := b.isLt
  rw [signMagnitude, hsign, hmag]
  by_cases h : b.toNat < 128
  · rw [decide_eq_false (by omega), if_neg Bool.false_ne_true, if_pos h, Nat.mod_eq_of_lt h]
  · rw [decide_eq_true (by omega), if_pos rfl, if_neg h]
    omega

theorem toNat_or_sign {x : U32} (hx : x.toNat < 128) :
    ((x ||| 0x80).setWidth 8 : U8).toNat = 128 + x.toNat := by
  have hor : 2 ^ 7 * 1 + x.toNat = 2 ^ 7 * 1 ||| x.toNat := Nat.two_pow_add_eq_or_of_lt hx 1
  have hsign : (0x80 : U32).toNat = 2 ^ 7 * 1 := rfl
  rw [BitVec.toNat_setWidth, BitVec.toNat_or, Nat.or_comm, hsign, ← hor]
  omega

/-- What `getVWMC_Offset` takes from a lane. -/
theorem toNat_lane (code : U32) (i : ℕ) :
    (code >>> (8 * i) &&& 0xFF).toNat = (lane code i).toNat := by
  rw [lane, BitVec.toNat_setWidth, BitVec.toNat_and]
  exact Nat.and_two_pow_sub_one_eq_mod _ 8

/-- An offset of up to 127 can be put as sign and magnitude, and one above cannot. -/
theorem signMagnitude_vwmcOffset (code : U32) {lockDiv4 : U32} (hlock : lockDiv4.toNat ≤ 127)
    (i : ℕ) : signMagnitude (vwmcOffset code lockDiv4 i) + lockDiv4.toNat = (lane code i).toNat ↔
      (lane code i).toNat ≤ lockDiv4.toNat + 127 := by
  have hlane := (lane code i).isLt
  have hmsb : ∀ x : U32, x.msb = decide (2 ^ 31 ≤ x.toNat) := BitVec.msb_eq_decide
  rw [← toNat_lane] at hlane ⊢
  rw [vwmcOffset]
  generalize (code >>> (8 * i) &&& 0xFF) = x at hlane ⊢
  by_cases hneg : x.toNat < lockDiv4.toNat
  · have hsub : (-(x - lockDiv4)).toNat = lockDiv4.toNat - x.toNat := by
      rw [BitVec.toNat_neg, BitVec.toNat_sub]
      omega
    have hsign : (x - lockDiv4).msb = true := by
      rw [hmsb, BitVec.toNat_sub]
      simp only [decide_eq_true_eq]
      omega
    rw [if_pos hsign, signMagnitude_eq, toNat_or_sign (by omega), hsub]
    omega
  · have hsub : (x - lockDiv4).toNat = x.toNat - lockDiv4.toNat :=
      BitVec.toNat_sub_of_le (Nat.le_of_not_lt hneg)
    have hsign : (x - lockDiv4).msb = false := by
      rw [hmsb, hsub]
      simp only [decide_eq_false_iff_not]
      omega
    rw [if_neg (by rw [hsign]; exact Bool.false_ne_true), signMagnitude_eq, BitVec.toNat_setWidth,
      hsub]
    split_ifs <;> omega

/-! ## The least cycle -/

theorem minGateCycle_le (cycle : U32) {i : ℕ} (hi : i < 4) :
    (minGateCycle cycle).toNat ≤ (gateCycle cycle i).toNat := by
  simp only [minGateCycle, List.foldl_cons, List.foldl_nil, BitVec.lt_def]
  match i, hi with
  | 0, _ => split_ifs <;> omega
  | 1, _ => split_ifs <;> omega
  | 2, _ => split_ifs <;> omega
  | 3, _ => split_ifs <;> omega

theorem minGateCycle_of_eq {cycle : U32} (h : ∀ i < 4, gateCycle cycle i = gateCycle cycle 0) :
    minGateCycle cycle = gateCycle cycle 0 := by
  simp [minGateCycle, h 1 (by decide), h 2 (by decide), h 3 (by decide)]

/-! ## The gate adjust -/

theorem toNat_and_low (x : U32) : (x &&& 0xF#32).toNat = x.toNat % 16 :=
  (BitVec.toNat_and _ _).trans (Nat.and_two_pow_sub_one_eq_mod x.toNat 4)

theorem top_and_low (x : U32) : x >>> 28 &&& 0xF#32 = x >>> 28 := by
  have hx := x.isLt
  apply BitVec.eq_of_toNat_eq
  rw [toNat_and_low, BitVec.toNat_ushiftRight, Nat.shiftRight_eq_div_pow]
  omega

theorem gateAdj_clear (x : U32) : (x &&& ~~~(0xF#32 <<< 20)) >>> 28 = x >>> 28 := by
  rw [BitVec.ushiftRight_and_distrib]
  exact top_and_low x

/-- `ctrl_gateadj` has four bits. -/
theorem gateAdj_insert (x n : U32) : (x &&& 0x0FFFFFFF#32 ||| n <<< 28) >>> 28 = n &&& 0xF#32 := by
  have hlow : 0x0FFFFFFF#32 >>> 28 = 0#32 := rfl
  rw [BitVec.ushiftRight_or_distrib, BitVec.ushiftRight_and_distrib, hlow, BitVec.and_zero,
    BitVec.zero_or]
  apply BitVec.eq_of_toNat_eq
  rw [toNat_and_low, BitVec.toNat_ushiftRight, BitVec.toNat_shiftLeft, Nat.shiftRight_eq_div_pow,
    Nat.shiftLeft_eq]
  omega

/-! ## Restoring -/

/-- What a resume reads: the alive registers, a DLL that locks at `lock`, and `ctrl_gateadj`, which
has been left alone until its last reading. -/
structure Found (rd : Readings) (scratch : ℕ → U32) (adj lock : U32) : Prop where
  scratch : ∀ i time, rd (.reg (.aliveScratchValue i) time) = scratch i
  gateAdj : ∀ time, rd (.reg (.phyCon 1) time) >>> 28 = adj
  lock : ∀ time, rd (.reg (.mdllCon 1) time) &&& 0x7 = 0x7 →
    rd (.reg (.mdllCon 1) time) >>> 8 &&& 0x1FF = lock

/-- The lanes of an offset register, as sign and magnitude, give the code. -/
def Coded (code lock : U32) (word : Option U32) : Prop :=
  ∃ w, word = some w ∧ ∀ i < 4, signMagnitude (lane w i) + (lock >>> 2).toNat = (lane code i).toNat

/-- The PHY is set as it was trained. -/
structure Survives (g : Globals) (adj lock : U32) (log : History) : Prop where
  gate : ∃ phyCon1 shiftc, lastWrite (.phyCon 1) log = some phyCon1 ∧
    lastWrite .shiftcCon log = some shiftc ∧ ∀ i < 4,
      (phyCon1 >>> 28).toNat + (gateCycle shiftc i).toNat =
        adj.toNat + (gateCycle g.gGTcycle i).toNat
  offsetc : Coded g.gGTcode lock (lastWrite (.offsetcCon 0) log)
  offsetr : Coded g.gRDvwmc lock (lastWrite (.offsetrCon 0) log)
  offsetw : Coded g.gWRvwmc lock (lastWrite (.offsetwCon 0) log)
  wrLvl : lastWrite (.wrLvlCon 0) log = some g.gWRlvl

/-- The codes are in reach, the lanes of the gate do not differ and fit into `ctrl_gateadj`, and
`g_WR_lvl` is what it was. -/
structure Restorable (g : Globals) (adj lock gWRlvl : U32) : Prop where
  codes : ∀ code ∈ [g.gGTcode, g.gRDvwmc, g.gWRvwmc], ∀ i < 4,
    (lane code i).toNat ≤ (lock >>> 2).toNat + 127
  cycles : ∀ i < 4, gateCycle g.gGTcycle i = gateCycle g.gGTcycle 0
  fits : adj.toNat + (gateCycle g.gGTcycle 0).toNat ≤ 15
  wrLvl : gWRlvl = g.gWRlvl

section Restore

variable {rd : Readings} {sbi : SecondBootInfo} {m m' : Machine} {fuel : ℕ} {ret : Bool}

theorem lockDll_reading {temp : U32} (h : lockDll rd fuel m = some (temp, m')) :
    ∃ time, temp = rd (.reg (.mdllCon 1) time) ∧ temp &&& 0x7 = 0x7 := by
  induction fuel generalizing m with
  | zero => cases h
  | succ fuel ih =>
    obtain ⟨⟨v, m₁⟩, -, h⟩ := Option.bind_eq_some_iff.1 h
    dsimp only at h
    split_ifs at h with hlocked
    · obtain ⟨rfl, -⟩ := Prod.mk.inj (Option.some.inj h)
      exact ⟨_, rfl, hlocked⟩
    · exact ih h

/-- Up to the restoring, a resume changes the lock value only. -/
theorem initDDR3_resume (h : initDDR3 rd sbi 1 fuel m = some (ret, m')) : ∃ (time : ℕ)
    (m₁ : Machine), rd (.reg (.mdllCon 1) time) &&& 0x7 = 0x7 ∧
      m₁.gLockVal = rd (.reg (.mdllCon 1) time) >>> 8 &&& 0x1FF ∧ m₁.gWRlvl = m.gWRlvl ∧
      m' = finishInit rd sbi 1 (restoreTraining rd sbi m₁) := by
  obtain ⟨⟨_, ma⟩, hphy, h⟩ := Option.bind_eq_some_iff.1 h
  obtain ⟨⟨_, mb⟩, hzq, h⟩ := Option.bind_eq_some_iff.1 h
  obtain ⟨⟨_, mc⟩, hdfi, h⟩ := Option.bind_eq_some_iff.1 h
  obtain ⟨⟨temp, md⟩, hlock, h⟩ := Option.bind_eq_some_iff.1 h
  dsimp only at h hphy hzq hdfi hlock
  rw [if_neg (by decide)] at hlock h
  obtain ⟨-, rfl⟩ := Prod.mk.inj (Option.some.inj h)
  obtain ⟨time, rfl, hlocked⟩ := lockDll_reading hlock
  have hinit : Quiet m (mc.exec rd (controllerInit sbi)) :=
    ((((((Quiet.exec (by simp [reset])).trans (.waitFor hphy)).trans
      (.exec (by simp [phyInit]))).trans (.waitFor hzq)).trans
      (.exec (by simp [dfiInit]))).trans (.waitFor hdfi)).trans (.exec silent_controllerInit)
  have hquiet : Quiet m md :=
    hinit.trans ((Quiet.exec (by simp [trainingPreparation])).trans (.lockDll hlock))
  have hwr : md.gWRlvl = m.gWRlvl := congrArg Globals.gWRlvl hquiet.globals_eq
  let locked : Machine := { md with gLockVal := rd (.reg (.mdllCon 1) time) >>> 8 &&& 0x1FF }
  refine ⟨time, locked.exec rd
    [.modify (.mdllCon 0) (· &&& ~~~(0x1FF#32 <<< 7) ||| locked.gLockVal <<< 7)],
    hlocked, rfl, hwr, ?_⟩
  exact if_pos rfl

/-- The settings that the training has found. -/
def settings : List Reg :=
  [.wrLvlCon 0, .phyCon 1, .shiftcCon, .offsetcCon 0, .offsetrCon 0, .offsetwCon 0]

variable {reg : Reg}

/-- A command goes to `DIRECTCMD`. -/
theorem spares_sendToRanks {cmd : SdramCmd} {mrx : ModeReg} {value : U16}
    (hreg : reg ≠ .directCmd) : Spares reg (sendToRanks sbi cmd mrx value) := by
  have hsend : ∀ chipnum, (sendDirectCommand cmd chipnum mrx value).target ≠ some reg :=
    fun _ h => hreg (Option.some.inj h).symm
  unfold sendToRanks
  split_ifs
  · exact List.forall_mem_cons.2 ⟨hsend 0, List.forall_mem_singleton.2 (hsend 1)⟩
  · exact List.forall_mem_singleton.2 (hsend 0)

theorem lastWrite_finishInit (hreg : reg ∈ settings) :
    lastWrite reg (finishInit rd sbi 1 m).log = lastWrite reg m.log := by
  have hcmd : reg ≠ .directCmd := by
    rintro rfl
    exact absurd hreg (by decide)
  unfold finishInit
  refine (lastWrite_exec_of_spares ?_).trans
    ((lastWrite_exec_of_spares (spares_sendToRanks hcmd)).trans (lastWrite_exec_of_spares ?_))
  · clear hcmd
    revert reg
    decide
  · clear hcmd
    revert reg
    decide

section Loops

variable {t : Training}

theorem lastWrite_respLoop : lastWrite reg (m.respLoop rd t).2.log = lastWrite reg m.log := by
  simp only [Machine.respLoop]
  exact lastWrite_congr writes_poll

theorem lastWrite_failLoop : lastWrite reg (m.failLoop rd t).2.log = lastWrite reg m.log := by
  simp only [Machine.failLoop]
  exact lastWrite_congr writes_poll

end Loops

theorem lastWrite_writeLatency (hreg : reg ∈ settings) :
    lastWrite reg (ddrWriteLatencyCalibration rd m).2.log = lastWrite reg m.log := by
  have hstart : lastWrite reg (startWriteLatency rd m).log = lastWrite reg m.log := by
    refine lastWrite_exec_of_spares ?_
    revert reg
    decide
  have hstop : Spares reg Training.writeLatency.stop := by
    clear hstart
    revert reg
    decide
  have hloop : ∀ m : Machine, lastWrite reg ((m.respLoop rd .writeLatency).2.exec rd
      Training.writeLatency.stop).log = lastWrite reg m.log :=
    fun m => (lastWrite_exec_of_spares hstop).trans (lastWrite_respLoop)
  rw [← hstart, ddrWriteLatencyCalibration]
  simp only [calibrate]
  split_ifs
  · exact lastWrite_failLoop.trans (hloop _)
  · exact hloop _

/-! ### Gate levelling -/

@[simp] theorem target_setIO32 {data : U32} : (setIO32 reg data).target = some reg := rfl

@[simp] theorem target_clearIO32 {data : U32} : (clearIO32 reg data).target = some reg := rfl

@[simp] theorem target_writeIO32 {data : U32} : (writeIO32 reg data).target = some reg := rfl

/-- `restoreGateLeveling` moves the least cycle to `ctrl_gateadj`. -/
theorem lastWrite_gateAdj {adj : U32} (hadj : ∀ time, rd (.reg (.phyCon 1) time) >>> 28 = adj) :
    ∃ w, lastWrite (.phyCon 1) (restoreGateLeveling rd m).log = some w ∧
      (w >>> 28).toNat = (adj.toNat + (minGateCycle m.gGTcycle).toNat) % 16 := by
  have hadjlt : adj.toNat < 16 := by
    rw [← hadj 0, ← top_and_low, toNat_and_low]
    exact Nat.mod_lt _ (by decide)
  obtain ⟨time, hclear⟩ : ∃ time, lastWrite (.phyCon 1) (m.exec rd [
      setIO32 (.phyCon 2) (0x1#32 <<< 24), setIO32 (.phyCon 0) (0x5#32 <<< 6),
      clearIO32 (.phyCon 1) (0xF#32 <<< 20)]).log =
        some (rd (.reg (.phyCon 1) time) &&& ~~~(0xF#32 <<< 20)) :=
    lastWrite_exec_modify [_, _] spares_nil
  unfold restoreGateLeveling
  dsimp only
  have hcycle : (m.exec rd [
      setIO32 (.phyCon 2) (0x1#32 <<< 24), setIO32 (.phyCon 0) (0x5#32 <<< 6),
      clearIO32 (.phyCon 1) (0xF#32 <<< 20)]).gGTcycle = m.gGTcycle := rfl
  rw [hcycle]
  generalize m.exec rd _ = m₁ at hclear ⊢
  by_cases hmin : minGateCycle m.gGTcycle = 0
  · rw [if_neg (not_not.2 hmin), hmin]
    refine ⟨_, (lastWrite_exec_of_spares (by simp)).trans hclear, ?_⟩
    rw [gateAdj_clear, hadj]
    exact (Nat.mod_eq_of_lt hadjlt).symm
  · rw [if_pos hmin]
    let sum : U32 := ((m₁.readIO32 rd (.phyCon 1)).1 >>> 28 &&& 0xF#32) + minGateCycle m.gGTcycle
    obtain ⟨time', hwrite⟩ : ∃ time, lastWrite (.phyCon 1)
        ((m₁.readIO32 rd (.phyCon 1)).2.exec rd
          [.modify (.phyCon 1) (· &&& 0x0FFFFFFF#32 ||| sum <<< 28)]).log =
        some (rd (.reg (.phyCon 1) time) &&& 0x0FFFFFFF#32 ||| sum <<< 28) :=
      lastWrite_exec_modify [] spares_nil
    refine ⟨_, (lastWrite_exec_of_spares (by simp)).trans hwrite, ?_⟩
    have hsum : sum = adj + minGateCycle m.gGTcycle :=
      congrArg (· + minGateCycle m.gGTcycle) ((top_and_low _).trans (hadj _))
    rw [gateAdj_insert, toNat_and_low, hsum, BitVec.toNat_add]
    exact Nat.mod_mod_of_dvd _ (by decide)

theorem globals_restoreGateLeveling : (restoreGateLeveling rd m).toGlobals = m.toGlobals := by
  unfold restoreGateLeveling
  dsimp only
  split_ifs
  · rfl
  · rfl

theorem lastWrite_offsetc : lastWrite (.offsetcCon 0) (restoreGateLeveling rd m).log =
    some (getVWMCOffset m.gGTcode (m.gLockVal >>> 2)) := by
  unfold restoreGateLeveling
  dsimp only
  split_ifs
  · exact lastWrite_exec_write [] (by simp)
  · exact lastWrite_exec_write [] (by simp)

theorem lastWrite_shiftc : lastWrite .shiftcCon (restoreGateLeveling rd m).log = some 0 := by
  unfold restoreGateLeveling
  exact lastWrite_exec_write [_] (by simp)

theorem lastWrite_wrLvl : lastWrite (.wrLvlCon 0) (restoreGateLeveling rd m).log =
    lastWrite (.wrLvlCon 0) m.log := by
  unfold restoreGateLeveling
  dsimp only
  refine (lastWrite_exec_of_spares (by simp)).trans ?_
  split_ifs
  · exact (lastWrite_exec_of_spares (by simp)).trans
      ((lastWrite_read _).trans (lastWrite_exec_of_spares (by simp)))
  · exact lastWrite_exec_of_spares (by simp)

/-! ### All of it -/

/-- The alive registers, into the globals. -/
def readBack (rd : Readings) (m : Machine) : Machine :=
  let m := m.exec rd [writeIO32 .alivePwrGateReg 1]
  let (gGTcycle, m) := m.readIO32 rd (.aliveScratchValue 5)
  let (gGTcode, m) := m.readIO32 rd (.aliveScratchValue 6)
  let (gRDvwmc, m) := m.readIO32 rd (.aliveScratchValue 7)
  let (gWRvwmc, m) := m.readIO32 rd (.aliveScratchValue 8)
  { m with gGTcycle, gGTcode, gRDvwmc, gWRvwmc }

/-- The two offsets that come after the gate. -/
def restoreOffsets (rd : Readings) (lockDiv4 : U32) (m : Machine) : Machine :=
  let m : Machine := { m with gRDvwmc := getVWMCOffset m.gRDvwmc lockDiv4 }
  let m := m.exec rd [writeIO32 (.offsetrCon 0) m.gRDvwmc]
  let m := (ddrWriteLatencyCalibration rd m).2
  let m : Machine := { m with gWRvwmc := getVWMCOffset m.gWRvwmc lockDiv4 }
  m.exec rd [writeIO32 (.offsetwCon 0) m.gWRvwmc]

theorem restoreTraining_eq (hall : ∀ t, sbi.trains t = true) : restoreTraining rd sbi m =
    restoreOffsets rd (m.gLockVal >>> 2) (restoreGateLeveling rd
      ((readBack rd m).exec rd [writeIO32 (.wrLvlCon 0) m.gWRlvl])) := by
  simp only [restoreTraining, hall, if_true]
  rfl

theorem lastWrite_offsetr {lockDiv4 : U32} :
    lastWrite (.offsetrCon 0) (restoreOffsets rd lockDiv4 m).log =
      some (getVWMCOffset m.gRDvwmc lockDiv4) :=
  (lastWrite_exec_of_spares (by simp)).trans
    ((lastWrite_writeLatency (by decide)).trans (lastWrite_exec_write [] spares_nil))

theorem lastWrite_offsetw {lockDiv4 : U32} :
    lastWrite (.offsetwCon 0) (restoreOffsets rd lockDiv4 m).log =
      some (getVWMCOffset m.gWRvwmc lockDiv4) := by
  have hkeep : ∀ m : Machine, (ddrWriteLatencyCalibration rd m).2.gWRvwmc = m.gWRvwmc :=
    fun m => congrArg Globals.gWRvwmc Quiet.calibrate.globals_eq
  refine (lastWrite_exec_write [] spares_nil).trans ?_
  exact congrArg (fun code => some (getVWMCOffset code lockDiv4)) (hkeep _)

theorem lastWrite_restoreOffsets {lockDiv4 : U32} (hreg : reg ∈ settings)
    (hr : reg ≠ .offsetrCon 0) (hw : reg ≠ .offsetwCon 0) :
    lastWrite reg (restoreOffsets rd lockDiv4 m).log = lastWrite reg m.log :=
  (lastWrite_exec_of_spares (by simp [hw.symm])).trans
    ((lastWrite_writeLatency hreg).trans (lastWrite_exec_of_spares (by simp [hr.symm])))

/-- What a resume sets the PHY to. -/
structure Restored (scratch : ℕ → U32) (adj lock gWRlvl : U32) (log : History) : Prop where
  lock_le : lock.toNat ≤ 0x1FF
  gateAdj : ∃ w, lastWrite (.phyCon 1) log = some w ∧
    (w >>> 28).toNat = (adj.toNat + (minGateCycle (scratch 5)).toNat) % 16
  shiftc : lastWrite .shiftcCon log = some 0
  offsetc : lastWrite (.offsetcCon 0) log = some (getVWMCOffset (scratch 6) (lock >>> 2))
  offsetr : lastWrite (.offsetrCon 0) log = some (getVWMCOffset (scratch 7) (lock >>> 2))
  offsetw : lastWrite (.offsetwCon 0) log = some (getVWMCOffset (scratch 8) (lock >>> 2))
  wrLvl : lastWrite (.wrLvlCon 0) log = some gWRlvl

variable {scratch : ℕ → U32} {adj lock : U32}

theorem initDDR3_restored (hfound : Found rd scratch adj lock) (hall : ∀ t, sbi.trains t = true)
    (h : initDDR3 rd sbi 1 fuel m = some (ret, m')) :
    Restored scratch adj lock m.gWRlvl m'.log := by
  obtain ⟨time, m₁, hlocked, hlock, hwr, rfl⟩ := initDDR3_resume h
  rw [hfound.lock time hlocked] at hlock
  have hle : lock.toNat ≤ 0x1FF := by
    rw [← hfound.lock time hlocked, BitVec.toNat_and]
    exact Nat.and_le_right
  rw [restoreTraining_eq hall, hlock, hwr]
  -- The machine when the gate is restored, and what it then knows.
  generalize hgate : (readBack rd m₁).exec rd [writeIO32 (.wrLvlCon 0) m.gWRlvl] = m₂
  have hglobals : m₂.toGlobals =
      { m₁.toGlobals with
        gGTcycle := scratch 5, gGTcode := scratch 6, gRDvwmc := scratch 7,
        gWRvwmc := scratch 8 } := by
    rw [← hgate]
    simp only [Machine.exec, readBack, Machine.readIO32, hfound.scratch]
  have hrd : (restoreGateLeveling rd m₂).gRDvwmc = scratch 7 :=
    congrArg Globals.gRDvwmc (globals_restoreGateLeveling.trans hglobals)
  have hwrDq : (restoreGateLeveling rd m₂).gWRvwmc = scratch 8 :=
    congrArg Globals.gWRvwmc (globals_restoreGateLeveling.trans hglobals)
  have hcycle : m₂.gGTcycle = scratch 5 := congrArg Globals.gGTcycle hglobals
  have hcode : m₂.gGTcode = scratch 6 := congrArg Globals.gGTcode hglobals
  have hlock₂ : m₂.gLockVal = lock := (congrArg Globals.gLockVal hglobals).trans hlock
  -- What comes after the gate writes to the two offsets only.
  have hafter : ∀ reg ∈ settings, reg ≠ .offsetrCon 0 → reg ≠ .offsetwCon 0 → lastWrite reg
      (finishInit rd sbi 1 (restoreOffsets rd (lock >>> 2) (restoreGateLeveling rd m₂))).log =
        lastWrite reg (restoreGateLeveling rd m₂).log := fun reg hreg hr hw =>
    (lastWrite_finishInit hreg).trans (lastWrite_restoreOffsets hreg hr hw)
  refine ⟨hle, ?_, ?_, ?_, ?_, ?_, ?_⟩
  · rw [hafter _ (by decide) (by decide) (by decide), ← hcycle]
    exact lastWrite_gateAdj hfound.gateAdj
  · rw [hafter _ (by decide) (by decide) (by decide), lastWrite_shiftc]
  · rw [hafter _ (by decide) (by decide) (by decide), lastWrite_offsetc, hcode, hlock₂]
  · rw [lastWrite_finishInit (by decide), lastWrite_offsetr, hrd]
  · rw [lastWrite_finishInit (by decide), lastWrite_offsetw, hwrDq]
  · rw [hafter _ (by decide) (by decide) (by decide), lastWrite_wrLvl, ← hgate]
    exact lastWrite_exec_write [] spares_nil

end Restore

/-! ## What survives -/

section Survives

variable {rd : Readings} {sbi : SecondBootInfo} {m m' : Machine} {fuel : ℕ} {ret : Bool}
  {adj lock : U32} {g : Globals} {pend : U32}

theorem coded_iff {code : U32} {word : Option U32} (hlock : (lock >>> 2).toNat ≤ 127)
    (hword : word = some (getVWMCOffset code (lock >>> 2))) :
    Coded code lock word ↔ ∀ i < 4, (lane code i).toNat ≤ (lock >>> 2).toNat + 127 := by
  have hlane : ∀ i < 4, (signMagnitude (lane (getVWMCOffset code (lock >>> 2)) i) +
      (lock >>> 2).toNat = (lane code i).toNat ↔ (lane code i).toNat ≤ (lock >>> 2).toNat + 127) :=
    fun i hi => by rw [lane_getVWMCOffset _ _ hi, signMagnitude_vwmcOffset code hlock i]
  constructor
  · rintro ⟨w, hw, hsign⟩ i hi
    obtain rfl := Option.some.inj (hword.symm.trans hw)
    exact (hlane i hi).1 (hsign i hi)
  · intro hle
    exact ⟨_, hword, fun i hi => (hlane i hi).2 (hle i hi)⟩

/-- A common cycle can be moved, one that differs from lane to lane cannot. -/
theorem gate_iff {cycle : U32} {low : ℕ}
    (hlow : low = (adj.toNat + (minGateCycle cycle).toNat) % 16) :
    (∀ i < 4, low + (gateCycle 0 i).toNat = adj.toNat + (gateCycle cycle i).toNat) ↔
      (∀ i < 4, gateCycle cycle i = gateCycle cycle 0) ∧
        adj.toNat + (gateCycle cycle 0).toNat ≤ 15 := by
  have hzero : ∀ i, (gateCycle 0 i).toNat = 0 := fun i => by simp [gateCycle]
  have hmod : (adj.toNat + (minGateCycle cycle).toNat) % 16 ≤
      adj.toNat + (minGateCycle cycle).toNat := Nat.mod_le _ _
  have hlt : (adj.toNat + (minGateCycle cycle).toNat) % 16 < 16 := Nat.mod_lt _ (by decide)
  simp only [hzero, Nat.add_zero, hlow]
  constructor
  · intro h
    have hmin : ∀ i < 4, (gateCycle cycle i).toNat = (minGateCycle cycle).toNat := by
      intro i hi
      have hle := minGateCycle_le cycle hi
      have heq := h i hi
      omega
    refine ⟨fun i hi => BitVec.eq_of_toNat_eq ?_, ?_⟩
    · rw [hmin i hi, hmin 0 (by decide)]
    · rw [← h 0 (by decide)]
      omega
  · rintro ⟨hsame, hfits⟩ i hi
    rw [hsame i hi, minGateCycle_of_eq hsame]
    exact Nat.mod_eq_of_lt (by omega)

/-- **Suspend and resume.** With every step of `LvlTr_Mode` asked for, the PHY is set as it was
trained if and only if the codes are in reach, the gate cycles can be moved, and start-up has left
`g_WR_lvl` as it was. -/
theorem survives_iff {former : ℕ → U32} (hfound : Found rd (saved g pend former) adj lock)
    (hall : ∀ t, sbi.trains t = true) (h : initDDR3 rd sbi 1 fuel m = some (ret, m')) :
    Survives g adj lock m'.log ↔ Restorable g adj lock m.gWRlvl := by
  obtain ⟨hle, ⟨w, hgate, hadj⟩, hshiftc, hoffsetc, hoffsetr, hoffsetw, hwrLvl⟩ :=
    initDDR3_restored hfound hall h
  obtain ⟨hcycle, hcode, hrd, hwr⟩ := saved_eq g pend former
  rw [hcycle] at hadj
  rw [hcode] at hoffsetc
  rw [hrd] at hoffsetr
  rw [hwr] at hoffsetw
  have hlock : (lock >>> 2).toNat ≤ 127 := by
    rw [BitVec.toNat_ushiftRight, Nat.shiftRight_eq_div_pow]
    omega
  constructor
  · rintro ⟨⟨phyCon1, shiftc, hphy, hshift, hlanes⟩, hc, hr, hw, hlvl⟩
    obtain rfl := Option.some.inj (hgate.symm.trans hphy)
    obtain rfl := Option.some.inj (hshiftc.symm.trans hshift)
    obtain ⟨hsame, hfits⟩ := (gate_iff hadj).1 hlanes
    refine ⟨?_, hsame, hfits, Option.some.inj (hwrLvl.symm.trans hlvl)⟩
    exact List.forall_mem_cons.2 ⟨(coded_iff hlock hoffsetc).1 hc, List.forall_mem_cons.2
      ⟨(coded_iff hlock hoffsetr).1 hr, List.forall_mem_singleton.2
        ((coded_iff hlock hoffsetw).1 hw)⟩⟩
  · rintro ⟨hcodes, hsame, hfits, hlvl⟩
    refine ⟨⟨w, 0, hgate, hshiftc, (gate_iff hadj).2 ⟨hsame, hfits⟩⟩,
      (coded_iff hlock hoffsetc).2 (hcodes _ (by simp)),
      (coded_iff hlock hoffsetr).2 (hcodes _ (by simp)),
      (coded_iff hlock hoffsetw).2 (hcodes _ (by simp)), ?_⟩
    rw [hwrLvl, hlvl]

end Survives

/-! ### A board -/

/-- The globals after a training. -/
def trained : Globals where
  gLockVal := 0x100
  gWRlvl := 0x08080808
  gGTcycle := 0x249
  gGTcode := 0x48404838
  gRDvwmc := 0x40404040
  gWRvwmc := 0x44444444

/-- A PHY that is ready at once, with the alive registers as `vddPowerOff` leaves them. -/
def afterSuspend : Readings
  | .reg (.aliveScratchValue i) _ => saved trained 0 (fun _ => 0) i
  | .reg .shiftcCon _ => 0x0492
  | .reg (.phyCon 1) _ => 0x10040000
  | .reg (.mdllCon 1) _ => 0x10007
  | _ => 0xFFFFFFFF

/-- `raptor1400` with every bit of `LvlTr_Mode`. -/
def everyStep : SecondBootInfo := { raptor1400 with lvlTrMode := 0x1F }

theorem found_afterSuspend :
    Found afterSuspend (saved trained 0 fun _ => 0) 1 0x100 :=
  ⟨fun _ _ => rfl, fun _ => by simp [afterSuspend], fun _ _ => by simp [afterSuspend]⟩

theorem everyStep_trains (t : Training) : everyStep.trains t = true := by
  cases t <;> rfl

theorem exists_resume : ∃ p, initDDR3 afterSuspend everyStep 1 2 powerOn = some p :=
  Option.isSome_iff_exists.1 (by decide +kernel)

/-- A resume on this board. -/
theorem survives_iff_afterSuspend : ∃ ret m',
    initDDR3 afterSuspend everyStep 1 2 powerOn = some (ret, m') ∧
      (Survives trained 1 0x100 m'.log ↔ Restorable trained 1 0x100 0) := by
  obtain ⟨⟨ret, m'⟩, h⟩ := exists_resume
  exact ⟨ret, m', h, survives_iff found_afterSuspend everyStep_trains h⟩

/-- `g_WR_lvl` is not saved, and is zero after start-up. -/
theorem not_survives : ¬∀ (g : Globals) (pend : U32) (former : ℕ → U32) (rd : Readings)
    (sbi : SecondBootInfo) (adj lock : U32) (fuel : ℕ) (m m' : Machine) (ret : Bool),
    Found rd (saved g pend former) adj lock → (∀ t, sbi.trains t = true) →
      initDDR3 rd sbi 1 fuel m = some (ret, m') → Survives g adj lock m'.log := by
  intro hall
  obtain ⟨⟨ret, m'⟩, h⟩ := exists_resume
  have hwrLvl := (initDDR3_restored found_afterSuspend everyStep_trains h).wrLvl
  have hsurvives := hall trained 0 (fun _ => 0) _ _ _ _ _ _ _ _ found_afterSuspend
    everyStep_trains h
  exact absurd (Option.some.inj (hwrLvl.symm.trans hsurvives.wrLvl)) (by decide)

end Gec6818Bl1.Ddr.Suspend
