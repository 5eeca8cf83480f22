import Mathlib.Data.List.Nodup
import Gec6818Bl1.Ddr.Training

/-!
# init_DDR3 and self refresh

`init_DDR3`, `enterSelfRefresh` and `exitSelfRefresh` of `init_DDR3.c`, cut where the source waits
for the hardware without a bound. `fuel` bounds these waits: a call that returns has a result for
some fuel, one that hangs has none.

* `init_DDR3` looks at the result of gate levelling and at no other one (`training_fst`), and when it
  is content the steps that `LvlTr_Mode` asks for have been taken in order (`training_snd`).
* It leaves MR0 and MR2 as it set them, MR3 off, and MR1 as it set it or as write levelling does
  (`modeRegs_initDDR3`). Entering self refresh sets MR1 and MR2 to other words, and leaving it sets
  them again (`modeRegs_enterSelfRefresh`, `modeRegs_exitSelfRefresh`).
-/

namespace Gec6818Bl1.Ddr

open RegTrace

/-- The bit of `LvlTr_Mode` that asks for a training step. -/
def Training.lvltr : Training → ℕ
  | .writeLeveling => 0
  | .gateLeveling => 2
  | .readDq => 3
  | .writeLatency => 0
  | .writeDq => 4

/-- `pSBI->LvlTr_Mode & LVLTR_...`. -/
def SecondBootInfo.trains (sbi : SecondBootInfo) (t : Training) : Bool :=
  sbi.lvlTrMode &&& 1#16 <<< t.lvltr != 0

section Init

variable (rd : Readings) (sbi : SecondBootInfo)

def reset : List RegOp := [
  clearIO32 (.regRst 0) (0x7#32 <<< 26),
  setIO32 (.regRst 0) (0x7#32 <<< 26),
  clearIO32 (.regRst 0) (0x7#32 <<< 26),
  setIO32 (.regRst 0) (0x7#32 <<< 26)]

/-- `DDR_AL`. -/
def ddrAl : U32 :=
  if 0 < sbi.mr1Al then sbi.cl.setWidth 32 - sbi.mr1Al.setWidth 32 else 0

/-- `T_WrRdCmd`, by the `tWTR` of `TIMINGDATA`. -/
def wrRdCmd : U32 :=
  if sbi.timingData >>> 28 = 3 then 0x7#32 <<< 17
  else if sbi.timingData >>> 28 = 2 then 0x6#32 <<< 17
  else 0

def phyInit : List RegOp := [
  writeIO32 (.phyCon 0) (0x17#32 <<< 24 ||| 0x1#32 <<< 22 ||| 0x1#32 <<< 11 ||| 0x1#32 <<< 10 |||
    0x1#32 <<< 9 ||| 0x1#32 <<< 6 ||| wrRdCmd sbi),
  .modify (.lpDdrCon 3) (· &&& ~~~0x3FFF ||| 0x105E),
  .modify (.lpDdrCon 4) (· &&& ~~~0x3FFF ||| 0x107F),
  writeIO32 (.phyCon 4) ((ddrAl sbi + sbi.cwl.setWidth 32) <<< 16 ||| 0x8#32 <<< 8 |||
    (ddrAl sbi + sbi.cl.setWidth 32) <<< 0),
  writeIO32 (.drvdsCon 0) 0x00,
  writeIO32 (.drvdsCon 1) 0x00,
  writeIO32 .zqCon (0x1#32 <<< 27 ||| sbi.zqDds.setWidth 32 <<< 24 ||| sbi.zqOdt.setWidth 32 <<< 21 |||
    0x1#32 <<< 18 ||| 0x30#32 <<< 4 ||| 0x1#32 <<< 2),
  setIO32 .zqCon (0x1#32 <<< 1)]

def dfiInit : List RegOp := [
  clearIO32 .zqCon (0x1#32 <<< 1),
  clearIO32 .zqCon (0x1#32 <<< 18),
  writeIO32 .conControl (0xFFF#32 <<< 16 ||| 0x3#32 <<< 12),
  setIO32 .conControl (0x1#32 <<< 28)]

/-- `MEMCONFIG`, the same for both ranks. -/
def memConfigWord : U32 :=
  0x2#32 <<< 12 ||| sbi.chipCol.setWidth 32 <<< 8 ||| sbi.chipRow.setWidth 32 <<< 4 ||| 0x3#32 <<< 0

def acTiming (i : ℕ) : List RegOp := [
  writeIO32 (.timingRow i) sbi.timingRow,
  writeIO32 (.timingData i) sbi.timingData,
  writeIO32 (.timingPower i) sbi.timingPower]

def controllerInit : List RegOp :=
  [ clearIO32 .conControl (0x1#32 <<< 28),
    writeIO32 .lpCon (0xF#32 <<< 0),
    writeIO32 .rodtCon (0x1#32 <<< 24 ||| 0x1#32 <<< 16),
    setIO32 .phyControl (0x1#32 <<< 3),
    clearIO32 .phyControl (0x1#32 <<< 3),
    writeIO32 (.memBaseConfig 0) (0x040#32 <<< 16 ||| sbi.chipMask.setWidth 32 <<< 0),
    writeIO32 (.memBaseConfig 1) ((0x40#32 + sbi.chipSize.setWidth 32) <<< 16 |||
      sbi.chipMask.setWidth 32 <<< 0),
    writeIO32 (.memConfig 0) (memConfigWord sbi)] ++
  (if 1 < sbi.chipNum then [writeIO32 (.memConfig 1) (memConfigWord sbi)] else []) ++
  [ writeIO32 .prechConfig1 0x00,
    writeIO32 .pwrdnConfig 0xFF,
    writeIO32 .timingAref sbi.timingAref] ++
  acTiming sbi 0 ++
  (if 1 < sbi.chipNum then acTiming sbi 1 else []) ++
  [ writeIO32 .timingPzq sbi.timingPzq,
    writeIO32 (.wrlvlConfig 0) (2#32 <<< 4),
    writeIO32 .memControl (0x3#32 <<< 20 ||| (sbi.chipNum.setWidth 32 - 1#32) <<< 16 |||
      0x2#32 <<< 12 ||| 0x6#32 <<< 8),
    writeIO32 (.offsetrCon 0) 0x08080808,
    writeIO32 (.offsetwCon 0) 0x08080808,
    setIO32 .phyControl (0x1#32 <<< 3),
    clearIO32 .phyControl (0x1#32 <<< 3)]

/-- The words of `init_DDR3`; `exitSelfRefresh` builds the same for MR1 and MR2. -/
def SecondBootInfo.modeWords (sbi : SecondBootInfo) : ModeReg → U16
  | .mr0 => sbi.mr0.reg
  | .mr1 => (sbi.mr1 0).reg
  | .mr2 => (sbi.mr2 (sbi.mr2RttWr.setWidth 2) 0).reg
  | .mr3 => (mr3 0).reg

/-- Steps 18 to 25. -/
def sendModeRegisters (m : Machine) : Machine :=
  let m := m.exec rd (sendPlain sbi .nop)
  let m := m.exec rd (sendToRanks sbi .mrs .mr2 (sbi.modeWords .mr2))
  let m := m.exec rd (sendToRanks sbi .mrs .mr3 (sbi.modeWords .mr3))
  let m := m.exec rd (sendToRanks sbi .mrs .mr1 (sbi.modeWords .mr1))
  let m := m.exec rd (sendToRanks sbi .mrs .mr0 (sbi.modeWords .mr0))
  m.exec rd (sendPlain sbi .zqInit)

def trainingPreparation : List RegOp := [
  clearIO32 .offsetdCon (0x1#32 <<< 28),
  setIO32 (.phyCon 0) (0x1#32 <<< 6),
  setIO32 (.phyCon 0) (0x1#32 <<< 14),
  setIO32 (.phyCon 2) (0x1#32 <<< 6),
  setIO32 (.phyCon 0) (0x1#32 <<< 13),
  .modify (.phyCon 1) (· &&& ~~~(0xF#32 <<< 16) ||| 0x4#32 <<< 16),
  writeIO32 (.lpDdrCon 3) 0x105E,
  writeIO32 (.lpDdrCon 4) 0x107F,
  .modify (.phyCon 2) (· &&& ~~~(0x7F#32 <<< 16) ||| 0x1#32 <<< 16)]

/-- The nested loops that lock the DLL: the last value of `MDLL_CON[1]`. -/
def lockDll : ℕ → Machine → Option (U32 × Machine)
  | 0, _ => none
  | fuel + 1, m => do
    let m := m.exec rd [setIO32 (.mdllCon 0) (0x1#32 <<< 5)]
    let (_, m) ← m.waitFor rd (.mdllCon 1) (· &&& 0x7 == 0x7) fuel
    let m := m.exec rd [clearIO32 (.mdllCon 0) (0x1#32 <<< 5)]
    let (temp, m) := m.readIO32 rd (.mdllCon 1)
    if temp &&& 0x7 = 0x7 then some (temp, m) else lockDll fuel m

/-- The training of a cold start. -/
def training (m : Machine) : Bool × Machine :=
  let m := if sbi.trains .writeLeveling then (ddrHwWriteLeveling rd sbi m).2 else m
  match if sbi.trains .gateLeveling then ddrGateLeveling rd sbi m else (true, m) with
  | (false, m) => (false, m)
  | (true, m) =>
    let m := if sbi.trains .readDq then (ddrReadDqCalibration rd sbi m).2 else m
    let m := if sbi.trains .writeLatency then (ddrWriteLatencyCalibration rd m).2 else m
    let m := if sbi.trains .writeDq then (ddrWriteDqCalibration rd m).2 else m
    (true, m)

/-- One byte of `getVWMC_Offset`: sign and magnitude of the distance. -/
def vwmcOffset (code lockDiv4 : U32) (i : ℕ) : U8 :=
  let offset : U32 := (code >>> (8 * i) &&& 0xFF) - lockDiv4
  if offset.msb then (-offset ||| 0x80).setWidth 8 else offset.setWidth 8

def getVWMCOffset (code lockDiv4 : U32) : U32 :=
  vwmcOffset code lockDiv4 3 ++ vwmcOffset code lockDiv4 2 ++ vwmcOffset code lockDiv4 1 ++
    vwmcOffset code lockDiv4 0

/-- A lane of `g_GT_cycle`. -/
def gateCycle (cycle : U32) (i : ℕ) : U32 := cycle >>> (3 * i) &&& 0x7

/-- The smallest of the four lanes. -/
def minGateCycle (cycle : U32) : U32 :=
  [1, 2, 3].foldl (fun min i => if gateCycle cycle i < min then gateCycle cycle i else min)
    (gateCycle cycle 0)

def restoreGateLeveling (m : Machine) : Machine :=
  let m := m.exec rd [
    setIO32 (.phyCon 2) (0x1#32 <<< 24),
    setIO32 (.phyCon 0) (0x5#32 <<< 6),
    clearIO32 (.phyCon 1) (0xF#32 <<< 20)]
  let min := minGateCycle m.gGTcycle
  let m :=
    if min ≠ 0 then
      let (gateAdj, m) := m.readIO32 rd (.phyCon 1)
      let min := (gateAdj >>> 28 &&& 0xF) + min
      m.exec rd [.modify (.phyCon 1) (· &&& 0x0FFFFFFF ||| min <<< 28)]
    else m
  m.exec rd [
    writeIO32 (.offsetcCon 0) (getVWMCOffset m.gGTcode (m.gLockVal >>> 2)),
    writeIO32 .shiftcCon 0x00,
    clearIO32 (.phyCon 2) (0x1#32 <<< 24),
    writeIO32 .lpCon 0x0,
    clearIO32 .rodtCon (0x1#32 <<< 16)]

/-- The training of a resume: the results of the last one, from the alive registers. -/
def restoreTraining (m : Machine) : Machine :=
  let m := m.exec rd [writeIO32 .alivePwrGateReg 1]
  let (gGTcycle, m) := m.readIO32 rd (.aliveScratchValue 5)
  let (gGTcode, m) := m.readIO32 rd (.aliveScratchValue 6)
  let (gRDvwmc, m) := m.readIO32 rd (.aliveScratchValue 7)
  let (gWRvwmc, m) := m.readIO32 rd (.aliveScratchValue 8)
  let m : Machine := { m with gGTcycle, gGTcode, gRDvwmc, gWRvwmc }
  let lockDiv4 := m.gLockVal >>> 2
  let m :=
    if sbi.trains .writeLeveling then m.exec rd [writeIO32 (.wrLvlCon 0) m.gWRlvl] else m
  let m := if sbi.trains .gateLeveling then restoreGateLeveling rd m else m
  let m :=
    if sbi.trains .readDq then
      let m := { m with gRDvwmc := getVWMCOffset m.gRDvwmc lockDiv4 }
      m.exec rd [writeIO32 (.offsetrCon 0) m.gRDvwmc]
    else m
  let m := if sbi.trains .writeLatency then (ddrWriteLatencyCalibration rd m).2 else m
  if sbi.trains .writeDq then
    let m := { m with gWRvwmc := getVWMCOffset m.gWRvwmc lockDiv4 }
    m.exec rd [writeIO32 (.offsetwCon 0) m.gWRvwmc]
  else m

def finishInit (isResume : U32) (m : Machine) : Machine :=
  let m := m.exec rd [
    setIO32 .offsetdCon (0x1#32 <<< 24),
    clearIO32 .offsetdCon (0x1#32 <<< 24),
    clearIO32 (.phyCon 0) (0x3#32 <<< 13),
    setIO32 (.mdllCon 0) (0x1#32 <<< 5),
    setIO32 (.phyCon 2) (0x1#32 <<< 12),
    setIO32 .offsetdCon (0x1#32 <<< 28),
    setIO32 .phyControl (0x1#32 <<< 3),
    clearIO32 .phyControl (0x1#32 <<< 3)]
  let m := m.exec rd (sendPlain sbi .pall)
  let temp := 0xFFF#32 <<< 16 ||| 0x1#32 <<< 12 ||| 0x1#32 <<< 8 ||| 0x1#32 <<< 5
  m.exec rd [
    writeIO32 .phyControl (0x1#32 <<< 31 ||| 0x1#32 <<< 30 ||| 0x1#32 <<< 29 ||| 0x1#32 <<< 0),
    writeIO32 .conControl (if isResume ≠ 0 then temp &&& ~~~(0x1#32 <<< 5) else temp),
    writeIO32 .cgControl 0]

/-- The result and the machine, if the call returns. -/
def initDDR3 (isResume : U32) (fuel : ℕ) (m : Machine) : Option (Bool × Machine) := do
  let (_, m) ← (m.exec rd reset).waitFor rd .shiftcCon (· == 0x0492) fuel
  let (_, m) ← (m.exec rd (phyInit sbi)).waitFor rd .zqStatus (· &&& 0x1 != 0) fuel
  let (_, m) ← (m.exec rd dfiInit).waitFor rd .phyStatus (· &&& 0x1#32 <<< 3 != 0) fuel
  let m := m.exec rd (controllerInit sbi)
  let m := if isResume = 0 then sendModeRegisters rd sbi m else m
  let (temp, m) ← lockDll rd fuel (m.exec rd trainingPreparation)
  let m := { m with gLockVal := temp >>> 8 &&& 0x1FF }
  let m := m.exec rd [.modify (.mdllCon 0) (· &&& ~~~(0x1FF#32 <<< 7) ||| m.gLockVal <<< 7)]
  let (ret, m) := if isResume = 0 then training rd sbi m else (true, restoreTraining rd sbi m)
  some (ret, if ret then finishInit rd sbi isResume m else m)

/-! ## Self refresh -/

/-- The bits of `CHIPSTATUS` of the ranks. -/
def nChips : U32 := if 1 < sbi.chipNum then 0x3 else 0x1

def enterSelfRefresh (fuel : ℕ) (m : Machine) : Option Machine := do
  let (_, m) ← m.waitFor rd .chipStatus (· &&& 0xF == 0) fuel
  let m := m.exec rd (sendPlain sbi .pall)
  let m := m.exec rd (sendToRanks sbi .mrs .mr2 (sbi.mr2 0 1).reg)
  let m := m.exec rd (sendToRanks sbi .mrs .mr1 (sbi.mr1 1).reg)
  let m := m.exec rd (sendPlain sbi .refs)
  let (_, m) ← m.waitFor rd .chipStatus (· &&& nChips sbi == 0) fuel
  let (_, m) ← m.waitFor rd .chipStatus (· >>> 8 &&& nChips sbi == nChips sbi) fuel
  some (m.exec rd [clearIO32 .conControl (0x1#32 <<< 5), setIO32 .memControl (0x1#32 <<< 0)])

def exitSelfRefresh (m : Machine) : Machine :=
  let m := m.exec rd [
    clearIO32 .memControl (0x1#32 <<< 0),
    setIO32 .conControl (0x1#32 <<< 5)]
  let m := m.exec rd (sendPlain sbi .pall)
  let m := m.exec rd (sendToRanks sbi .mrs .mr1 (sbi.modeWords .mr1))
  let m := m.exec rd (sendToRanks sbi .mrs .mr2 (sbi.modeWords .mr2))
  m.exec rd (sendPlain sbi .refsx)

end Init

/-! ## The parts of init_DDR3 -/

section Parts

variable {rd : Readings} {sbi : SecondBootInfo} {m m' : Machine}

theorem Quiet.lockDll {fuel : ℕ} {temp : U32} (h : lockDll rd fuel m = some (temp, m')) :
    Quiet m m' := by
  induction fuel generalizing m with
  | zero => cases h
  | succ fuel ih =>
    obtain ⟨⟨v, m₁⟩, hwait, h⟩ := Option.bind_eq_some_iff.1 h
    have h₁ : Quiet m m₁ := (Quiet.exec (by simp)).trans (.waitFor hwait)
    have h₂ : Quiet m ((m₁.exec rd [clearIO32 (.mdllCon 0) (0x1#32 <<< 5)]).readIO32 rd
        (.mdllCon 1)).2 := (h₁.trans (.exec (by simp))).trans .readIO32
    dsimp only at h
    split_ifs at h
    · obtain ⟨-, rfl⟩ := Prod.mk.inj (Option.some.inj h)
      exact h₂
    · exact h₂.trans (ih h)

theorem modeRegs_sendModeRegisters {rank : ℕ} (hrank : sbi.Present rank) :
    modeRegs (sendModeRegisters rd sbi m).log rank = fun mrx => some (sbi.modeWords mrx) := by
  unfold sendModeRegisters
  rw [(Quiet.sendPlain .zqInit (by decide)).modeRegs_eq, modeRegs_mrs _ _ hrank,
    modeRegs_mrs _ _ hrank, modeRegs_mrs _ _ hrank, modeRegs_mrs _ _ hrank]
  funext mrx
  cases mrx <;> rfl

theorem prefix_sendModeRegisters : m.log <+: (sendModeRegisters rd sbi m).log :=
  ((((prefix_exec.trans prefix_exec).trans prefix_exec).trans prefix_exec).trans prefix_exec).trans
    prefix_exec

theorem silent_controllerInit : Silent (controllerInit sbi) := by
  unfold controllerInit acTiming
  split_ifs <;> simp

theorem Quiet.finishInit {isResume : U32} : Quiet m (finishInit rd sbi isResume m) := by
  unfold Ddr.finishInit
  exact ((Quiet.exec (by simp)).trans (.sendPlain .pall (by decide))).trans (.exec (by simp))

/-- A cold start sets the mode registers and trains; what comes after the training is quiet. -/
theorem initDDR3_eq_some {fuel : ℕ} {ret : Bool}
    (h : initDDR3 rd sbi 0 fuel m = some (ret, m')) : ∃ m₁ : Machine, m.log <+: m₁.log ∧
      (∀ rank, sbi.Present rank → modeRegs m₁.log rank = fun mrx => some (sbi.modeWords mrx)) ∧
      (training rd sbi m₁).1 = ret ∧ Quiet (training rd sbi m₁).2 m' := by
  obtain ⟨⟨_, ma⟩, hphy, h⟩ := Option.bind_eq_some_iff.1 h
  obtain ⟨⟨_, mb⟩, hzq, h⟩ := Option.bind_eq_some_iff.1 h
  obtain ⟨⟨_, mc⟩, hdfi, h⟩ := Option.bind_eq_some_iff.1 h
  obtain ⟨⟨temp, md⟩, hlock, h⟩ := Option.bind_eq_some_iff.1 h
  have hbefore : Quiet m (mc.exec rd (controllerInit sbi)) :=
    ((((((Quiet.exec (by simp [reset])).trans (.waitFor hphy)).trans
      (.exec (by simp [phyInit]))).trans (.waitFor hzq)).trans
      (.exec (by simp [dfiInit]))).trans (.waitFor hdfi)).trans (.exec silent_controllerInit)
  have hafter : Quiet (sendModeRegisters rd sbi (mc.exec rd (controllerInit sbi))) md :=
    (Quiet.exec (by simp [trainingPreparation])).trans (.lockDll hlock)
  -- The lock value is a global, so that only the bus is as it was.
  let locked : Machine := { md with gLockVal := temp >>> 8 &&& 0x1FF }
  have hlocked : Quiet locked (locked.exec rd
      [.modify (.mdllCon 0) (· &&& ~~~(0x1FF#32 <<< 7) ||| locked.gLockVal <<< 7)]) :=
    .exec (by simp)
  refine ⟨_, ((hbefore.prefix_log.trans prefix_sendModeRegisters).trans hafter.prefix_log).trans
    hlocked.prefix_log, fun rank hrank => ?_, ?_⟩
  · rw [hlocked.modeRegs_eq, ← modeRegs_sendModeRegisters hrank, ← hafter.modeRegs_eq]
  · obtain ⟨hret, rfl⟩ := Prod.mk.inj (Option.some.inj h)
    refine ⟨hret, ?_⟩
    by_cases hok : ret = true
    · rw [if_pos (hret.trans hok)]
      exact .finishInit
    · rw [if_neg fun h => hok (hret.symm.trans h)]
      exact .refl _

end Parts

/-! ## The training of a cold start -/

/-- The routine of a step. -/
def Training.routine (rd : Readings) (sbi : SecondBootInfo) : Training → Machine → Bool × Machine
  | .writeLeveling => ddrHwWriteLeveling rd sbi
  | .gateLeveling => ddrGateLeveling rd sbi
  | .readDq => ddrReadDqCalibration rd sbi
  | .writeLatency => ddrWriteLatencyCalibration rd
  | .writeDq => ddrWriteDqCalibration rd

/-- The steps that `LvlTr_Mode` asks for. -/
def enabled (sbi : SecondBootInfo) : List Training :=
  [.writeLeveling, .gateLeveling, .readDq, .writeLatency, .writeDq].filter sbi.trains

/-- The readings of gate levelling: no response, or a code that is all centres. -/
def GateFails (rd : Readings) : Prop :=
  ¬Answers rd .gateLeveling ∨ rd (.result .gateLeveling (.calGtVwmc 0)) = 0x08080808

section Training

variable {rd : Readings} {sbi : SecondBootInfo} {m : Machine} {t : Training}

theorem mem_enabled : t ∈ enabled sbi ↔ sbi.trains t = true := by
  rw [enabled, List.mem_filter]
  refine and_iff_right_of_imp fun _ => ?_
  cases t <;> decide

theorem nodup_enabled : (enabled sbi).Nodup :=
  List.Nodup.filter _ (by decide)

theorem Step.routine (t : Training) (m : Machine) : Step rd t m (t.routine rd sbi m).2 := by
  cases t with
  | writeLeveling => exact step_writeLeveling
  | gateLeveling => exact step_gateLeveling
  | readDq => exact step_readDq
  | writeLatency => exact step_writeLatency
  | writeDq => exact step_writeDq

/-- The only result that is looked at. -/
theorem training_fst :
    (training rd sbi m).1 = true ↔ (sbi.trains .gateLeveling = true → ¬GateFails rd) := by
  simp only [training]
  generalize (if sbi.trains .writeLeveling then (ddrHwWriteLeveling rd sbi m).2 else m) = m₁
  by_cases hgate : sbi.trains .gateLeveling = true
  · have hiff := @gateLeveling_eq_true_iff rd sbi m₁
    rw [if_pos hgate, forall_prop_of_true hgate, GateFails, not_or, not_not, ← ne_eq, ← hiff]
    rcases ddrGateLeveling rd sbi m₁ with ⟨_ | _, m₂⟩
    · rfl
    · rfl
  · rw [if_neg hgate]
    exact iff_of_true rfl fun h => absurd h hgate

/-- A training that succeeds has taken the steps in order. -/
theorem training_snd (h : (training rd sbi m).1 = true) : (training rd sbi m).2 =
    runSteps (fun t m => (t.routine rd sbi m).2) (enabled sbi) m := by
  simp only [training, runSteps, enabled, List.foldl_filter, List.foldl_cons, List.foldl_nil,
    Training.routine] at h ⊢
  generalize (if sbi.trains .writeLeveling then (ddrHwWriteLeveling rd sbi m).2 else m) = m₁ at h ⊢
  by_cases hgate : sbi.trains .gateLeveling = true
  · rw [if_pos hgate] at h ⊢
    rw [if_pos hgate]
    cases hret : ddrGateLeveling rd sbi m₁ with
    | mk ok m₂ =>
      rw [hret] at h
      cases ok with
      | false => cases h
      | true => rfl
  · rw [if_neg hgate, if_neg hgate]

/-- A step that turns MR3 off leaves everything as it is when MR3 is off already. -/
theorem update_mr3_eq_self {regs : ModeReg → Option U16} (hmr3 : regs .mr3 = some 0) :
    Function.update regs .mr3 (some 0) = regs := by
  rw [← hmr3, Function.update_eq_self]

/-- A step that is taken or not. -/
theorem modeRegs_ite {c : Prop} [Decidable c] {m₁ m₂ : Machine} {rank : ℕ}
    {regs : ModeReg → Option U16} (h₁ : modeRegs m₁.log rank = regs)
    (h₂ : modeRegs m₂.log rank = regs) : modeRegs (if c then m₁ else m₂).log rank = regs := by
  split_ifs
  · exact h₁
  · exact h₂

/-- What write levelling leaves, if it is asked for. -/
theorem modeRegs_ite_writeLeveling {rank : ℕ} (hrank : sbi.Present rank) :
    modeRegs (if sbi.trains .writeLeveling then (ddrHwWriteLeveling rd sbi m).2 else m).log rank =
      if sbi.trains .writeLeveling then
        Function.update (modeRegs m.log rank) .mr1 (some (sbi.levelingMr1 0).reg)
      else modeRegs m.log rank := by
  split_ifs
  · exact modeRegs_writeLeveling hrank
  · rfl

/-- The steps after write levelling keep the mode registers. -/
theorem modeRegs_training {rank : ℕ} (hrank : sbi.Present rank)
    (hmr3 : modeRegs m.log rank .mr3 = some 0) :
    modeRegs (training rd sbi m).2.log rank =
      if sbi.trains .writeLeveling then
        Function.update (modeRegs m.log rank) .mr1 (some (sbi.levelingMr1 0).reg)
      else modeRegs m.log rank := by
  simp only [training]
  rw [← @modeRegs_ite_writeLeveling rd sbi m rank hrank]
  have hmr3' : modeRegs (if sbi.trains .writeLeveling then (ddrHwWriteLeveling rd sbi m).2
      else m).log rank .mr3 = some 0 := by
    rw [modeRegs_ite_writeLeveling hrank]
    split_ifs
    · rw [Function.update_of_ne (by decide), hmr3]
    · exact hmr3
  generalize (if sbi.trains .writeLeveling then (ddrHwWriteLeveling rd sbi m).2 else m) = m₁
    at hmr3' ⊢
  have hgate : modeRegs (if sbi.trains .gateLeveling then ddrGateLeveling rd sbi m₁
      else (true, m₁)).2.log rank = modeRegs m₁.log rank := by
    split_ifs
    · rw [modeRegs_gateLeveling hrank, update_mr3_eq_self hmr3']
    · rfl
  generalize (if sbi.trains .gateLeveling then ddrGateLeveling rd sbi m₁ else (true, m₁)) = gated
    at hgate ⊢
  obtain ⟨_ | _, m₂⟩ := gated
  · exact hgate
  · have hread : modeRegs (if sbi.trains .readDq then (ddrReadDqCalibration rd sbi m₂).2
        else m₂).log rank = modeRegs m₁.log rank := by
      apply modeRegs_ite
      · rw [modeRegs_readDq hrank, hgate, update_mr3_eq_self hmr3']
      · exact hgate
    dsimp only
    generalize (if sbi.trains .readDq then (ddrReadDqCalibration rd sbi m₂).2 else m₂) = m₃
      at hread ⊢
    have hlatency : modeRegs (if sbi.trains .writeLatency then (ddrWriteLatencyCalibration rd m₃).2
        else m₃).log rank = modeRegs m₁.log rank :=
      modeRegs_ite ((congrFun modeRegs_writeLatency rank).trans hread) hread
    exact modeRegs_ite ((congrFun modeRegs_writeDq rank).trans hlatency) hlatency

end Training

/-! ## The calls -/

/-- The words that `init_DDR3` leaves. -/
def SecondBootInfo.initWords (sbi : SecondBootInfo) : ModeReg → U16 :=
  if sbi.trains .writeLeveling then
    Function.update sbi.modeWords .mr1 (sbi.levelingMr1 0).reg
  else sbi.modeWords

theorem SecondBootInfo.initWords_of_ne (sbi : SecondBootInfo) {mrx : ModeReg}
    (hmrx : mrx ≠ .mr1) : sbi.initWords mrx = sbi.modeWords mrx := by
  unfold initWords
  split_ifs
  · exact Function.update_of_ne hmrx _ _
  · rfl

section Calls

variable {rd : Readings} {sbi : SecondBootInfo} {m m' : Machine} {rank fuel : ℕ} {ret : Bool}

theorem initDDR3_ret (h : initDDR3 rd sbi 0 fuel m = some (ret, m')) :
    ret = true ↔ (sbi.trains .gateLeveling = true → ¬GateFails rd) := by
  obtain ⟨m₁, -, -, hret, -⟩ := initDDR3_eq_some h
  rw [← hret]
  exact training_fst

theorem modeRegs_initDDR3 (h : initDDR3 rd sbi 0 fuel m = some (ret, m'))
    (hrank : sbi.Present rank) :
    modeRegs m'.log rank = fun mrx => some (sbi.initWords mrx) := by
  obtain ⟨m₁, -, hwords, -, hquiet⟩ := initDDR3_eq_some h
  rw [hquiet.modeRegs_eq, modeRegs_training hrank (congrFun (hwords rank hrank) .mr3),
    hwords rank hrank]
  funext mrx
  unfold SecondBootInfo.initWords
  split_ifs
  · cases mrx <;> rfl
  · rfl

theorem modeRegs_enterSelfRefresh (h : enterSelfRefresh rd sbi fuel m = some m')
    (hrank : sbi.Present rank) : modeRegs m'.log rank = Function.update
      (Function.update (modeRegs m.log rank) .mr2 (some (sbi.mr2 0 1).reg)) .mr1
      (some (sbi.mr1 1).reg) := by
  obtain ⟨⟨_, ma⟩, hidle, h⟩ := Option.bind_eq_some_iff.1 h
  obtain ⟨⟨_, mb⟩, hbusy, h⟩ := Option.bind_eq_some_iff.1 h
  obtain ⟨⟨_, mc⟩, hself, h⟩ := Option.bind_eq_some_iff.1 h
  obtain rfl := Option.some.inj h
  rw [(Quiet.exec (by simp)).modeRegs_eq, (Quiet.waitFor hself).modeRegs_eq,
    (Quiet.waitFor hbusy).modeRegs_eq, (Quiet.sendPlain .refs (by decide)).modeRegs_eq,
    modeRegs_mrs _ _ hrank, modeRegs_mrs _ _ hrank,
    (Quiet.sendPlain .pall (by decide)).modeRegs_eq, (Quiet.waitFor hidle).modeRegs_eq]

theorem modeRegs_exitSelfRefresh (hrank : sbi.Present rank) :
    modeRegs (exitSelfRefresh rd sbi m).log rank = Function.update
      (Function.update (modeRegs m.log rank) .mr1 (some (sbi.modeWords .mr1))) .mr2
      (some (sbi.modeWords .mr2)) := by
  unfold exitSelfRefresh
  rw [(Quiet.sendPlain .refsx (by decide)).modeRegs_eq, modeRegs_mrs _ _ hrank,
    modeRegs_mrs _ _ hrank, (Quiet.sendPlain .pall (by decide)).modeRegs_eq,
    (Quiet.exec (by simp)).modeRegs_eq]

end Calls

end Gec6818Bl1.Ddr
