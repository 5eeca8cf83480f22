import Mathlib.Logic.Function.Basic
import Gec6818Bl1.Lib.RegTrace
import Gec6818Bl1.Ddr.ModeRegisters

/-!
# Registers, readings and commands

What `init_DDR3.c` does to the world. Nothing is assumed of the PHY and the controller: each value
that they hand over is a parameter, `rd`, which knows a reading by its place in the code. The tests
of a training's loops are counted and the value it leaves for the driver is read in one place;
anything else is read at a time.

A piece of straight code is a list of operations. `DMC_Delay` and `nop` are left out, and so are the
readings made only to be printed.

The mode registers of a rank are what its mode register set commands have made of them
(`modeRegs`): `SendDirectCommand` packs a command into one word of `DIRECTCMD`, and the last word
for a mode register of a rank is what counts (`modeRegs_exec`).
-/

namespace Gec6818Bl1.Ddr

open RegTrace

inductive Reg where
  | regRst (i : ℕ)
  | conControl
  | memControl
  | cgControl
  | directCmd
  | phyControl
  | prechConfig1
  | pwrdnConfig
  | timingPzq
  | timingAref
  | timingRow (i : ℕ)
  | timingData (i : ℕ)
  | timingPower (i : ℕ)
  | phyStatus
  | chipStatus
  | wrtraConfig
  | wrlvlConfig (i : ℕ)
  | memBaseConfig (i : ℕ)
  | memConfig (i : ℕ)
  | phyCon (i : ℕ)
  | lpCon
  | rodtCon
  | offsetrCon (i : ℕ)
  | offsetwCon (i : ℕ)
  | offsetcCon (i : ℕ)
  | shiftcCon
  | offsetdCon
  | lpDdrCon (i : ℕ)
  | wrLvlCon (i : ℕ)
  | drvdsCon (i : ℕ)
  | mdllCon (i : ℕ)
  | zqCon
  | zqStatus
  | calGtVwmc (i : ℕ)
  | calGtCyc
  | calRdVwmc (i : ℕ)
  | calWrVwmc (i : ℕ)
  | alivePwrGateReg
  | aliveScratchValue (i : ℕ)
deriving DecidableEq

/-- The training steps, in the order in which `init_DDR3` takes them. -/
inductive Training where
  | writeLeveling
  | gateLeveling
  | readDq
  | writeLatency
  | writeDq
deriving DecidableEq

/-- The bit of `PHY_CON[3]` that says that the step is complete. -/
def Training.respBit : Training → ℕ
  | .writeLeveling => 24
  | .gateLeveling => 26
  | .readDq => 26
  | .writeLatency => 27
  | .writeDq => 26

/-- The `CAL_FAIL_STAT` registers that are to become zero afterwards. -/
def Training.failStats : Training → List ℕ
  | .writeLeveling => []
  | .gateLeveling => []
  | .readDq => [0]
  | .writeLatency => []
  | .writeDq => [0, 3]

/-- The place of a reading: test `k` of a loop on `PHY_CON[3]` or on `CAL_FAIL_STAT[i]`, what a
training step leaves in `reg`, or `reg` at a time. -/
inductive Site where
  | resp (t : Training) (k : ℕ)
  | failStat (t : Training) (i k : ℕ)
  | result (t : Training) (reg : Reg)
  | reg (reg : Reg) (time : ℕ)
deriving DecidableEq

abbrev Readings := Site → U32

abbrev RegOp := Op Reg U32

abbrev History := List (Access Site Reg U32)

/-! ## Operations -/

def setIO32 (reg : Reg) (data : U32) : RegOp := .modify reg (· ||| data)

def clearIO32 (reg : Reg) (data : U32) : RegOp := .modify reg (· &&& ~~~data)

def writeIO32 (reg : Reg) (data : U32) : RegOp := .write reg data

inductive SdramCmd where
  | mrs
  | pall
  | refs
  | nop
  | refsx
  | zqInit
deriving DecidableEq

def SdramCmd.code : SdramCmd → U32
  | .mrs => 0x0
  | .pall => 0x1
  | .refs => 0x4
  | .nop => 0x7
  | .refsx => 0x8
  | .zqInit => 0xA

/-- `SDRAM_MODE_REG`. -/
inductive ModeReg where
  | mr0
  | mr1
  | mr2
  | mr3
deriving DecidableEq

def ModeReg.code : ModeReg → U32
  | .mr0 => 0
  | .mr1 => 1
  | .mr2 => 2
  | .mr3 => 3

def commandWord (cmd : SdramCmd) (chipnum : U8) (mrx : ModeReg) (value : U16) : U32 :=
  cmd.code <<< 24 ||| ((chipnum &&& 1).setWidth 32) <<< 20 ||| mrx.code <<< 16 ||| value.setWidth 32

def sendDirectCommand (cmd : SdramCmd) (chipnum : U8) (mrx : ModeReg) (value : U16) : RegOp :=
  writeIO32 .directCmd (commandWord cmd chipnum mrx value)

/-- A command to rank 0, and to rank 1 `if (pSBI->DII.ChipNum > 1)`. -/
def sendToRanks (sbi : SecondBootInfo) (cmd : SdramCmd) (mrx : ModeReg) (value : U16) :
    List RegOp :=
  sendDirectCommand cmd 0 mrx value ::
    if 1 < sbi.chipNum then [sendDirectCommand cmd 1 mrx value] else []

/-- A command without a mode register: `(SDRAM_MODE_REG)CNULL, CNULL`. -/
def sendPlain (sbi : SecondBootInfo) (cmd : SdramCmd) : List RegOp :=
  sendToRanks sbi cmd .mr0 0

structure Globals where
  gLockVal : U32
  gWRlvl : U32
  gGTcycle : U32
  gGTcode : U32
  gRDvwmc : U32
  gWRvwmc : U32

/-- The globals, and what has happened on the bus. -/
structure Machine extends Globals where
  log : History

/-- Before the first call. -/
def powerOn : Machine := ⟨⟨0, 0, 0, 0, 0, 0⟩, []⟩

namespace Machine

variable (rd : Readings)

def exec (ops : List RegOp) (m : Machine) : Machine :=
  { m with log := RegTrace.exec rd Site.reg ops m.log }

/-- The loop on `PHY_CON[3]`: whether `cal_count` stays below 100. -/
def respLoop (t : Training) (m : Machine) : Bool × Machine :=
  let (seen, log) := poll rd (fun k => [.resp t k]) (·.all (·.getLsbD t.respBit)) 100 0 m.log
  (seen, { m with log })

/-- The loop on `CAL_FAIL_STAT`. -/
def failLoop (t : Training) (m : Machine) : Bool × Machine :=
  let (seen, log) := poll rd (fun k => t.failStats.map (.failStat t · k))
    (·.foldr (· ||| ·) 0 == 0) 100 0 m.log
  (seen, { m with log })

def readResult (t : Training) (reg : Reg) (m : Machine) : U32 × Machine :=
  (rd (.result t reg), { m with log := m.log ++ [.read (.result t reg)] })

def readIO32 (reg : Reg) (m : Machine) : U32 × Machine :=
  let site := Site.reg reg m.log.length
  (rd site, { m with log := m.log ++ [.read site] })

/-- A loop without a bound, left when the value is `ok`. -/
def waitFor (reg : Reg) (ok : U32 → Bool) (fuel : ℕ) (m : Machine) : Option (U32 × Machine) :=
  (RegTrace.waitFor rd Site.reg reg ok fuel m.log).map fun (v, log) => (v, { m with log })

end Machine

/-! ## The mode registers of a rank -/

/-- The value of a mode register set command for `mrx` of a rank. -/
def mrsValue (rank : ℕ) (mrx : ModeReg) (word : U32) : Option U16 :=
  let high := word >>> 16
  if high >>> 8 = SdramCmd.mrs.code ∧ (high >>> 4 &&& 1).toNat = rank ∧ high &&& 0xF = mrx.code then
    some (word.setWidth 16)
  else none

/-- The last word sent to a rank for each of its mode registers. -/
def modeRegs (log : History) (rank : ℕ) (mrx : ModeReg) : Option U16 :=
  ((writes .directCmd log).filterMap (mrsValue rank mrx)).getLast?

/-- A rank that the driver sends commands to. -/
def SecondBootInfo.Present (sbi : SecondBootInfo) (rank : ℕ) : Prop :=
  rank = 0 ∨ rank = 1 ∧ 1 < sbi.chipNum

theorem SecondBootInfo.present_of_lt {sbi : SecondBootInfo} {rank : ℕ}
    (hchip : sbi.chipNum.toNat ≤ 2) (hrank : rank < sbi.chipNum.toNat) : sbi.Present rank := by
  rcases Nat.eq_zero_or_pos rank with h | h
  · exact .inl h
  · refine .inr ⟨by omega, ?_⟩
    rw [BitVec.lt_def]
    show 1 < sbi.chipNum.toNat
    omega

section Words

variable (cmd : SdramCmd) (mrx : ModeReg) (value : U16)

theorem SdramCmd.code_eq_mrs : cmd.code = SdramCmd.mrs.code ↔ cmd = .mrs := by
  cases cmd <;> decide

theorem ModeReg.code_inj {a b : ModeReg} : a.code = b.code ↔ a = b := by
  cases a <;> cases b <;> decide

theorem setWidth_commandWord (chipnum : U8) :
    (commandWord cmd chipnum mrx value).setWidth 16 = value := by
  ext i hi
  have hout : ∀ (x : U32) (k : ℕ), 16 ≤ k → (x <<< k).getLsbD i = false := fun x k hk => by
    rw [BitVec.getLsbD_shiftLeft, decide_eq_true (by omega : i < k), Bool.not_true, Bool.and_false,
      Bool.false_and]
  simp only [commandWord, BitVec.getElem_setWidth, BitVec.getLsbD_or, BitVec.getLsbD_setWidth,
    hout _ 24 (by decide), hout _ 20 (by decide), hout _ 16 (by decide), Bool.false_or]
  rw [decide_eq_true (by omega : i < 32), Bool.true_and, BitVec.getLsbD_eq_getElem]

theorem commandWord_high (chipnum : U8) :
    commandWord cmd chipnum mrx value >>> 16 = commandWord cmd chipnum mrx 0 >>> 16 := by
  have hvalue : value.setWidth 32 >>> 16 = 0#32 := by
    ext i hi
    simp only [BitVec.getElem_ushiftRight, BitVec.getLsbD_setWidth, BitVec.getElem_zero]
    rw [BitVec.getLsbD_of_ge _ _ (by omega), Bool.and_false]
  simp only [commandWord, BitVec.ushiftRight_or_distrib, hvalue]
  rfl

/-- A command is a mode register set command of one rank and one register, or nothing of the kind. -/
theorem mrsValue_commandWord {rank : ℕ} (mrx' : ModeReg) :
    mrsValue rank mrx' (commandWord cmd 0 mrx value) =
        (if 0 = rank ∧ cmd = .mrs ∧ mrx = mrx' then some value else none) ∧
      mrsValue rank mrx' (commandWord cmd 1 mrx value) =
        (if 1 = rank ∧ cmd = .mrs ∧ mrx = mrx' then some value else none) := by
  have hcmd : commandWord cmd 0 mrx 0 >>> 16 >>> 8 = cmd.code ∧
      commandWord cmd 1 mrx 0 >>> 16 >>> 8 = cmd.code := by
    cases cmd <;> cases mrx <;> decide
  have hchip : (commandWord cmd 0 mrx 0 >>> 16 >>> 4 &&& 1).toNat = 0 ∧
      (commandWord cmd 1 mrx 0 >>> 16 >>> 4 &&& 1).toNat = 1 := by
    cases cmd <;> cases mrx <;> decide
  have hmrx : commandWord cmd 0 mrx 0 >>> 16 &&& 0xF = mrx.code ∧
      commandWord cmd 1 mrx 0 >>> 16 &&& 0xF = mrx.code := by
    cases cmd <;> cases mrx <;> decide
  constructor
  · simp only [mrsValue, commandWord_high, hcmd.1, hchip.1, hmrx.1, SdramCmd.code_eq_mrs,
      ModeReg.code_inj, setWidth_commandWord, and_left_comm]
  · simp only [mrsValue, commandWord_high, hcmd.2, hchip.2, hmrx.2, SdramCmd.code_eq_mrs,
      ModeReg.code_inj, setWidth_commandWord, and_left_comm]

end Words

/-! ## What the operations do -/

/-- Straight code without commands. -/
def Silent (ops : List RegOp) : Prop :=
  ∀ op ∈ ops, op.written .directCmd = none ∧ ¬op.Modifies .directCmd

section Silent

variable {ops : List RegOp} {reg : Reg} {data : U32} {f : U32 → U32}

@[simp] theorem silent_nil : Silent [] :=
  List.forall_mem_nil _

@[simp] theorem silent_read : Silent (.read reg :: ops) ↔ Silent ops := by
  simp [Silent, Op.written, Op.Modifies]

@[simp] theorem silent_modify :
    Silent (.modify reg f :: ops) ↔ reg ≠ .directCmd ∧ Silent ops := by
  simp [Silent, Op.written, Op.Modifies]

@[simp] theorem silent_writeIO32 :
    Silent (writeIO32 reg data :: ops) ↔ reg ≠ .directCmd ∧ Silent ops := by
  simp [Silent, writeIO32, Op.written, Op.Modifies]

@[simp] theorem silent_setIO32 :
    Silent (setIO32 reg data :: ops) ↔ reg ≠ .directCmd ∧ Silent ops :=
  silent_modify

@[simp] theorem silent_clearIO32 :
    Silent (clearIO32 reg data :: ops) ↔ reg ≠ .directCmd ∧ Silent ops :=
  silent_modify

end Silent

/-- From `m` to `m'` nothing has happened to the globals and the mode registers. -/
structure Quiet (m m' : Machine) : Prop where
  globals_eq : m'.toGlobals = m.toGlobals
  prefix_log : m.log <+: m'.log
  modeRegs_eq : modeRegs m'.log = modeRegs m.log

theorem Quiet.refl (m : Machine) : Quiet m m :=
  ⟨rfl, List.prefix_rfl, rfl⟩

theorem Quiet.trans {m₁ m₂ m₃ : Machine} (h : Quiet m₁ m₂) (h' : Quiet m₂ m₃) : Quiet m₁ m₃ where
  globals_eq := h'.globals_eq.trans h.globals_eq
  prefix_log := h.prefix_log.trans h'.prefix_log
  modeRegs_eq := h'.modeRegs_eq.trans h.modeRegs_eq

theorem modeRegs_congr {log log' : History} (h : writes .directCmd log' = writes .directCmd log) :
    modeRegs log' = modeRegs log := by
  funext rank mrx
  simp only [modeRegs, h]

section Effects

variable {rd : Readings} {m m' : Machine} {ops : List RegOp} {t : Training} {reg : Reg}

theorem Quiet.exec (hops : Silent ops) : Quiet m (m.exec rd ops) where
  globals_eq := rfl
  prefix_log := prefix_exec
  modeRegs_eq := by
    have hnone : ops.filterMap (Op.written .directCmd) = [] :=
      List.filterMap_eq_nil_iff.2 fun op hop => (hops op hop).1
    apply modeRegs_congr
    simp only [Machine.exec, writes_exec fun op hop => (hops op hop).2, hnone, List.append_nil]

theorem Quiet.respLoop : Quiet m (m.respLoop rd t).2 where
  globals_eq := rfl
  prefix_log := by
    simp only [Machine.respLoop]
    exact prefix_poll
  modeRegs_eq := modeRegs_congr (by simp only [Machine.respLoop, writes_poll])

theorem Quiet.failLoop : Quiet m (m.failLoop rd t).2 where
  globals_eq := rfl
  prefix_log := by
    simp only [Machine.failLoop]
    exact prefix_poll
  modeRegs_eq := modeRegs_congr (by simp only [Machine.failLoop, writes_poll])

theorem modeRegs_read (log : History) (site : Site) :
    modeRegs (log ++ [.read site]) = modeRegs log :=
  modeRegs_congr ((writes_append _ _).trans (List.append_nil _))

theorem Quiet.readIO32 : Quiet m (m.readIO32 rd reg).2 where
  globals_eq := rfl
  prefix_log := List.prefix_append _ _
  modeRegs_eq := modeRegs_read _ _

theorem Quiet.waitFor {ok : U32 → Bool} {fuel : ℕ} {v : U32}
    (h : m.waitFor rd reg ok fuel = some (v, m')) : Quiet m m' := by
  obtain ⟨⟨w, log⟩, hwait, heq⟩ := Option.map_eq_some_iff.1 h
  obtain ⟨rfl, rfl⟩ := Prod.mk.inj heq
  exact ⟨rfl, prefix_waitFor hwait, modeRegs_congr (writes_waitFor hwait)⟩

end Effects

section Commands

variable {rd : Readings} {m : Machine} {sbi : SecondBootInfo} {rank : ℕ}
variable (cmd : SdramCmd) (mrx : ModeReg) (value : U16)

theorem written_sendToRanks :
    (sendToRanks sbi cmd mrx value).filterMap (Op.written .directCmd) =
      commandWord cmd 0 mrx value ::
        if 1 < sbi.chipNum then [commandWord cmd 1 mrx value] else [] := by
  unfold sendToRanks
  split_ifs
  · rfl
  · rfl

theorem not_modifies_sendToRanks :
    ∀ op ∈ sendToRanks sbi cmd mrx value, ¬op.Modifies .directCmd := by
  unfold sendToRanks
  split_ifs
  · exact List.forall_mem_cons.2 ⟨id, List.forall_mem_singleton.2 id⟩
  · exact List.forall_mem_singleton.2 id

/-- The words of `SendDirectCommand` that set a mode register of a rank. -/
def sent (rank : ℕ) (mrx : ModeReg) (ops : List RegOp) : List U16 :=
  (ops.filterMap (Op.written .directCmd)).filterMap (mrsValue rank mrx)

/-- A rank gets a command once, whether it is the only one or not. -/
theorem sent_mrs (hrank : sbi.Present rank) (mrx' : ModeReg) :
    sent rank mrx' (sendToRanks sbi .mrs mrx value) = if mrx = mrx' then [value] else [] := by
  obtain ⟨h0, h1⟩ := @mrsValue_commandWord .mrs mrx value rank mrx'
  rw [sent, written_sendToRanks, List.filterMap_cons, h0]
  rcases hrank with rfl | ⟨rfl, hchip⟩
  · have hnone : (if 1 < sbi.chipNum then [commandWord .mrs 1 mrx value] else []).filterMap
        (mrsValue 0 mrx') = [] := by
      split_ifs
      · simp only [List.filterMap_cons, h1, Nat.one_ne_zero, false_and, if_false,
          List.filterMap_nil]
      · rfl
    rw [hnone]
    by_cases hmrx : mrx = mrx'
    · simp only [true_and, if_pos hmrx]
    · simp only [true_and, if_neg hmrx]
  · rw [if_pos hchip, List.filterMap_cons, h1]
    by_cases hmrx : mrx = mrx'
    · simp only [Nat.zero_ne_one, false_and, if_false, true_and, if_pos hmrx, List.filterMap_nil]
    · simp only [Nat.zero_ne_one, false_and, if_false, true_and, if_neg hmrx, List.filterMap_nil]

theorem sent_of_ne (hcmd : cmd ≠ .mrs) (mrx' : ModeReg) :
    sent rank mrx' (sendToRanks sbi cmd mrx value) = [] := by
  obtain ⟨h0, h1⟩ := @mrsValue_commandWord cmd mrx value rank mrx'
  rw [sent, written_sendToRanks]
  refine List.filterMap_eq_nil_iff.2 fun word hword => ?_
  rcases List.mem_cons.1 hword with rfl | hword
  · rw [h0, if_neg fun h => hcmd h.2.1]
  · split_ifs at hword
    · rw [List.mem_singleton.1 hword, h1, if_neg fun h => hcmd h.2.1]
    · cases hword

theorem modeRegs_sendToRanks (mrx' : ModeReg) :
    modeRegs (m.exec rd (sendToRanks sbi cmd mrx value)).log rank mrx' =
      (sent rank mrx' (sendToRanks sbi cmd mrx value)).getLast?.or (modeRegs m.log rank mrx') := by
  simp only [modeRegs, sent, Machine.exec, writes_exec (not_modifies_sendToRanks cmd mrx value),
    List.filterMap_append, List.getLast?_append]

theorem modeRegs_mrs (hrank : sbi.Present rank) :
    modeRegs (m.exec rd (sendToRanks sbi .mrs mrx value)).log rank =
      Function.update (modeRegs m.log rank) mrx (some value) := by
  funext mrx'
  rw [modeRegs_sendToRanks, sent_mrs mrx value hrank]
  by_cases hmrx : mrx = mrx'
  · rw [if_pos hmrx, ← hmrx, Function.update_self]
    rfl
  · rw [if_neg hmrx, Function.update_of_ne (Ne.symm hmrx)]
    rfl

theorem Quiet.sendPlain (hcmd : cmd ≠ .mrs) : Quiet m (m.exec rd (sendPlain sbi cmd)) where
  globals_eq := rfl
  prefix_log := prefix_exec
  modeRegs_eq := by
    funext rank mrx'
    rw [Ddr.sendPlain, modeRegs_sendToRanks, sent_of_ne cmd _ _ hcmd]
    rfl

end Commands

end Gec6818Bl1.Ddr
