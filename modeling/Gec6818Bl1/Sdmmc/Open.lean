import Gec6818Bl1.Lib.RegBus
import Gec6818Bl1.Sdmmc.AppCommand
import Gec6818Bl1.Sdmmc.Clock

/-!
# Opening a card

`NX_SDMMC_Open` with all it calls: the clock is slowed down, the card is reset and identified, gets
its address and is selected, and the clock is raised. One `cmd` serves all the commands, so that a
response not written stays; the port's three devices are a `SdPort`.

* **The clock.** `setClock` and `init` are the functions of `Clock` on a bus: on the bus that only
  remembers they leave its histories (`setClock_traceBus`, `init_traceBus`).
* **No hang.** On a port that never reports a locked command or a starved transfer, and with a PLL
  fast enough to be divided, every call returns (`open_terminates`).
-/

namespace Gec6818Bl1.Sdmmc

open Polling RegTrace AppCommand Gec6818Bl1.Sdmmc.Clock

/-! ## The port -/

/-- The registers that a port's controller does not have: `CLKENB` and `CLKGEN[0]` of its clock
generator, and `REGRST` of the reset controller. -/
inductive ExtReg where
  | clkenb
  | clkgen0
  | regrst (i : ℕ)
deriving DecidableEq

/-- `pgSDXCReg`, `pgSDClkGenReg` and the reset controller, of one port. -/
structure SdPort (σ : Type) where
  sdxc : SdxcBus σ
  ext : Bus ExtReg U32 σ

/-- Where a register of the clock code is. -/
def place : ClkReg → ℕ ⊕ ExtReg
  | .clkenb => .inr .clkenb
  | .clkgen0 => .inr .clkgen0
  | .regrst i => .inr (.regrst i)
  | .ctrl => .inl Reg.ctrl
  | .pwren => .inl 0x004
  | .clkdiv => .inl 0x008
  | .clksrc => .inl 0x00C
  | .clkena => .inl 0x010
  | .tmout => .inl 0x014
  | .ctype => .inl Reg.ctype
  | .blksiz => .inl 0x01C
  | .intmask => .inl 0x024
  | .cmd => .inl Reg.cmd
  | .rintsts => .inl Reg.rintsts
  | .fifoth => .inl 0x04C
  | .clkctrl => .inl 0x114

variable {σ : Type}

/-- The registers of the clock code, wherever they are. -/
def SdPort.clk (port : SdPort σ) : Bus ClkReg U32 σ where
  read r dev :=
    match place r with
    | .inl off => port.sdxc.read off dev
    | .inr e => port.ext.read e dev
  write r v dev :=
    match place r with
    | .inl off => port.sdxc.write off v dev
    | .inr e => port.ext.write e v dev

/-! ## The clock -/

namespace Clk

section Bus

variable (clk : Bus ClkReg U32 σ) (mode : OpMode) (fuel : ℕ) (srcFreq : U32)

def updateClockBody (dev : σ) : σ ⊕ Bool × σ :=
  let dev := clk.write .cmd (bit CmdFlag.startCmd ||| bit 21 ||| bit CmdFlag.stopAbort) dev
  let (taken, dev) := pollReg clk .cmd (!·.getLsbD CmdFlag.startCmd) (sdmmcTimeout + 1) dev
  if !taken then .inr (false, dev) else
  let (rintsts, dev) := clk.read .rintsts dev
  if rintsts.getLsbD Rintsts.hle then .inl (clk.write .rintsts (bit Rintsts.hle) dev)
  else .inr (true, dev)

/-- `NX_SDMMC_SetClock`, from the second step on. -/
def setClock (enb : Bool) (nFreq : U32) (dev : σ) : Option (Bool × σ) := do
  let dev := perform clk
    [.modify .clkena (· &&& ~~~clkenaClkenb), .modify .clkena (· ||| clkenaLowpwr),
      .write .clkenb clkenbMode] dev
  let (ret, info) ← getClkParam mode fuel srcFreq ⟨clksrcSdmmc, nFreq, 0, 0⟩
  let dev := if ret then perform clk
      [.modify .clkgen0 (clkGenWord info.toClkInfo), .write .clkdiv (info.nClkDiv >>> 1)] dev
    else dev
  let dev := perform clk
    [.modify .clkenb (· ||| bit 2), .modify .clkena (· &&& ~~~clkenaLowpwr)] dev
  let (updated, dev) ← run (updateClockBody clk) fuel dev
  if !updated then return (false, dev)
  if !enb then return (true, dev)
  run (updateClockBody clk) fuel (perform clk [.modify .clkena (· ||| clkenaClkenb)] dev)

/-- `NX_SDMMC_Init`. -/
def init (sdPort : Fin 3) (dev : σ) : Option σ := do
  let (_, info) ← getClkParam mode fuel srcFreq ⟨clksrcSdmmc, 25000000, 0, 0⟩
  let dev := perform clk
    [.write .clkenb clkenbMode, .modify .clkgen0 (clkGenWord info.toClkInfo),
      .modify .clkenb (· ||| bit 2), resetCon (sdResetNum sdPort) true,
      resetCon (sdResetNum sdPort) false, .write .pwren 0, .write .clkena clkenaLowpwr,
      .write .clkctrl (2#32 <<< 16), .write .clksrc 0, .write .clkdiv (info.nClkGenDiv >>> 1),
      .modify .ctrl (· &&& ~~~(bit 5 ||| bit 6)), .write .ctrl ctrlReset] dev
  let (_, dev) ← waitReg clk .ctrl (· &&& ctrlReset == 0) fuel dev
  return perform clk
    [.write .pwren 1, .write .tmout (0xFFFFFF#32 <<< 8 ||| 0x64#32), .write .ctype 0,
      .write .blksiz blockLength, .write .fifoth (7#32 <<< 16 ||| 8#32), .write .intmask 0,
      .write .rintsts 0xFFFFFFFF] dev

/-- `NX_SDMMC_Terminate`. -/
def terminate (sdPort : Fin 3) (dev : σ) : Option σ := do
  let dev := perform clk [.write .rintsts 0xFFFFFFFF, .write .ctrl ctrlReset] dev
  let (_, dev) ← waitReg clk .ctrl (· &&& ctrlReset == 0) fuel dev
  return perform clk [.write .clkenb 0, resetCon (sdResetNum sdPort) true] dev

end Bus

variable {rd : Readings} {mode : OpMode} {fuel : ℕ} {srcFreq : U32}

theorem updateClockBody_traceBus (log : History) :
    updateClockBody (traceBus rd) log = Clock.updateClockBody rd log := by
  have hpoll : ∀ log : History, pollReg (traceBus rd) .cmd (!·.getLsbD CmdFlag.startCmd)
      (sdmmcTimeout + 1) log = poll rd (fun k => [(.cmd, log.length + k)])
        (·.all (!·.getLsbD CmdFlag.startCmd)) (sdmmcTimeout + 1) 0 log :=
    fun log => pollReg_traceBus (sdmmcTimeout + 1) 0 rfl
  simp only [updateClockBody, Clock.updateClockBody, hpoll]
  rfl

/-- **The same clock code.** On the bus that only remembers, it leaves the history. -/
theorem setClock_traceBus (enb : Bool) (nFreq : U32) (log : History) :
    setClock (traceBus rd) mode fuel srcFreq enb nFreq log =
      Clock.setClock rd mode fuel srcFreq enb nFreq log := by
  have hbody : updateClockBody (traceBus rd) = Clock.updateClockBody rd :=
    funext updateClockBody_traceBus
  simp only [setClock, Clock.setClock, perform_traceBus, hbody]

theorem init_traceBus (sdPort : Fin 3) (log : History) :
    init (traceBus rd) mode fuel srcFreq sdPort log =
      Clock.init rd mode fuel srcFreq sdPort log := by
  simp only [init, Clock.init, perform_traceBus, waitReg_traceBus]

end Clk

/-! ## The commands -/

def goIdleState : U32 := 0
def sendOpCond : U32 := 1 ||| 3 <<< 8
def allSendCid : U32 := 2 ||| 2 <<< 8
def setRelativeAddr : U32 := 3 ||| rspIdxR1 <<< 8
def sendRelativeAddr : U32 := 3 ||| 6 <<< 8
def selectCardIdx : U32 := 7 ||| rspIdxR1b <<< 8
def sendIfCond : U32 := 8 ||| 7 <<< 8
def setBlocklen : U32 := 16 ||| rspIdxR1 <<< 8
def sdSendOpCond : U32 := 41 ||| 3 <<< 8 ||| appCmd <<< 16
def setClrCardDetect : U32 := 42 ||| rspIdxR1 <<< 8 ||| appCmd <<< 16

def goIdleFlag : U32 := bit CmdFlag.startCmd ||| bit 15 ||| bit CmdFlag.stopAbort

/-- Without `CHKRSPCRC`. -/
def opCondFlag : U32 :=
  bit CmdFlag.startCmd ||| bit CmdFlag.waitPrvDat ||| bit CmdFlag.shortRsp

def longRspFlag : U32 :=
  bit CmdFlag.startCmd ||| bit CmdFlag.waitPrvDat ||| bit CmdFlag.chkRspCrc |||
    (bit CmdFlag.shortRsp ||| bit CmdFlag.longRsp)

/-- `NX_SDMMC_TIMEOUT_IDENTIFY`. -/
def timeoutIdentify : ℕ := 0x100000

/-- The `cmd` of a function, filled in for its next command. -/
def Command.fill (cmd : Command) (cmdidx arg flag : U32) : Command := { cmd with cmdidx, arg, flag }

/-- `cmd.response[0] & (1UL<<31)`. -/
def Command.poweredUp (cmd : Command) : Bool := (cmd.response 0).getLsbD 31

/-- What a new `cmd` holds is never looked at. -/
def newCommand : Command := ⟨0, 0, 0, 0, fun _ => 0⟩

namespace SdPort

variable (port : SdPort σ) (nxDebug : Bool) (mode : OpMode) (fuel : ℕ) (srcFreq : U32)

/-! ## The first step of `NX_SDMMC_SetClock` -/

/-- `while(timeout--)` on `DATABUSY` and `FSMBUSY`. -/
def awaitIdle : ℕ → σ → σ
  | 0, dev => dev
  | left + 1, dev =>
    let (status, dev) := port.sdxc.read Reg.status dev
    if status.getLsbD Status.dataBusy || status.getLsbD Status.fsmBusy then awaitIdle left dev
    else dev

/-- The wait of a `NX_DEBUG` build, which goes on after its time-out. -/
def confirmIdle (dev : σ) : σ :=
  let (status, dev) := port.sdxc.read Reg.status dev
  if status.getLsbD Status.dataBusy || status.getLsbD Status.fsmBusy then
    -- the two messages
    let dev := (port.sdxc.read Reg.status dev).2
    let dev := (port.sdxc.read Reg.status dev).2
    port.awaitIdle sdmmcTimeout dev
  else dev

/-- `NX_SDMMC_SetClock`. -/
def setClock (enb : Bool) (nFreq : U32) (dev : σ) : Option (Bool × σ) :=
  Clk.setClock port.clk mode fuel srcFreq enb nFreq (if nxDebug then port.confirmIdle dev else dev)

/-! ## Identification -/

/-- `SEND_IF_COND`: `HCS`, or `none` for a card that answers with another pattern. -/
def checkVersion (cmd : Command) (dev : σ) : Option (Option U32 × Command × σ) := do
  let (cmd, dev) ← sendCommandInternal port.sdxc fuel (cmd.fill sendIfCond 0x1AA commandFlag) dev
  if cmd.status = 0 then
    if cmd.response 0 ≠ 0x1AA then return (none, cmd, dev)
    return (some (bit 30), cmd, dev)
  else return (some 0, cmd, dev)

/-- The loop around `SD_SEND_OP_COND`, which looks at the status of its announcement only. -/
def waitSdPowerUp (st : SdxcBootStatus) : ℕ → Command → σ → Option (Bool × Command × σ)
  | timeout, cmd, dev =>
    if cmd.poweredUp then some (true, cmd, dev) else
    match sendAppCommand port.sdxc fuel st cmd dev with
    | none => none
    | some (status, cmd, dev) =>
      if status ≠ 0 then some (false, cmd, dev) else
      match timeout with
      | 0 => some (false, cmd, dev)
      | timeout + 1 => waitSdPowerUp st timeout cmd dev

def powerUpSd (st : SdxcBootStatus) (hcs : U32) (cmd : Command) (dev : σ) :
    Option (Bool × Command × σ) := do
  let (cmd, dev) ← sendCommandInternal port.sdxc fuel
    (cmd.fill sdSendOpCond (hcs ||| bit 29 ||| 0x00FC0000) opCondFlag) dev
  if cmd.status ≠ 0 then return (false, cmd, dev)
  port.waitSdPowerUp fuel st timeoutIdentify cmd dev

/-- The `do`-`while` around `SEND_OP_COND`. -/
def waitMmcPowerUp (st : SdxcBootStatus) : ℕ → Command → σ → Option (Bool × Command × σ)
  | timeout, cmd, dev =>
    match sendCommand port.sdxc fuel st (cmd.fill sendOpCond 0x40FC0000 opCondFlag) dev with
    | none => none
    | some (cmd, dev) =>
      if cmd.status ≠ 0 then some (false, cmd, dev) else
      match timeout with
      | 0 => some (false, cmd, dev)
      | timeout + 1 =>
        if cmd.poweredUp then some (true, cmd, dev) else waitMmcPowerUp st timeout cmd dev

def powerUpMmc (st : SdxcBootStatus) (cmd : Command) (dev : σ) :
    Option (Bool × Command × σ) := do
  let (cmd, dev) ← sendCommand port.sdxc fuel st (cmd.fill goIdleState 0 goIdleFlag) dev
  port.waitMmcPowerUp fuel st timeoutIdentify cmd dev

/-- Voltage validation: what kind of card it is, and whether it has powered up. -/
def powerUp (st : SdxcBootStatus) (hcs : U32) (cmd : Command) (dev : σ) :
    Option (CardType × Bool × Command × σ) := do
  let (cmd, dev) ← sendCommandInternal port.sdxc fuel (cmd.fill appCmd st.rca commandFlag) dev
  if cmd.status = 0 then return (.sdmem, ← port.powerUpSd fuel st hcs cmd dev)
  else return (.mmc, ← port.powerUpMmc fuel st cmd dev)

/-- The `RCA` that the code gives a card of a kind, `0` for one that makes up its own. -/
def givenRca (cardType : CardType) : U32 := if cardType = .sdmem then 0 else 2 <<< 16

/-- The CID is asked for, and the card goes to the stand-by state. -/
def assignRca (cardType : CardType) (card : SdxcCard) (cmd : Command) (dev : σ) :
    Option (Bool × SdxcCard × σ) := do
  let (cmd, dev) ← sendCommand port.sdxc fuel card.toSdxcBootStatus
    (cmd.fill allSendCid 0 longRspFlag) dev
  if cmd.status ≠ 0 then return (false, card, dev)
  let (cmd, dev) ← sendCommand port.sdxc fuel card.toSdxcBootStatus
    (cmd.fill (if cardType = .sdmem then sendRelativeAddr else setRelativeAddr)
      (givenRca cardType) commandFlag) dev
  if cmd.status ≠ 0 then return (false, card, dev)
  let rca := if cardType = .sdmem then cmd.response 0 &&& 0xFFFF0000 else givenRca cardType
  return (true, { card with rca, cardType }, dev)

/-- `NX_SDMMC_IdentifyCard`, and what it made of `*pSDXCBootStatus`. -/
def identifyCard (card : SdxcCard) (dev : σ) : Option (Bool × SdxcCard × σ) := do
  let (set, dev) ← port.setClock nxDebug mode fuel srcFreq true 400000 dev
  if !set then return (false, card, dev)
  let dev := port.sdxc.write Reg.ctype 0 dev
  let card := { card with rca := 0 }
  let (cmd, dev) ← sendCommand port.sdxc fuel card.toSdxcBootStatus
    (newCommand.fill goIdleState 0 goIdleFlag) dev
  let (hcs, cmd, dev) ← port.checkVersion fuel cmd dev
  match hcs with
  | none => return (false, card, dev)
  | some hcs =>
    let (cardType, poweredUp, cmd, dev) ←
      port.powerUp fuel card.toSdxcBootStatus hcs cmd dev
    if !poweredUp then return (false, card, dev)
    port.assignRca fuel cardType { card with bHighCapacity := (cmd.response 0).getLsbD 30 } cmd dev

/-! ## Selection -/

def selectCardCommand (st : SdxcBootStatus) : Command where
  cmdidx := selectCardIdx
  arg := st.rca
  flag := commandFlag

/-- `NX_SDMMC_SelectCard`. -/
def selectCard (st : SdxcBootStatus) (dev : σ) : Option (Bool × σ) :=
  (sendCommand port.sdxc fuel st (selectCardCommand st) dev).map
    fun (cmd, dev) => (cmd.status = 0, dev)

def cardDetectCommand (bEnb : Bool) : Command where
  cmdidx := setClrCardDetect
  arg := if bEnb then 1 else 0
  flag := commandFlag

/-- `NX_SDMMC_SetCardDetectPullUp`. -/
def setCardDetectPullUp (st : SdxcBootStatus) (bEnb : Bool) (dev : σ) : Option (Bool × σ) :=
  (sendAppCommand port.sdxc fuel st (cardDetectCommand bEnb) dev).map
    fun (status, _, dev) => (status = 0, dev)

def blockLengthCommand (blocklength : U32) : Command where
  cmdidx := setBlocklen
  arg := blocklength
  flag := commandFlag

/-- `NX_SDMMC_SetBlockLength`. -/
def setBlockLength (st : SdxcBootStatus) (blocklength : U32) (dev : σ) : Option (Bool × σ) := do
  let (cmd, dev) ← sendCommand port.sdxc fuel st (blockLengthCommand blocklength) dev
  if cmd.status ≠ 0 then return (false, dev)
  return (true, port.sdxc.write 0x01C blocklength dev)

/-- `NX_SDMMC_Open` behind `NX_SDMMC_IdentifyCard`. -/
def setUpCard (card : SdxcCard) (dev : σ) : Option (Bool × σ) := do
  let (set, dev) ← port.setClock nxDebug mode fuel srcFreq true 25000000 dev
  if !set then return (false, dev)
  let (selected, dev) ← port.selectCard fuel card.toSdxcBootStatus dev
  if !selected then return (false, dev)
  let dev ← if card.cardType = .sdmem then
      (port.setCardDetectPullUp fuel card.toSdxcBootStatus false dev).map (·.2)
    else some dev
  let (set, dev) ← port.setBlockLength fuel card.toSdxcBootStatus blockLength dev
  if !set then return (false, dev)
  let (_, dev) ← setBusWidth port.sdxc fuel card 4 dev
  return (true, dev)

/-- `NX_SDMMC_Open`. -/
def sdmmcOpen (card : SdxcCard) (dev : σ) : Option (Bool × SdxcCard × σ) := do
  let (identified, card, dev) ← port.identifyCard nxDebug mode fuel srcFreq card dev
  if !identified then return (false, card, dev)
  let (opened, dev) ← port.setUpCard nxDebug mode fuel srcFreq card dev
  return (opened, card, dev)

/-- `NX_SDMMC_Close`. -/
def sdmmcClose (dev : σ) : Option σ :=
  (port.setClock nxDebug mode fuel srcFreq false 400000 dev).map (·.2)

/-! ## No hang -/

/-- The controller never reports a locked command or a starved transfer. -/
def Unlocked (port : SdPort σ) : Prop :=
  ∀ dev, (port.sdxc.read Reg.rintsts dev).1.getLsbD Rintsts.hle = false ∧
    (port.sdxc.read Reg.rintsts dev).1.getLsbD Rintsts.hto = false

variable {port : SdPort σ} {nxDebug : Bool} {mode : OpMode} {fuel : ℕ} {srcFreq : U32}

theorem Unlocked.betweenPolls (h : Unlocked port) (flag : U32) (dev : σ) :
    Returns (betweenPolls port.sdxc flag fuel dev) := by
  have hhto := Bool.eq_false_iff.1 (h dev).2
  unfold AppCommand.betweenPolls
  dsimp only
  rw [if_neg hhto]
  exact (returns_some _).ite (returns_some _)

theorem Unlocked.waitCommandDone (h : Unlocked port) (flag : U32) (left : ℕ) (dev : σ) :
    Returns (waitCommandDone port.sdxc fuel flag left dev) := by
  induction left generalizing dev with
  | zero =>
    rw [waitCommandDone_zero]
    exact (returns_some _).ite (returns_some _)
  | succ left ih =>
    rw [waitCommandDone_succ]
    exact (returns_some _).ite ((h.betweenPolls flag _).bind ih)

/-- An exchange returns: no command is written twice. -/
theorem Unlocked.sendCommandInternal (h : Unlocked port) (hfuel : 0 < fuel) (pCommand : Command)
    (dev : σ) : Returns (sendCommandInternal port.sdxc fuel pCommand dev) := by
  have hissue (s : ℕ × σ) : ∃ r, issueCommand port.sdxc pCommand s = .inr r := by
    obtain ⟨left, dev⟩ := s
    rw [issueCommand_eq]
    rcases waitStart port.sdxc left (writeCommand port.sdxc pCommand dev) with ⟨_ | l, dev₁⟩
    · exact ⟨_, rfl⟩
    · exact ⟨_, if_neg (Bool.eq_false_iff.1 (h dev₁).1)⟩
  rw [sendCommandInternal_eq]
  refine (returns_run hissue hfuel _).bind fun ⟨sent, dev₁⟩ => ?_
  refine (returns_some _).ite ((h.waitCommandDone pCommand.flag _ dev₁).bind fun ⟨done, dev₂⟩ => ?_)
  exact (returns_some _).ite (returns_some _)

theorem Unlocked.sendCommand (h : Unlocked port) (hfuel : 0 < fuel) (st : SdxcBootStatus)
    (pCommand : Command) (dev : σ) : Returns (sendCommand port.sdxc fuel st pCommand dev) := by
  refine (h.sendCommandInternal hfuel pCommand dev).bind fun ⟨cmd, dev₁⟩ => ?_
  refine (returns_some _).ite ?_
  exact (h.sendCommandInternal hfuel (sendStatusCommand st) dev₁).bind fun _ => returns_some _

theorem Unlocked.sendAppCommand (h : Unlocked port) (hfuel : 0 < fuel) (st : SdxcBootStatus)
    (pCommand : Command) (dev : σ) :
    Returns (sendAppCommand port.sdxc fuel st pCommand dev) := by
  refine (h.sendCommandInternal hfuel (appCommand st) dev).bind fun ⟨cmd, dev₁⟩ => ?_
  exact ((h.sendCommand hfuel st pCommand dev₁).bind fun _ => returns_some _).ite (returns_some _)

/-- The clock is set, or a time-out says that it is not. -/
theorem Unlocked.setClock (h : Unlocked port) (nFreq : U32) (hfreq : 400000 ≤ nFreq.toNat)
    (hsrc : 2 * nFreq.toNat ≤ srcFreq.toNat) (hfuel : 64 ≤ fuel) (enb : Bool) (dev : σ) :
    Returns (port.setClock nxDebug mode fuel srcFreq enb nFreq dev) := by
  have hpos : 0 < fuel := Nat.lt_of_lt_of_le (by decide) hfuel
  have hupdate (dev : σ) : ∃ r, Clk.updateClockBody port.clk dev = .inr r := by
    unfold Clk.updateClockBody
    dsimp only
    rcases pollReg port.clk .cmd (!·.getLsbD CmdFlag.startCmd) (sdmmcTimeout + 1)
      (port.clk.write .cmd _ dev) with ⟨_ | _, dev₁⟩
    · exact ⟨_, rfl⟩
    · exact ⟨_, if_neg (Bool.eq_false_iff.1 (h dev₁).1)⟩
  obtain ⟨info, hinfo, -⟩ := getClkParam_eq mode
    (⟨hfreq, hsrc⟩ : Requested srcFreq ⟨clksrcSdmmc, nFreq, 0, 0⟩) hfuel
  unfold SdPort.setClock Clk.setClock
  rw [hinfo]
  refine (returns_run hupdate hpos _).bind fun ⟨updated, dev₁⟩ => ?_
  exact (returns_some _).ite ((returns_some _).ite (returns_run hupdate hpos _))

theorem Unlocked.checkVersion (h : Unlocked port) (hfuel : 0 < fuel) (cmd : Command) (dev : σ) :
    Returns (port.checkVersion fuel cmd dev) := by
  refine (h.sendCommandInternal hfuel _ dev).bind fun ⟨cmd, dev₁⟩ => ?_
  exact ((returns_some _).ite (returns_some _)).ite (returns_some _)

/-- The loop of an SD card, by induction on what is left of its time-out. -/
theorem Unlocked.waitSdPowerUp (h : Unlocked port) (hfuel : 0 < fuel) (st : SdxcBootStatus)
    (timeout : ℕ) (cmd : Command) (dev : σ) :
    Returns (port.waitSdPowerUp fuel st timeout cmd dev) := by
  induction timeout generalizing cmd dev with
  | zero =>
    obtain ⟨⟨status, cmd₁, dev₁⟩, hsend⟩ := h.sendAppCommand hfuel st cmd dev
    unfold SdPort.waitSdPowerUp
    rw [hsend]
    exact (returns_some _).ite ((returns_some _).ite (returns_some _))
  | succ timeout ih =>
    obtain ⟨⟨status, cmd₁, dev₁⟩, hsend⟩ := h.sendAppCommand hfuel st cmd dev
    unfold SdPort.waitSdPowerUp
    rw [hsend]
    exact (returns_some _).ite ((returns_some _).ite (ih cmd₁ dev₁))

theorem Unlocked.powerUpSd (h : Unlocked port) (hfuel : 0 < fuel) (st : SdxcBootStatus) (hcs : U32)
    (cmd : Command) (dev : σ) : Returns (port.powerUpSd fuel st hcs cmd dev) := by
  refine (h.sendCommandInternal hfuel _ dev).bind fun ⟨cmd₁, dev₁⟩ => ?_
  exact (returns_some _).ite (h.waitSdPowerUp hfuel st _ cmd₁ dev₁)

/-- The loop of a MultiMediaCard, likewise. -/
theorem Unlocked.waitMmcPowerUp (h : Unlocked port) (hfuel : 0 < fuel) (st : SdxcBootStatus)
    (timeout : ℕ) (cmd : Command) (dev : σ) :
    Returns (port.waitMmcPowerUp fuel st timeout cmd dev) := by
  induction timeout generalizing cmd dev with
  | zero =>
    obtain ⟨⟨cmd₁, dev₁⟩, hsend⟩ :=
      h.sendCommand hfuel st (cmd.fill sendOpCond 0x40FC0000 opCondFlag) dev
    unfold SdPort.waitMmcPowerUp
    rw [hsend]
    exact (returns_some _).ite (returns_some _)
  | succ timeout ih =>
    obtain ⟨⟨cmd₁, dev₁⟩, hsend⟩ :=
      h.sendCommand hfuel st (cmd.fill sendOpCond 0x40FC0000 opCondFlag) dev
    unfold SdPort.waitMmcPowerUp
    rw [hsend]
    exact (returns_some _).ite ((returns_some _).ite (ih cmd₁ dev₁))

theorem Unlocked.powerUpMmc (h : Unlocked port) (hfuel : 0 < fuel) (st : SdxcBootStatus)
    (cmd : Command) (dev : σ) : Returns (port.powerUpMmc fuel st cmd dev) :=
  (h.sendCommand hfuel st _ dev).bind fun ⟨cmd₁, dev₁⟩ => h.waitMmcPowerUp hfuel st _ cmd₁ dev₁

theorem Unlocked.powerUp (h : Unlocked port) (hfuel : 0 < fuel) (st : SdxcBootStatus) (hcs : U32)
    (cmd : Command) (dev : σ) : Returns (port.powerUp fuel st hcs cmd dev) := by
  refine (h.sendCommandInternal hfuel _ dev).bind fun ⟨cmd₁, dev₁⟩ => ?_
  exact ((h.powerUpSd hfuel st hcs cmd₁ dev₁).bind fun _ => returns_some _).ite
    ((h.powerUpMmc hfuel st cmd₁ dev₁).bind fun _ => returns_some _)

theorem Unlocked.assignRca (h : Unlocked port) (hfuel : 0 < fuel) (cardType : CardType)
    (card : SdxcCard) (cmd : Command) (dev : σ) :
    Returns (port.assignRca fuel cardType card cmd dev) := by
  refine (h.sendCommand hfuel _ _ dev).bind fun ⟨cmd₁, dev₁⟩ => (returns_some _).ite ?_
  exact (h.sendCommand hfuel _ _ dev₁).bind fun _ => (returns_some _).ite (returns_some _)

theorem Unlocked.identifyCard (h : Unlocked port) (hsrc : 800000 ≤ srcFreq.toNat)
    (hfuel : 64 ≤ fuel) (card : SdxcCard) (dev : σ) :
    Returns (port.identifyCard nxDebug mode fuel srcFreq card dev) := by
  have hpos : 0 < fuel := Nat.lt_of_lt_of_le (by decide) hfuel
  refine (h.setClock 400000 (by decide) hsrc hfuel true dev).bind fun ⟨set, dev₁⟩ => ?_
  refine (returns_some _).ite ((h.sendCommand hpos _ _ _).bind fun ⟨cmd₂, dev₂⟩ => ?_)
  refine (h.checkVersion hpos cmd₂ dev₂).bind fun ⟨hcs, cmd₃, dev₃⟩ => ?_
  cases hcs with
  | none => exact returns_some _
  | some hcs =>
    refine (h.powerUp hpos _ hcs cmd₃ dev₃).bind fun ⟨cardType, poweredUp, cmd₄, dev₄⟩ => ?_
    exact (returns_some _).ite (h.assignRca hpos cardType _ cmd₄ dev₄)

theorem Unlocked.setUpCard (h : Unlocked port) (hsrc : 50000000 ≤ srcFreq.toNat)
    (hfuel : 64 ≤ fuel) (card : SdxcCard) (dev : σ) :
    Returns (port.setUpCard nxDebug mode fuel srcFreq card dev) := by
  have hpos : 0 < fuel := Nat.lt_of_lt_of_le (by decide) hfuel
  refine (h.setClock 25000000 (by decide) hsrc hfuel true dev).bind fun ⟨set, dev₁⟩ => ?_
  refine (returns_some _).ite ?_
  refine ((h.sendCommand hpos _ _ dev₁).map _).bind fun ⟨selected, dev₂⟩ => ?_
  refine (returns_some _).ite ?_
  have hdetect : Returns ((port.setCardDetectPullUp fuel card.toSdxcBootStatus false dev₂).map
      (·.2)) := ((h.sendAppCommand hpos _ _ dev₂).map _).map _
  refine Returns.ite_bind hdetect (returns_some dev₂) fun dev₃ => ?_
  refine ((h.sendCommand hpos _ _ dev₃).bind fun ⟨cmd, dev₄⟩ =>
    (returns_some _).ite (returns_some _)).bind fun ⟨set, dev₄⟩ => (returns_some _).ite ?_
  refine Returns.bind ?_ fun _ => returns_some _
  refine Returns.bind ?_ fun _ => (returns_some _).ite (returns_some _)
  exact ((h.sendAppCommand hpos _ _ dev₄).map _).ite ((h.sendCommand hpos _ _ dev₄).map _)

/-- **No hang.** On every port that never reports a locked command or a starved transfer, and with
a PLL that can be divided down, opening a card returns: there may be no card, or a dead one, and
every register but `RINTSTS` may read as it likes. -/
theorem open_terminates (h : Unlocked port) (hsrc : 50000000 ≤ srcFreq.toNat) (hfuel : 64 ≤ fuel)
    (card : SdxcCard) (dev : σ) :
    Returns (port.sdmmcOpen nxDebug mode fuel srcFreq card dev) := by
  refine (h.identifyCard (Nat.le_trans (by decide) hsrc) hfuel card dev).bind
    fun ⟨identified, card₁, dev₁⟩ => ?_
  exact (returns_some _).ite ((h.setUpCard hsrc hfuel card₁ dev₁).bind fun _ => returns_some _)

/-- Every bit is stuck at `1`, but the two of `RINTSTS`. -/
def stuckPort : SdPort Unit where
  sdxc := ⟨fun _ _ => (~~~(bit Rintsts.hle ||| bit Rintsts.hto), ()), fun _ _ _ => ()⟩
  ext := ⟨fun _ _ => (0xFFFFFFFF, ()), fun _ _ _ => ()⟩

theorem open_terminates_stuck :
    Returns (stuckPort.sdmmcOpen false .aarch32 64 50000000 ⟨⟨0, false⟩, .unknown⟩ ()) := by
  have hread : (stuckPort.sdxc.read Reg.rintsts ()).1.getLsbD Rintsts.hle = false ∧
      (stuckPort.sdxc.read Reg.rintsts ()).1.getLsbD Rintsts.hto = false := by decide
  have hunlocked : Unlocked stuckPort := fun _ => hread
  exact open_terminates hunlocked (Nat.le_refl _) (Nat.le_refl 64) _ ()

end SdPort

end Gec6818Bl1.Sdmmc
