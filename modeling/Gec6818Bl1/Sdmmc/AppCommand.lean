import Gec6818Bl1.Sdmmc.Driver

/-!
# Application commands

`NX_SDMMC_SendAppCommand` announces an application command with `CMD55` and sends it, and returns
the status of the announcement. What became of the command itself is in `pCommand->status`, where
`NX_SDMMC_SetBusWidth` does not look: it returns success, and tells the controller of the new
width, if the card was told that an application command follows.

The readings of an exchange that ends well are `Answered`: the controller takes the command, reports
it done and no error of the response, and the card gets ready, each before its time-out.

* An exchange that returns has the status `0` exactly if it was answered (`answered_iff`).
* `noError_iff`: a status of no error stands for both exchanges exactly if the application
  command is answered or `CMD55` is not.
* `ctypeFollows_iff`: `CTYPE` follows the card in the same cases, and always for a MultiMediaCard,
  whose `SWITCH` is one command.
-/

namespace Gec6818Bl1

namespace Sdmmc.AppCommand

open Polling

def Reg.ctype : ℕ := 0x018

def appCmd : U32 := 55 ||| rspIdxR1 <<< 8
def setBusWidthCmd : U32 := 6 ||| rspIdxR1 <<< 8 ||| appCmd <<< 16
def switchFunc : U32 := 6 ||| rspIdxR1b <<< 8

/-- `NX_SDMMC_CARDTYPE`. -/
inductive CardType where
  | mmc
  | sdmem
  | sdio
  | unknown
  deriving DecidableEq, Repr

/-- What `NX_SDMMC_Open` found out about the card, its type too. -/
structure SdxcCard extends SdxcBootStatus where
  cardType : CardType

section Model

variable {σ : Type*} (bus : SdxcBus σ)

/-- The flags of the commands here. -/
def commandFlag : U32 :=
  bit CmdFlag.startCmd ||| bit CmdFlag.waitPrvDat ||| bit CmdFlag.chkRspCrc ||| bit CmdFlag.shortRsp

def appCommand (st : SdxcBootStatus) : Command where
  cmdidx := appCmd
  arg := st.rca
  flag := commandFlag

/-- `NX_SDMMC_SendAppCommand`: the status it returns, and the command. -/
def sendAppCommand (fuel : ℕ) (st : SdxcBootStatus) (pCommand : Command) (dev : σ) :
    Option (U32 × Command × σ) := do
  let (cmd, dev) ← sendCommandInternal bus fuel (appCommand st) dev
  if cmd.status = 0 then
    let (pCommand, dev) ← sendCommand bus fuel st pCommand dev
    return (cmd.status, pCommand, dev)
  else return (cmd.status, pCommand, dev)

def sdBusWidth (buswidth : U32) : Command where
  cmdidx := setBusWidthCmd
  arg := buswidth >>> 1
  flag := commandFlag

/-- `ExtCSD[183]`: `BUS_WIDTH`. -/
def mmcBusWidth (buswidth : U32) : Command where
  cmdidx := switchFunc
  arg := 3 <<< 24 ||| 183 <<< 16 ||| (buswidth >>> 2) <<< 8
  flag := commandFlag

/-- The command that `NX_SDMMC_SetBusWidth` sends, and its status. -/
def sendBusWidth (fuel : ℕ) (card : SdxcCard) (buswidth : U32) (dev : σ) : Option (U32 × σ) :=
  if card.cardType = .sdmem then
    (sendAppCommand bus fuel card.toSdxcBootStatus (sdBusWidth buswidth) dev).map
      fun (status, _, dev) => (status, dev)
  else
    (sendCommand bus fuel card.toSdxcBootStatus (mmcBusWidth buswidth) dev).map
      fun (cmd, dev) => (cmd.status, dev)

/-- `NX_SDMMC_SetBusWidth`. -/
def setBusWidth (fuel : ℕ) (card : SdxcCard) (buswidth : U32) (dev : σ) : Option (Bool × σ) := do
  let (status, dev) ← sendBusWidth bus fuel card buswidth dev
  if status ≠ 0 then return (false, dev)
  return (true, bus.write Reg.ctype (buswidth >>> 2) dev)

end Model

/-! ## The readings of an exchange -/

section Readings

variable {σ : Type*} (bus : SdxcBus σ)

/-- The three writes of a command. -/
def writeCommand (pCommand : Command) (dev : σ) : σ :=
  let dev := bus.write Reg.rintsts (bit Rintsts.hle) dev
  let dev := bus.write Reg.cmdarg pCommand.arg dev
  bus.write Reg.cmd ((pCommand.cmdidx &&& 0xFF) ||| pCommand.flag ||| bit CmdFlag.useHoldReg) dev

/-- The controller takes the command: `STARTCMD` falls within the ticks that are left, and no `HLE`
is seen then. After an `HLE` the command is written again. -/
inductive Taken (pCommand : Command) : ℕ → σ → σ → Prop
  | accepted {left k : ℕ} {dev dev₁ : σ}
      (hstart : Polls bus Reg.cmd (fun v => v.getLsbD CmdFlag.startCmd = false) k
        (writeCommand bus pCommand dev) dev₁)
      (hhle : (bus.read Reg.rintsts dev₁).1.getLsbD Rintsts.hle = false) :
      Taken pCommand (k + left) dev (bus.read Reg.rintsts dev₁).2
  | locked {left k : ℕ} {dev dev₁ dev' : σ}
      (hstart : Polls bus Reg.cmd (fun v => v.getLsbD CmdFlag.startCmd = false) k
        (writeCommand bus pCommand dev) dev₁)
      (hhle : (bus.read Reg.rintsts dev₁).1.getLsbD Rintsts.hle = true)
      (h : Taken pCommand left (bus.read Reg.rintsts dev₁).2 dev') :
      Taken pCommand (k + left) dev dev'

/-- Between two readings a command that stops a transfer empties the FIFO on `HTO`. -/
def betweenPolls (flag : U32) (fuel : ℕ) (dev : σ) : Option σ :=
  if flag.getLsbD CmdFlag.stopAbort then
    let (rintsts, dev) := bus.read Reg.rintsts dev
    if rintsts.getLsbD Rintsts.hto then run (drainFifo bus) fuel dev else some dev
  else some dev

/-- `CD` is seen before the time-out. -/
inductive Done (flag : U32) : ℕ → σ → σ → Prop
  | done {left : ℕ} {dev : σ} (hcd : (bus.read Reg.rintsts dev).1.getLsbD Rintsts.cd = true) :
      Done flag left dev (bus.read Reg.rintsts dev).2
  | wait {left : ℕ} {dev dev₁ dev' : σ}
      (hcd : (bus.read Reg.rintsts dev).1.getLsbD Rintsts.cd = false)
      (hbetween : ∃ fuel, betweenPolls bus flag fuel (bus.read Reg.rintsts dev).2 = some dev₁)
      (h : Done flag left dev₁ dev') : Done flag (left + 1) dev dev'

/-- No error of the response is seen, or none any more where `RINTSTS` is read again for it. -/
def NoResponseError (dev dev' : σ) : Prop :=
  let r := bus.read Reg.rintsts dev
  let r₁ := bus.read Reg.rintsts r.2
  let r₂ := bus.read Reg.rintsts r₁.2
  let r₃ := bus.read Reg.rintsts r₂.2
  if r.1.getLsbD Rintsts.rcrc || r.1.getLsbD Rintsts.re || r.1.getLsbD Rintsts.rto then
    (r₁.1.getLsbD Rintsts.rcrc = false ∧ r₂.1.getLsbD Rintsts.re = false ∧
      r₃.1.getLsbD Rintsts.rto = false) ∧ dev' = r₃.2
  else dev' = r.2

/-- The responses are read, and after an `R1b` the card gets ready before the time-out. -/
def Ready (pCommand : Command) (dev dev' : σ) : Prop :=
  if pCommand.flag.getLsbD CmdFlag.shortRsp then
    let dev := (readResponse bus pCommand dev).2
    if (pCommand.cmdidx >>> 8) &&& 0xFF = rspIdxR1b then
      ∃ k < sdmmcTimeout,
        Polls bus Reg.status (fun v => v.getLsbD Status.dataBusy = false) k dev dev'
    else dev' = dev
  else dev' = dev

/-- An exchange that ends well. -/
def Answered (pCommand : Command) (dev dev' : σ) : Prop :=
  ∃ dev₁ dev₂ dev₃,
    Taken bus pCommand sdmmcTimeout (bus.write Reg.rintsts 0xFFFFFFFF dev) dev₁ ∧
      Done bus pCommand.flag sdmmcTimeout dev₁ dev₂ ∧ NoResponseError bus dev₂ dev₃ ∧
      Ready bus pCommand dev₃ dev'

end Readings

section Exchange

variable {σ : Type*} {bus : SdxcBus σ} {pCommand cmd : Command} {flag : U32} {fuel left l : ℕ}
  {dev dev' dev₁ : σ} {b : Bool}

theorem waitStart_zero : waitStart bus 0 dev =
    if (bus.read Reg.cmd dev).1.getLsbD CmdFlag.startCmd then (none, (bus.read Reg.cmd dev).2)
    else (some 0, (bus.read Reg.cmd dev).2) := rfl

theorem waitStart_succ (left : ℕ) : waitStart bus (left + 1) dev =
    if (bus.read Reg.cmd dev).1.getLsbD CmdFlag.startCmd then
      waitStart bus left (bus.read Reg.cmd dev).2
    else (some (left + 1), (bus.read Reg.cmd dev).2) := rfl

theorem waitDataReady_succ (left : ℕ) : waitDataReady bus (left + 1) dev =
    if (bus.read Reg.status dev).1.getLsbD Status.dataBusy then
      waitDataReady bus left (bus.read Reg.status dev).2
    else (true, (bus.read Reg.status dev).2) := rfl

theorem waitStart_iff : waitStart bus left dev = (some l, dev') ↔ ∃ k, k + l = left ∧
    Polls bus Reg.cmd (fun v => v.getLsbD CmdFlag.startCmd = false) k dev dev' := by
  induction left generalizing dev with
  | zero =>
    rw [exists_polls_iff, waitStart_zero]
    cases hstart : (bus.read Reg.cmd dev).1.getLsbD CmdFlag.startCmd with
    | true => simp
    | false => simp [@eq_comm _ 0, @eq_comm _ dev']
  | succ left ih =>
    rw [exists_polls_iff, waitStart_succ]
    cases hstart : (bus.read Reg.cmd dev).1.getLsbD CmdFlag.startCmd with
    | true =>
      simp only [if_true, ih, Nat.add_right_comm _ 1 l, Nat.add_right_cancel_iff]
      simp
    | false => simp [@eq_comm _ l, @eq_comm _ dev']

theorem waitDataReady_iff : waitDataReady bus left dev = (true, dev') ↔ ∃ k, k < left ∧
    Polls bus Reg.status (fun v => v.getLsbD Status.dataBusy = false) k dev dev' := by
  induction left generalizing dev with
  | zero => simp [waitDataReady]
  | succ left ih =>
    rw [exists_polls_iff, waitDataReady_succ]
    cases hbusy : (bus.read Reg.status dev).1.getLsbD Status.dataBusy with
    | true =>
      simp only [if_true, ih, Nat.add_lt_add_iff_right]
      simp
    | false => simp [@eq_comm _ dev']

theorem not_taken {o : σ} (h : waitStart bus left (writeCommand bus pCommand dev) = (none, o)) :
    ¬ Taken bus pCommand left dev dev' := by
  intro htaken
  cases htaken with
  | accepted hstart _ =>
    rw [waitStart_iff.2 ⟨_, rfl, hstart⟩] at h
    cases h
  | locked hstart _ _ =>
    rw [waitStart_iff.2 ⟨_, rfl, hstart⟩] at h
    cases h

theorem taken_of_start (h : waitStart bus left (writeCommand bus pCommand dev) = (some l, dev₁)) :
    Taken bus pCommand left dev dev' ↔
      if (bus.read Reg.rintsts dev₁).1.getLsbD Rintsts.hle then
        Taken bus pCommand l (bus.read Reg.rintsts dev₁).2 dev'
      else dev' = (bus.read Reg.rintsts dev₁).2 := by
  constructor
  · intro htaken
    cases htaken with
    | accepted hstart hhle =>
      rw [waitStart_iff.2 ⟨_, rfl, hstart⟩] at h
      obtain ⟨-, rfl⟩ := Prod.mk.inj h
      rw [hhle]
      rfl
    | locked hstart hhle hagain =>
      rw [waitStart_iff.2 ⟨_, rfl, hstart⟩] at h
      obtain ⟨hl, rfl⟩ := Prod.mk.inj h
      obtain rfl := Option.some.inj hl
      rwa [hhle]
  · obtain ⟨k, rfl, hstart⟩ := waitStart_iff.1 h
    intro hrest
    cases hhle : (bus.read Reg.rintsts dev₁).1.getLsbD Rintsts.hle with
    | true =>
      rw [hhle] at hrest
      exact Taken.locked hstart hhle hrest
    | false =>
      rw [hhle] at hrest
      obtain rfl : dev' = _ := hrest
      exact Taken.accepted hstart hhle

theorem issueCommand_eq : issueCommand bus pCommand (left, dev) =
    match waitStart bus left (writeCommand bus pCommand dev) with
    | (none, dev) => .inr (false, dev)
    | (some left, dev) =>
      if (bus.read Reg.rintsts dev).1.getLsbD Rintsts.hle then
        .inl (left, (bus.read Reg.rintsts dev).2)
      else .inr (true, (bus.read Reg.rintsts dev).2) := rfl

theorem taken_iff (h : run (issueCommand bus pCommand) fuel (left, dev) = some (b, dev₁)) :
    Taken bus pCommand left dev dev' ↔ b = true ∧ dev' = dev₁ := by
  induction fuel generalizing left dev with
  | zero => cases h
  | succ fuel ih =>
    have hbody := @issueCommand_eq _ bus pCommand left dev
    rcases hw : waitStart bus left (writeCommand bus pCommand dev) with ⟨_ | l, dev₂⟩
    · rw [hw] at hbody
      rw [run_of_inr hbody] at h
      obtain ⟨rfl, rfl⟩ := Prod.mk.inj (Option.some.inj h)
      simp [not_taken hw]
    · rw [taken_of_start hw]
      rw [hw] at hbody
      dsimp only at hbody
      split_ifs at hbody ⊢ with hhle
      · rw [run_of_inl hbody] at h
        exact ih h
      · rw [run_of_inr hbody] at h
        obtain ⟨rfl, rfl⟩ := Prod.mk.inj (Option.some.inj h)
        simp

theorem betweenPolls_unique {fuel' : ℕ} {dev₂ : σ}
    (h : betweenPolls bus flag fuel dev = some dev₁)
    (h' : betweenPolls bus flag fuel' dev = some dev₂) : dev₁ = dev₂ := by
  unfold betweenPolls at h h'
  dsimp only at h h'
  split_ifs at h h'
  · exact run_unique h h'
  all_goals exact Option.some.inj (h.symm.trans h')

theorem waitCommandDone_zero : waitCommandDone bus fuel flag 0 dev =
    if (bus.read Reg.rintsts dev).1.getLsbD Rintsts.cd then
      some (true, (bus.read Reg.rintsts dev).2)
    else some (false, (bus.read Reg.rintsts dev).2) := rfl

theorem waitCommandDone_succ : waitCommandDone bus fuel flag (left + 1) dev =
    if (bus.read Reg.rintsts dev).1.getLsbD Rintsts.cd then
      some (true, (bus.read Reg.rintsts dev).2)
    else (betweenPolls bus flag fuel (bus.read Reg.rintsts dev).2).bind
      (waitCommandDone bus fuel flag left) := by
  rw [waitCommandDone, betweenPolls]
  dsimp only
  split_ifs <;> rfl

theorem done_iff (h : waitCommandDone bus fuel flag left dev = some (b, dev₁)) :
    Done bus flag left dev dev' ↔ b = true ∧ dev' = dev₁ := by
  induction left generalizing dev with
  | zero =>
    rw [waitCommandDone_zero] at h
    split_ifs at h with hcd
    all_goals obtain ⟨rfl, rfl⟩ := Prod.mk.inj (Option.some.inj h)
    · constructor
      · intro hdone
        cases hdone
        exact ⟨rfl, rfl⟩
      · rintro ⟨-, rfl⟩
        exact Done.done hcd
    · constructor
      · intro hdone
        cases hdone
        contradiction
      · rintro ⟨hb, -⟩
        cases hb
  | succ left ih =>
    rw [waitCommandDone_succ] at h
    cases hcd : (bus.read Reg.rintsts dev).1.getLsbD Rintsts.cd with
    | true =>
      rw [hcd] at h
      obtain ⟨rfl, rfl⟩ := Prod.mk.inj (Option.some.inj h)
      constructor
      · intro hdone
        cases hdone with
        | done _ => exact ⟨rfl, rfl⟩
        | wait hcd' _ _ => cases hcd.symm.trans hcd'
      · rintro ⟨-, rfl⟩
        exact Done.done hcd
    | false =>
      rw [hcd] at h
      obtain ⟨dev₂, hbetween, hrest⟩ := Option.bind_eq_some_iff.1 h
      rw [← ih hrest]
      constructor
      · intro hdone
        cases hdone with
        | done hcd' => cases hcd.symm.trans hcd'
        | wait _ hbetween' hdone' =>
          obtain ⟨_, hbetween'⟩ := hbetween'
          obtain rfl := betweenPolls_unique hbetween hbetween'
          exact hdone'
      · intro hdone
        exact Done.wait hcd ⟨fuel, hbetween⟩ hdone

/-- The status of the three bits. -/
theorem responseStatus_eq_zero_iff (rcrc re rto : Bool) :
    (let status := if rcrc then CmdStatus.resCrcFail else 0
      let status := if re then status ||| CmdStatus.resError else status
      if rto then status ||| CmdStatus.resTout else status) = 0#32 ↔
      rcrc = false ∧ re = false ∧ rto = false := by
  cases rcrc <;> cases re <;> cases rto <;> decide

theorem noResponseError_iff : NoResponseError bus dev dev' ↔
    (responseError bus dev).1 = 0 ∧ dev' = (responseError bus dev).2 := by
  rcases h : bus.read Reg.rintsts dev with ⟨v, d⟩
  rcases h₁ : bus.read Reg.rintsts d with ⟨v₁, d₁⟩
  rcases h₂ : bus.read Reg.rintsts d₁ with ⟨v₂, d₂⟩
  rcases h₃ : bus.read Reg.rintsts d₂ with ⟨v₃, d₃⟩
  simp only [NoResponseError, responseError, h, h₁, h₂, h₃]
  by_cases hbits : (v.getLsbD Rintsts.rcrc || v.getLsbD Rintsts.re || v.getLsbD Rintsts.rto) = true
  · simp only [hbits, if_true]
    exact and_congr_left fun _ => (responseStatus_eq_zero_iff _ _ _).symm
  · simp only [hbits]
    exact (and_iff_right rfl).symm

/-- The end of an exchange whose response was received. -/
def finishCommand (bus : SdxcBus σ) (pCommand : Command) (status : U32) (dev : σ) : Command × σ :=
  if status = 0 ∧ pCommand.flag.getLsbD CmdFlag.shortRsp then
    let (pCommand, dev) := readResponse bus pCommand dev
    if (pCommand.cmdidx >>> 8) &&& 0xFF = rspIdxR1b then
      let (ready, dev) := waitDataReady bus sdmmcTimeout dev
      ({ pCommand with status := if ready then 0 else CmdStatus.dataBusy }, dev)
    else ({ pCommand with status := 0 }, dev)
  else ({ pCommand with status }, dev)

theorem readResponse_cmdidx (h : readResponse bus pCommand dev = (cmd, dev')) :
    cmd.cmdidx = pCommand.cmdidx := by
  unfold readResponse at h
  dsimp only at h
  split_ifs at h
  all_goals
    obtain ⟨rfl, -⟩ := Prod.mk.inj h
    rfl

theorem finishCommand_iff (status : U32) : (finishCommand bus pCommand status dev).1.status = 0 ∧
    dev' = (finishCommand bus pCommand status dev).2 ↔
      status = 0 ∧ Ready bus pCommand dev dev' := by
  by_cases hstatus : status = 0
  · rcases hresp : readResponse bus pCommand dev with ⟨cmd, d⟩
    simp only [finishCommand, Ready, hresp, readResponse_cmdidx hresp]
    by_cases hshort : pCommand.flag.getLsbD CmdFlag.shortRsp = true
    · rw [if_pos ⟨hstatus, hshort⟩, if_pos hshort]
      by_cases hr1b : (pCommand.cmdidx >>> 8) &&& 0xFF = rspIdxR1b
      · rw [if_pos hr1b, if_pos hr1b, ← waitDataReady_iff]
        rcases waitDataReady bus sdmmcTimeout d with ⟨_ | _, d'⟩
        · simp [hstatus, show CmdStatus.dataBusy ≠ 0#32 by decide]
        · simp [hstatus, @eq_comm _ dev']
      · rw [if_neg hr1b, if_neg hr1b]
        simp [hstatus]
    · rw [if_neg fun h => hshort h.2, if_neg hshort]
  · rw [finishCommand, if_neg fun h => hstatus h.1]
    exact ⟨fun h => absurd h.1 hstatus, fun h => absurd h.1 hstatus⟩

theorem sendCommandInternal_eq : sendCommandInternal bus fuel pCommand dev =
    (run (issueCommand bus pCommand) fuel
      (sdmmcTimeout, bus.write Reg.rintsts 0xFFFFFFFF dev)).bind fun (sent, dev) =>
      if !sent then some ({ pCommand with status := CmdStatus.cmdBusy }, dev) else
      (waitCommandDone bus fuel pCommand.flag sdmmcTimeout dev).bind fun (done, dev) =>
        if !done then some ({ pCommand with status := CmdStatus.cmdTout }, dev) else
        some (finishCommand bus pCommand (responseError bus dev).1 (responseError bus dev).2) := by
  unfold sendCommandInternal
  apply Option.bind_congr
  intro ⟨sent, dev⟩ _
  cases sent with
  | false => rfl
  | true =>
    apply Option.bind_congr
    intro ⟨done, dev⟩ _
    cases done with
    | false => rfl
    | true =>
      dsimp only [finishCommand]
      split_ifs <;> rfl

/-- **An exchange**: its status is `0` exactly if it was answered. -/
theorem answered_iff (h : sendCommandInternal bus fuel pCommand dev = some (cmd, dev₁)) :
    Answered bus pCommand dev dev' ↔ cmd.status = 0 ∧ dev' = dev₁ := by
  rw [sendCommandInternal_eq] at h
  obtain ⟨⟨sent, devA⟩, hsent, h⟩ := Option.bind_eq_some_iff.1 h
  have htaken : ∀ d, Taken bus pCommand sdmmcTimeout (bus.write Reg.rintsts 0xFFFFFFFF dev) d ↔
      sent = true ∧ d = devA := fun d => taken_iff hsent
  cases sent with
  | false =>
    obtain ⟨rfl, rfl⟩ := Prod.mk.inj (Option.some.inj h)
    constructor
    · intro ⟨_, _, _, htaken', _⟩
      cases ((htaken _).1 htaken').1
    · intro h
      exact absurd h.1 (show CmdStatus.cmdBusy ≠ 0 by decide)
  | true =>
    obtain ⟨⟨done, devB⟩, hdone, h⟩ := Option.bind_eq_some_iff.1 h
    have hdone' : ∀ d, Done bus pCommand.flag sdmmcTimeout devA d ↔ done = true ∧ d = devB :=
      fun d => done_iff hdone
    cases done with
    | false =>
      obtain ⟨rfl, rfl⟩ := Prod.mk.inj (Option.some.inj h)
      constructor
      · intro ⟨d₁, d₂, _, htaken', hdone'', _⟩
        obtain rfl := ((htaken _).1 htaken').2
        cases ((hdone' _).1 hdone'').1
      · intro h
        exact absurd h.1 (show CmdStatus.cmdTout ≠ 0 by decide)
    | true =>
      have hiff : cmd.status = 0 ∧ dev' = dev₁ ↔
          (responseError bus devB).1 = 0 ∧ Ready bus pCommand (responseError bus devB).2 dev' := by
        rw [← finishCommand_iff, Option.some.inj h]
      rw [hiff]
      constructor
      · intro ⟨d₁, d₂, d₃, htaken', hdone'', herr, hready⟩
        obtain rfl := ((htaken _).1 htaken').2
        obtain rfl := ((hdone' _).1 hdone'').2
        obtain ⟨hzero, rfl⟩ := noResponseError_iff.1 herr
        exact ⟨hzero, hready⟩
      · intro ⟨hzero, hready⟩
        exact ⟨devA, devB, _, (htaken _).2 ⟨rfl, rfl⟩, (hdone' _).2 ⟨rfl, rfl⟩,
          noResponseError_iff.2 ⟨hzero, rfl⟩, hready⟩

end Exchange

/-! ## What an exchange writes to -/

/-- Reads keep `I`, and so do writes to the registers of a command. -/
structure Keeps {σ : Type*} (bus : SdxcBus σ) (I : σ → Prop) : Prop where
  read : ∀ a dev, I dev → I (bus.read a dev).2
  write : ∀ a ∈ [Reg.rintsts, Reg.cmdarg, Reg.cmd], ∀ v dev, I dev → I (bus.write a v dev)

section Frame

variable {σ : Type*} {bus : SdxcBus σ} {I : σ → Prop} {pCommand cmd : Command} {st : SdxcBootStatus}
  {flag : U32} {fuel left : ℕ} {dev dev' : σ}

namespace Keeps

theorem writeCommand (h : Keeps bus I) (hI : I dev) : I (writeCommand bus pCommand dev) :=
  h.write _ (by decide) _ _ (h.write _ (by decide) _ _ (h.write _ (by decide) _ _ hI))

theorem waitStart (h : Keeps bus I) (hI : I dev) : I (waitStart bus left dev).2 := by
  induction left generalizing dev with
  | zero =>
    rw [waitStart_zero]
    split_ifs <;> exact h.read _ _ hI
  | succ left ih =>
    rw [waitStart_succ]
    split_ifs
    · exact ih (h.read _ _ hI)
    · exact h.read _ _ hI

theorem waitDataReady (h : Keeps bus I) (hI : I dev) : I (waitDataReady bus left dev).2 := by
  induction left generalizing dev with
  | zero => exact hI
  | succ left ih =>
    rw [waitDataReady_succ]
    split_ifs
    · exact ih (h.read _ _ hI)
    · exact h.read _ _ hI

theorem issueCommand (h : Keeps bus I) {r : Bool × σ} {s : ℕ × σ} (hI : I s.2)
    (hrun : run (issueCommand bus pCommand) fuel s = some r) : I r.2 := by
  have hbody : ∀ s : ℕ × σ, I s.2 → match Sdmmc.issueCommand bus pCommand s with
      | .inl s' => I s'.2
      | .inr r => I r.2 := by
    intro ⟨left, dev⟩ hI
    have hstart : I (Sdmmc.waitStart bus left (AppCommand.writeCommand bus pCommand dev)).2 :=
      h.waitStart (h.writeCommand hI)
    rw [issueCommand_eq]
    rcases hw : Sdmmc.waitStart bus left (AppCommand.writeCommand bus pCommand dev) with ⟨_ | l, d⟩
    · rw [hw] at hstart
      exact hstart
    · rw [hw] at hstart
      dsimp only
      split_ifs with hhle <;> exact h.read _ _ hstart
  refine run_post (I := fun s => I s.2) (Q := fun r => I r.2) (fun s s' hs hs' => ?_)
    (fun s r hs hr => ?_) hI hrun
  · have hs := hbody s hs
    rwa [hs'] at hs
  · have hs := hbody s hs
    rwa [hr] at hs

theorem betweenPolls (h : Keeps bus I) (hI : I dev)
    (hbetween : betweenPolls bus flag fuel dev = some dev') : I dev' := by
  unfold AppCommand.betweenPolls at hbetween
  dsimp only at hbetween
  split_ifs at hbetween
  · refine run_post (I := I) (Q := I) (fun s s' hs hs' => ?_) (fun s r hs hr => ?_)
      (h.read _ _ hI) hbetween
    · unfold drainFifo at hs'
      dsimp only at hs'
      split_ifs at hs'
      obtain rfl := Sum.inl.inj hs'
      exact h.read _ _ (h.read _ _ hs)
    · unfold drainFifo at hr
      dsimp only at hr
      split_ifs at hr
      obtain rfl := Sum.inr.inj hr
      exact h.read _ _ hs
  · obtain rfl := Option.some.inj hbetween
    exact h.read _ _ hI
  · obtain rfl := Option.some.inj hbetween
    exact hI

theorem waitCommandDone (h : Keeps bus I) {r : Bool × σ} (hI : I dev)
    (hdone : waitCommandDone bus fuel flag left dev = some r) : I r.2 := by
  induction left generalizing dev with
  | zero =>
    rw [waitCommandDone_zero] at hdone
    split_ifs at hdone
    all_goals
      obtain rfl := Option.some.inj hdone
      exact h.read _ _ hI
  | succ left ih =>
    rw [waitCommandDone_succ] at hdone
    split_ifs at hdone
    · obtain rfl := Option.some.inj hdone
      exact h.read _ _ hI
    · obtain ⟨dev₁, hbetween, hrest⟩ := Option.bind_eq_some_iff.1 hdone
      exact ih (h.betweenPolls (h.read _ _ hI) hbetween) hrest

theorem responseError (h : Keeps bus I) (hI : I dev) : I (responseError bus dev).2 := by
  have hfour := h.read Reg.rintsts _ (h.read Reg.rintsts _ (h.read Reg.rintsts _
    (h.read Reg.rintsts _ hI)))
  unfold Sdmmc.responseError
  dsimp only
  split_ifs <;> first | exact hfour | exact h.read _ _ hI

theorem readResponse (h : Keeps bus I) (hI : I dev) : I (readResponse bus pCommand dev).2 := by
  have hfour := h.read (Reg.resp 3) _ (h.read (Reg.resp 2) _ (h.read (Reg.resp 1) _
    (h.read (Reg.resp 0) _ hI)))
  unfold Sdmmc.readResponse
  dsimp only
  split_ifs
  · exact hfour
  · exact h.read _ _ hI

theorem finishCommand (h : Keeps bus I) {status : U32} (hI : I dev) :
    I (finishCommand bus pCommand status dev).2 := by
  have hresp : I (Sdmmc.readResponse bus pCommand dev).2 := h.readResponse hI
  have hready : I (Sdmmc.waitDataReady bus sdmmcTimeout
      (Sdmmc.readResponse bus pCommand dev).2).2 := h.waitDataReady hresp
  rcases hr : Sdmmc.readResponse bus pCommand dev with ⟨cmd, d⟩
  rw [hr] at hresp hready
  rcases hw : Sdmmc.waitDataReady bus sdmmcTimeout d with ⟨ready, d'⟩
  dsimp only at hready
  rw [hw] at hready
  simp only [AppCommand.finishCommand, hr, hw]
  by_cases hshort : status = 0 ∧ pCommand.flag.getLsbD CmdFlag.shortRsp = true
  · rw [if_pos hshort]
    split_ifs
    · exact hready
    · exact hready
    · exact hresp
  · rw [if_neg hshort]
    exact hI

/-- An exchange reads, and writes to `RINTSTS`, `CMDARG` and `CMD`. -/
theorem sendCommandInternal (h : Keeps bus I) {r : Command × σ} (hI : I dev)
    (hsend : sendCommandInternal bus fuel pCommand dev = some r) : I r.2 := by
  rw [sendCommandInternal_eq] at hsend
  obtain ⟨⟨sent, devA⟩, hsent, hsend⟩ := Option.bind_eq_some_iff.1 hsend
  have hA : I devA := h.issueCommand (h.write _ (by decide) _ _ hI) hsent
  cases sent with
  | false =>
    obtain rfl := Option.some.inj hsend
    exact hA
  | true =>
    obtain ⟨⟨done, devB⟩, hdone, hsend⟩ := Option.bind_eq_some_iff.1 hsend
    have hB : I devB := h.waitCommandDone hA hdone
    cases done with
    | false =>
      obtain rfl := Option.some.inj hsend
      exact hB
    | true =>
      obtain rfl := Option.some.inj hsend
      exact h.finishCommand (h.responseError hB)

theorem sendCommand (h : Keeps bus I) {r : Command × σ} (hI : I dev)
    (hsend : sendCommand bus fuel st pCommand dev = some r) : I r.2 := by
  obtain ⟨⟨cmd, devA⟩, hcmd, hsend⟩ := Option.bind_eq_some_iff.1 hsend
  have hA : I devA := h.sendCommandInternal hI hcmd
  dsimp only at hsend
  split_ifs at hsend
  · obtain rfl := Option.some.inj hsend
    exact hA
  · obtain ⟨⟨_, devB⟩, hstatus, hsend⟩ := Option.bind_eq_some_iff.1 hsend
    obtain rfl := Option.some.inj hsend
    have hB := h.sendCommandInternal hA hstatus
    exact hB

theorem sendAppCommand (h : Keeps bus I) {r : U32 × Command × σ} (hI : I dev)
    (hsend : sendAppCommand bus fuel st pCommand dev = some r) : I r.2.2 := by
  obtain ⟨⟨app, devA⟩, happ, hsend⟩ := Option.bind_eq_some_iff.1 hsend
  have hA : I devA := h.sendCommandInternal hI happ
  dsimp only at hsend
  split_ifs at hsend
  · obtain ⟨⟨cmd, devB⟩, hcmd, hsend⟩ := Option.bind_eq_some_iff.1 hsend
    obtain rfl := Option.some.inj hsend
    have hB := h.sendCommand hA hcmd
    exact hB
  · obtain rfl := Option.some.inj hsend
    exact hA

/-- An exchange writes nothing to `CTYPE`. -/
theorem logged (bus : SdxcBus σ) :
    Keeps bus.logged fun s : σ × List (ℕ × U32) => writesTo Reg.ctype s.2 = [] where
  read _ _ h := h
  write a ha v dev h := by
    have hne : ∀ a ∈ [Reg.rintsts, Reg.cmdarg, Reg.cmd], a ≠ Reg.ctype := by decide
    show writesTo Reg.ctype (dev.2 ++ [(a, v)]) = []
    rw [writesTo_append, h, writesTo, List.filter_cons_of_neg (by simpa using hne a ha)]
    rfl

end Keeps

end Frame

/-! ## The two functions -/

section Results

variable {σ : Type*}

/-- `CMD55` and the command after it took place and ended without an error. -/
def BothCompleted (bus : SdxcBus σ) (fuel : ℕ) (st : SdxcBootStatus) (pCommand : Command)
    (dev : σ) : Prop :=
  ∃ app dev₁ cmd dev₂, sendCommandInternal bus fuel (appCommand st) dev = some (app, dev₁) ∧
    app.status = 0 ∧ sendCommandInternal bus fuel pCommand dev₁ = some (cmd, dev₂) ∧
    cmd.status = 0

/-- The readings answer the command, if they answer the `CMD55` before it. -/
def AppAnswered (bus : SdxcBus σ) (st : SdxcBootStatus) (pCommand : Command) (dev : σ) : Prop :=
  ∀ dev₁, Answered bus (appCommand st) dev dev₁ → ∃ dev₂, Answered bus pCommand dev₁ dev₂

/-- The card accepted a new width. -/
def WidthAccepted (bus : SdxcBus σ) (fuel : ℕ) (card : SdxcCard) (buswidth : U32) (dev : σ) :
    Prop :=
  if card.cardType = .sdmem then
    BothCompleted bus fuel card.toSdxcBootStatus (sdBusWidth buswidth) dev
  else ∃ cmd dev₁, sendCommandInternal bus fuel (mmcBusWidth buswidth) dev = some (cmd, dev₁) ∧
    cmd.status = 0

/-- The result, and what is written to `CTYPE`, where a width is `accepted` or not. -/
def CtypeFollows (accepted : Prop) (buswidth : U32) (ok : Bool) (log : List (ℕ × U32)) : Prop :=
  (accepted → ok = true ∧ writesTo Reg.ctype log = [buswidth >>> 2]) ∧
    (¬ accepted → ok = false ∧ writesTo Reg.ctype log = [])

variable {bus : SdxcBus σ} {fuel : ℕ} {st : SdxcBootStatus} {pCommand cmd : Command} {dev dev' : σ}
  {status : U32}

theorem sendCommand_cases (h : sendCommand bus fuel st pCommand dev = some (cmd, dev')) :
    ∃ dev₁, sendCommandInternal bus fuel pCommand dev = some (cmd, dev₁) := by
  obtain ⟨⟨cmd₁, dev₁⟩, hcmd, h⟩ := Option.bind_eq_some_iff.1 h
  dsimp only at h
  split_ifs at h
  · obtain ⟨rfl, -⟩ := Prod.mk.inj (Option.some.inj h)
    exact ⟨dev₁, hcmd⟩
  · obtain ⟨_, -, h⟩ := Option.bind_eq_some_iff.1 h
    obtain ⟨rfl, -⟩ := Prod.mk.inj (Option.some.inj h)
    exact ⟨dev₁, hcmd⟩

/-- What a call returns is the status of `CMD55`; without an error the command was sent too. -/
theorem sendAppCommand_cases
    (h : sendAppCommand bus fuel st pCommand dev = some (status, cmd, dev')) :
    ∃ app dev₁, sendCommandInternal bus fuel (appCommand st) dev = some (app, dev₁) ∧
      app.status = status ∧ (status = 0 →
        ∃ dev₂, sendCommandInternal bus fuel pCommand dev₁ = some (cmd, dev₂)) := by
  obtain ⟨⟨app, dev₁⟩, happ, h⟩ := Option.bind_eq_some_iff.1 h
  dsimp only at h
  split_ifs at h with hstatus
  · obtain ⟨⟨cmd₁, dev₂⟩, hcmd, h⟩ := Option.bind_eq_some_iff.1 h
    obtain ⟨rfl, rfl, rfl⟩ : app.status = status ∧ cmd₁ = cmd ∧ dev₂ = dev' := by
      simpa using h
    exact ⟨app, dev₁, happ, rfl, fun _ => sendCommand_cases hcmd⟩
  · obtain ⟨rfl, -⟩ := Prod.mk.inj (Option.some.inj h)
    exact ⟨app, dev₁, happ, rfl, fun h0 => absurd h0 hstatus⟩

/-- **Application commands**: no error is reported for both exchanges exactly if the command is
answered or its announcement is not. -/
theorem noError_iff (h : sendAppCommand bus fuel st pCommand dev = some (status, cmd, dev')) :
    (status = 0 → BothCompleted bus fuel st pCommand dev) ↔ AppAnswered bus st pCommand dev := by
  obtain ⟨app, dev₁, happ, rfl, hsent⟩ := sendAppCommand_cases h
  have happ' : ∀ d, Answered bus (appCommand st) dev d ↔ app.status = 0 ∧ d = dev₁ :=
    fun d => answered_iff happ
  by_cases hstatus : app.status = 0
  · obtain ⟨dev₂, hcmd⟩ := hsent hstatus
    have hcmd' : ∀ d, Answered bus pCommand dev₁ d ↔ cmd.status = 0 ∧ d = dev₂ :=
      fun d => answered_iff hcmd
    constructor
    · intro hboth d hd
      obtain rfl := ((happ' d).1 hd).2
      obtain ⟨app', d₁, cmd', d₂, happ'', -, hcmd'', hzero⟩ := hboth hstatus
      obtain ⟨-, rfl⟩ := Prod.mk.inj (Option.some.inj (happ.symm.trans happ''))
      obtain ⟨rfl, -⟩ := Prod.mk.inj (Option.some.inj (hcmd.symm.trans hcmd''))
      exact ⟨dev₂, (hcmd' dev₂).2 ⟨hzero, rfl⟩⟩
    · intro hanswered _
      obtain ⟨d, hd⟩ := hanswered dev₁ ((happ' dev₁).2 ⟨hstatus, rfl⟩)
      exact ⟨app, dev₁, cmd, dev₂, happ, hstatus, hcmd, ((hcmd' d).1 hd).1⟩
  · constructor
    · intro _ d hd
      exact absurd ((happ' d).1 hd).1 hstatus
    · intro _ h0
      exact absurd h0 hstatus

variable {card : SdxcCard} {buswidth : U32} {ok : Bool} {log : List (ℕ × U32)}

/-- The status that `NX_SDMMC_SetBusWidth` looks at decides. -/
theorem setBusWidth_cases
    (h : setBusWidth bus.logged fuel card buswidth (dev, []) = some (ok, dev', log)) :
    ∃ status dev₁, sendBusWidth bus.logged fuel card buswidth (dev, []) = some (status, dev₁) ∧
      ok = decide (status = 0) ∧
      log = dev₁.2 ++ if status = 0 then [(Reg.ctype, buswidth >>> 2)] else [] := by
  obtain ⟨⟨status, dev₁⟩, hstatus, h⟩ := Option.bind_eq_some_iff.1 h
  refine ⟨status, dev₁, hstatus, ?_⟩
  dsimp only at h
  by_cases hzero : status = 0
  · rw [if_neg (not_not_intro hzero)] at h
    obtain ⟨rfl, hwrite⟩ := Prod.mk.inj (Option.some.inj h)
    obtain ⟨-, rfl⟩ := Prod.mk.inj hwrite
    rw [if_pos hzero, decide_eq_true hzero]
    exact ⟨rfl, rfl⟩
  · rw [if_pos hzero] at h
    obtain ⟨rfl, rfl⟩ := Prod.mk.inj (Option.some.inj h)
    rw [if_neg hzero, decide_eq_false hzero, List.append_nil]
    exact ⟨rfl, rfl⟩

theorem writesTo_sendBusWidth {dev₁ : σ × List (ℕ × U32)}
    (h : sendBusWidth bus.logged fuel card buswidth (dev, []) = some (status, dev₁)) :
    writesTo Reg.ctype dev₁.2 = [] := by
  unfold sendBusWidth at h
  split_ifs at h
  · obtain ⟨⟨_, _, d⟩, hsend, heq⟩ := Option.map_eq_some_iff.1 h
    obtain ⟨-, rfl⟩ := Prod.mk.inj heq
    have hlog := (Keeps.logged bus).sendAppCommand rfl hsend
    exact hlog
  · obtain ⟨⟨_, d⟩, hsend, heq⟩ := Option.map_eq_some_iff.1 h
    obtain ⟨-, rfl⟩ := Prod.mk.inj heq
    have hlog := (Keeps.logged bus).sendCommand rfl hsend
    exact hlog

/-- The width was accepted if the status says so, and for an application command if it tells the
truth. -/
theorem widthAccepted_iff {dev₁ : σ}
    (h : sendBusWidth bus fuel card buswidth dev = some (status, dev₁)) :
    (WidthAccepted bus fuel card buswidth dev ↔ status = 0) ↔ (card.cardType = .sdmem →
      AppAnswered bus card.toSdxcBootStatus (sdBusWidth buswidth) dev) := by
  unfold sendBusWidth at h
  unfold WidthAccepted
  by_cases hsd : card.cardType = .sdmem
  · rw [if_pos hsd] at h ⊢
    obtain ⟨⟨status', cmd, d⟩, hsend, heq⟩ := Option.map_eq_some_iff.1 h
    obtain ⟨rfl, rfl⟩ := Prod.mk.inj heq
    have hzero : BothCompleted bus fuel card.toSdxcBootStatus (sdBusWidth buswidth) dev →
        status' = 0 := by
      obtain ⟨app, d₁, happ, rfl, -⟩ := sendAppCommand_cases hsend
      intro ⟨app', d₁', _, _, happ', hzero, _⟩
      obtain ⟨rfl, -⟩ := Prod.mk.inj (Option.some.inj (happ.symm.trans happ'))
      exact hzero
    rw [← noError_iff hsend]
    exact ⟨fun h _ => h.2, fun h => ⟨hzero, h hsd⟩⟩
  · rw [if_neg hsd] at h ⊢
    obtain ⟨⟨cmd, d⟩, hsend, heq⟩ := Option.map_eq_some_iff.1 h
    obtain ⟨rfl, rfl⟩ := Prod.mk.inj heq
    obtain ⟨d₁, hcmd⟩ := sendCommand_cases hsend
    refine ⟨fun _ h => absurd h hsd, fun _ => ⟨?_, fun h0 => ⟨cmd, d₁, hcmd, h0⟩⟩⟩
    intro ⟨cmd', _, hcmd', hzero⟩
    obtain ⟨rfl, -⟩ := Prod.mk.inj (Option.some.inj (hcmd.symm.trans hcmd'))
    exact hzero

/-- **The bus width**: the controller follows the card exactly if the width is switched by one
command, or by an application command that is answered if its announcement is. -/
theorem ctypeFollows_iff
    (h : setBusWidth bus.logged fuel card buswidth (dev, []) = some (ok, dev', log)) :
    CtypeFollows (WidthAccepted bus.logged fuel card buswidth (dev, [])) buswidth ok log ↔
      (card.cardType = .sdmem →
        AppAnswered bus.logged card.toSdxcBootStatus (sdBusWidth buswidth) (dev, [])) := by
  obtain ⟨status, dev₁, hsend, rfl, rfl⟩ := setBusWidth_cases h
  rw [← widthAccepted_iff hsend, CtypeFollows, writesTo_append, writesTo_sendBusWidth hsend]
  by_cases hzero : status = 0
  · rw [if_pos hzero, decide_eq_true hzero]
    simp [hzero, writesTo]
  · rw [if_neg hzero, decide_eq_false hzero]
    simp only [hzero, Bool.false_eq_true, false_and, iff_false]
    exact ⟨fun h => h.1, fun h => ⟨h, fun _ => ⟨trivial, rfl⟩⟩⟩

/-- **Application commands.** Both promises are kept exactly if the application command is answered
or its announcement is not. -/
theorem application_commands (bus : SdxcBus σ) (fuel : ℕ) :
    (∀ st pCommand dev status cmd dev',
      sendAppCommand bus fuel st pCommand dev = some (status, cmd, dev') →
        ((status = 0 → BothCompleted bus fuel st pCommand dev) ↔
          AppAnswered bus st pCommand dev)) ∧
    ∀ card buswidth dev ok dev' log,
      setBusWidth bus.logged fuel card buswidth (dev, []) = some (ok, dev', log) →
        (CtypeFollows (WidthAccepted bus.logged fuel card buswidth (dev, [])) buswidth ok log ↔
          (card.cardType = .sdmem →
            AppAnswered bus.logged card.toSdxcBootStatus (sdBusWidth buswidth) (dev, []))) :=
  ⟨fun _ _ _ _ _ _ h => noError_iff h, fun _ _ _ _ _ _ h => ctypeFollows_iff h⟩

/-- A controller that gets no response to its second command. -/
def deafToSecond : SdxcBus ℕ where
  read a n := (if a = Reg.rintsts then
    if n = 2 then bit Rintsts.cd ||| bit Rintsts.rto else bit Rintsts.cd else 0, n)
  write a _ n := if a = Reg.cmd then n + 1 else n

def sdCard : SdxcCard where
  rca := 0x10000
  bHighCapacity := true
  cardType := .sdmem

theorem not_bothCompleted_deafToSecond : ¬ BothCompleted deafToSecond.logged 1
    sdCard.toSdxcBootStatus (sdBusWidth 4) (0, []) := by
  have hstatus : (sendCommandInternal deafToSecond.logged 1 (appCommand sdCard.toSdxcBootStatus)
      (0, [])).bind (fun r => (sendCommandInternal deafToSecond.logged 1 (sdBusWidth 4) r.2).map
        (·.1.status)) = some CmdStatus.resTout := by decide +kernel
  intro ⟨app, dev₁, cmd, dev₂, happ, _, hcmd, hzero⟩
  rw [happ, Option.bind_some, hcmd, Option.map_some, hzero] at hstatus
  exact absurd hstatus (by decide)

theorem application_commands_deafToSecond :
    ¬ AppAnswered deafToSecond.logged sdCard.toSdxcBootStatus (sdBusWidth 4) (0, []) := by
  obtain ⟨⟨status, cmd, dev'⟩, hsend, hstatus⟩ := Option.map_eq_some_iff.1
    (show (sendAppCommand deafToSecond.logged 1 sdCard.toSdxcBootStatus (sdBusWidth 4)
      (0, [])).map (·.1) = some 0 by decide +kernel)
  obtain rfl : status = 0 := hstatus
  intro hanswered
  exact not_bothCompleted_deafToSecond
    (((application_commands deafToSecond.logged 1).1 _ _ _ _ _ _ hsend).2 hanswered rfl)

/-- The card times out on `ACMD6`, and the controller goes to four bits. -/
theorem not_ctypeFollows :
    (sendAppCommand deafToSecond.logged 1 sdCard.toSdxcBootStatus (sdBusWidth 4) (0, [])).map
        (fun (status, cmd, _) => (status, cmd.status)) = some (0, CmdStatus.resTout) ∧
      (setBusWidth deafToSecond.logged 1 sdCard 4 (0, [])).map
        (fun (ok, _, log) => (ok, writesTo Reg.ctype log)) = some (true, [1]) ∧
      ¬ WidthAccepted deafToSecond.logged 1 sdCard 4 (0, []) :=
  ⟨by decide +kernel, by decide +kernel, not_bothCompleted_deafToSecond⟩

end Results

end Sdmmc.AppCommand

end Gec6818Bl1
