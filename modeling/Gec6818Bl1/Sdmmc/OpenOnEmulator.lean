import Gec6818Bl1.Sdmmc.OnBoard
import Gec6818Bl1.Sdmmc.OnEmulator
import Gec6818Bl1.Sdmmc.Open

/-!
# Opening a card of the emulator

`NX_SDMMC_Init` and `NX_SDMMC_Open` on a board with the emulator's controller and plain storage for
the registers of the other two devices. From whatever a guest left the controller in, they reset the
FIFO, turn its DMA off and bring the card to the transfer state, in which the sectors are read.

A command without data leaves the controller `Parked`: nothing in the FIFO, no DMA. What its slot
answers is `Replies`, from a card or from an empty slot; an exchange has the status of the reply
(`sendCommandInternal_parked`).
-/

namespace Gec6818Bl1.Sdmmc

open ByteMem Polling RegTrace AppCommand Gec6818Bl1.Sdmmc.Clock Emulator Emulator.Dwmmc

variable {image : List Byte} {s s' : Dwmmc} {card card' : Option SDCard} {resp : Option (List ℕ)}
  {idx arg cmd fuel : ℕ} {pCommand : Command}

/-! ## Commands without data -/

/-- The response registers are all that a response changes. -/
theorem storeResp_of_outside {off i : ℕ} {ws : List ℕ}
    (hoff : off < rResp0 + 4 * i ∨ rResp0 + 4 * (i + ws.length) ≤ off) (regs : ℕ → Option ℕ) :
    storeResp regs i ws off = regs off := by
  induction ws generalizing i regs with
  | nil => rfl
  | cons w ws ih =>
    rw [List.length_cons] at hoff
    have hne : off ≠ rResp0 + 4 * i := by omega
    rw [storeResp, ih (by omega), Function.update_of_ne hne]

theorem storeResp_first (regs : ℕ → Option ℕ) (w : ℕ) (ws : List ℕ) :
    storeResp regs 0 (w :: ws) rResp0 = some w := by
  rw [storeResp, storeResp_of_outside (by omega)]
  exact Function.update_self _ _ _

/-- Nothing is in the FIFO, and the data of commands goes there. -/
structure Parked (card : Option SDCard) (s : Dwmmc) : Prop where
  bits : IrqBits s.rintsts
  card : s.card = card
  dma : s.dmaEnabled = false
  rest : s.rest = []

theorem Parked.ack (h : Parked card s) (val : ℕ) : Parked card (s.ack val) where
  bits := h.bits.ack val
  card := (ack_card s val).trans h.card
  dma := by
    rw [dmaEnabled, ack_regs]
    exact h.dma
  rest := (ack_rest s val).trans h.rest

/-- A write of a register that the controller only stores. -/
theorem Parked.update (h : Parked card s) {off : ℕ} (hctrl : off ≠ rCtrl) (hbmod : off ≠ rBmod)
    (val : Option ℕ) : Parked card { s with regs := Function.update s.regs off val } where
  bits := h.bits
  card := h.card
  dma := (dmaEnabled_congr (Function.update_of_ne hctrl.symm val s.regs)
    (Function.update_of_ne hbmod.symm val s.regs)).trans h.dma
  rest := h.rest

theorem issue_parked (h : Parked card s) (arg cmd : ℕ) : Parked card (issue s arg cmd) :=
  (((h.ack _).ack _).update (by decide) (by decide) _).update (by decide) (by decide) _

theorem ite_length {p : Prop} [Decidable p] {x y : Option (List ℕ) × Option CardData × SDCard}
    (hx : ∀ ws, x.1 = some ws → ws.length ≤ 4) (hy : ∀ ws, y.1 = some ws → ws.length ≤ 4) :
    ∀ ws, (if p then x else y).1 = some ws → ws.length ≤ 4 := by
  split_ifs
  exacts [hx, hy]

/-- There are registers for every response. -/
theorem command_length (card : SDCard) (idx arg : ℕ) :
    ∀ ws, (card.command idx arg).1 = some ws → ws.length ≤ 4 := by
  rw [SDCard.command]
  repeat' first
    | refine ite_length ?_ ?_
    | (intro ws hws; obtain rfl := Option.some.inj hws; simp [SDCard.long])
    | (intro ws hws; cases hws)

/-- A slot answers a command, without data. -/
def Replies (card : Option SDCard) (idx arg : ℕ) (resp : Option (List ℕ))
    (card' : Option SDCard) : Prop :=
  match card with
  | none => resp = none ∧ card' = none
  | some card => (card.command idx arg).1 = resp ∧ (card.command idx arg).2.1 = none ∧
      some (card.command idx arg).2.2 = card'

/-- What the execution of such a command leaves. -/
structure Executed (card' : Option SDCard) (resp : Option (List ℕ)) (s s' : Dwmmc) : Prop where
  parked : Parked card' s'
  cmd : s'.regs rCmd = s.regs rCmd
  cd : s'.rintsts.testBit 2 = true
  rto : s'.rintsts.testBit 8 = (s.rintsts.testBit 8 || resp.isNone)
  resp0 : ∀ w ws, resp = some (w :: ws) → s'.regs rResp0 = some w

theorem executed_timeout (h : Parked card s) :
    Executed card' none s { s with card := card', rintsts := s.rintsts ||| (CD ||| RTO) } where
  parked := ⟨h.bits.lor (irqBits_CD.lor irqBits_RTO), rfl, h.dma, h.rest⟩
  cmd := rfl
  cd := by
    have hbit : (CD ||| RTO).testBit 2 = true := by decide
    rw [Nat.testBit_or, hbit, Bool.or_true]
  rto := by
    have hbit : (CD ||| RTO).testBit 8 = true := by decide
    rw [Nat.testBit_or, hbit]
    rfl
  resp0 := fun _ _ hresp => by cases hresp

theorem executed_response (h : Parked card s) {ws : List ℕ} (hlen : ws.length ≤ 4) :
    Executed card' (some ws) s { s with
      card := card'
      regs := storeResp s.regs 0 ws
      rintsts := s.rintsts ||| CD } where
  parked := by
    refine ⟨h.bits.lor irqBits_CD, rfl, ?_, h.rest⟩
    exact (dmaEnabled_congr (storeResp_of_outside (by simp [rCtrl, rResp0]) s.regs)
      (storeResp_of_outside (by simp only [rBmod, rResp0]; omega) s.regs)).trans h.dma
  cmd := storeResp_of_outside (by simp [rCmd, rResp0]) s.regs
  cd := by
    have hbit : CD.testBit 2 = true := by decide
    rw [Nat.testBit_or, hbit, Bool.or_true]
  rto := by
    have hbit : CD.testBit 8 = false := by decide
    rw [Nat.testBit_or, hbit]
    rfl
  resp0 := by
    rintro w ws hresp
    obtain rfl := Option.some.inj hresp
    exact storeResp_first s.regs w ws

theorem execute_parked (h : Parked card s) (cmd : ℕ) (hclock : ¬cmd.testBit 21 = true)
    (hreply : Replies card (cmd &&& 0x3F) ((s.regs rCmdarg).getD 0) resp card') :
    ∃ s', s.execute cmd = some s' ∧ Executed card' resp s s' := by
  rw [execute, if_neg hclock]
  cases hcard : s.card with
  | none =>
    obtain rfl := h.card.symm.trans hcard
    obtain ⟨rfl, rfl⟩ := hreply
    exact ⟨_, rfl, hcard ▸ executed_timeout h⟩
  | some c =>
    obtain rfl := h.card.symm.trans hcard
    obtain ⟨hresp, hdata, hcard'⟩ := hreply
    have hlen := command_length c (cmd &&& 0x3F) ((s.regs rCmdarg).getD 0)
    rcases hcmd : c.command (cmd &&& 0x3F) ((s.regs rCmdarg).getD 0) with ⟨resp', data, c'⟩
    rw [hcmd] at hresp hdata hcard' hlen
    obtain rfl : resp' = resp := hresp
    obtain rfl : data = none := hdata
    obtain rfl : some c' = card' := hcard'
    cases resp' with
    | none =>
      refine ⟨_, ?_, executed_timeout h⟩
      simp only [hcmd]
    | some ws =>
      refine ⟨_, ?_, executed_response h (hlen ws rfl)⟩
      simp only [hcmd]

/-- The word written to `CMD` starts the command with this index. -/
structure Sends (cmdidx flag : U32) (idx : ℕ) : Prop where
  start : ((cmdidx &&& 0xFF) ||| flag ||| bit CmdFlag.useHoldReg).toNat.testBit 31 = true
  clock : ¬((cmdidx &&& 0xFF) ||| flag ||| bit CmdFlag.useHoldReg).toNat.testBit 21 = true
  idx : ((cmdidx &&& 0xFF) ||| flag ||| bit CmdFlag.useHoldReg).toNat &&& 0x3F = idx

instance (cmdidx flag : U32) (idx : ℕ) : Decidable (Sends cmdidx flag idx) :=
  decidable_of_iff
    (((cmdidx &&& 0xFF) ||| flag ||| bit CmdFlag.useHoldReg).toNat.testBit 31 = true ∧
      ¬((cmdidx &&& 0xFF) ||| flag ||| bit CmdFlag.useHoldReg).toNat.testBit 21 = true ∧
      ((cmdidx &&& 0xFF) ||| flag ||| bit CmdFlag.useHoldReg).toNat &&& 0x3F = idx)
    ⟨fun h => ⟨h.1, h.2.1, h.2.2⟩, fun h => ⟨h.start, h.clock, h.idx⟩⟩

/-- The controller takes a command at once, and no error of its own is to be seen. -/
theorem issueCommand_executed (hstart : pCommand.word.toNat.testBit 31 = true) (left : ℕ)
    (hexec : (issue s pCommand.arg.toNat pCommand.word.toNat).execute pCommand.word.toNat = some s')
    (h : Executed card' resp (issue s pCommand.arg.toNat pCommand.word.toNat) s') :
    issueCommand emulator pCommand (left, some (s.ack 0xFFFFFFFF)) = .inr (true, some s') := by
  have hwrite : writeCommand emulator pCommand (some (s.ack 0xFFFFFFFF)) = some s' := by
    refine Eq.trans ?_ hexec
    exact if_pos hstart
  have hcmd : ((s'.regs rCmd).getD 0).testBit 31 = false := by
    rw [h.cmd, issue_regs, Function.update_self, Option.getD_some, Nat.testBit_ldiff,
      testBit_one_shiftLeft]
    exact Bool.and_false _
  have hwait : waitStart emulator left (some s') = (some left, some s') := by
    rw [waitStart.eq_def]
    simp only [read_cmd, CmdFlag.startCmd, getLsbD_ofNat (show 31 < 32 by decide), hcmd,
      Bool.false_eq_true, if_false]
  have hhle := not_raised (i := Rintsts.hle) h.parked.bits (by decide)
  rw [issueCommand_eq, hwrite, hwait]
  simp only [read_rintsts, hhle, Bool.false_eq_true, if_false]

/-- The status of an exchange. -/
def replyStatus (resp : Option (List ℕ)) : U32 := if resp.isNone then CmdStatus.resTout else 0

theorem responseError_executed (h : Executed card' resp (issue s arg cmd) s') :
    responseError emulator (some s') = (replyStatus resp, some s') := by
  have hrcrc := not_raised (i := Rintsts.rcrc) h.parked.bits (by decide)
  have hre := not_raised (i := Rintsts.re) h.parked.bits (by decide)
  have hrto : (BitVec.ofNat 32 s'.rintsts).getLsbD Rintsts.rto = resp.isNone := by
    rw [getLsbD_ofNat (by decide), Rintsts.rto, h.rto, issue_rto, Bool.false_or]
  simp only [responseError, read_rintsts, hrcrc, hre, hrto, Bool.false_or, Bool.false_eq_true,
    if_false]
  cases resp <;> rfl

theorem readResponse_emulator (pCommand : Command) (s : Dwmmc) :
    ∃ response, readResponse emulator pCommand (some s) = ({ pCommand with response }, some s) ∧
      response 0 = BitVec.ofNat 32 ((s.regs rResp0).getD 0) := by
  cases hlong : pCommand.flag.getLsbD CmdFlag.longRsp with
  | true => exact ⟨_, by rw [readResponse, hlong]; rfl, rfl⟩
  | false => exact ⟨_, by rw [readResponse, hlong]; rfl, Function.update_self _ _ _⟩

theorem waitDataReady_emulator (s : Dwmmc) :
    waitDataReady emulator sdmmcTimeout (some s) = (true, some s) := by
  obtain ⟨-, -, hdata, -⟩ := statusOf_bits _ (window_lt s)
  rw [sdmmcTimeout, waitDataReady_succ, read_status]
  exact if_neg (Bool.eq_false_iff.1 hdata)

theorem finishCommand_executed (h : Executed card' resp s s') (pCommand : Command) :
    ∃ response, finishCommand emulator pCommand (replyStatus resp) (some s') =
        ({ pCommand with status := replyStatus resp, response }, some s') ∧
      ∀ w ws, resp = some (w :: ws) → pCommand.flag.getLsbD CmdFlag.shortRsp = true →
        response 0 = BitVec.ofNat 32 w := by
  cases resp with
  | none =>
    have herror : replyStatus none ≠ 0 := by decide
    refine ⟨pCommand.response, ?_, fun _ _ hresp => by cases hresp⟩
    rw [finishCommand, if_neg fun h => herror h.1]
  | some ws =>
    cases hshort : pCommand.flag.getLsbD CmdFlag.shortRsp with
    | false =>
      refine ⟨pCommand.response, ?_, fun _ _ _ hshort => by cases hshort⟩
      rw [finishCommand, hshort]
      rfl
    | true =>
      obtain ⟨response, hread, hfirst⟩ := readResponse_emulator pCommand s'
      refine ⟨response, ?_, fun w ws hresp _ => ?_⟩
      · rw [finishCommand, if_pos ⟨rfl, hshort⟩, hread]
        simp only [waitDataReady_emulator, if_true]
        split_ifs <;> rfl
      · rw [hfirst, h.resp0 w ws hresp]
        rfl

/-- **An exchange with the slot.** -/
theorem sendCommandInternal_parked (h : Parked card s) (hfuel : 0 < fuel)
    (hsends : Sends pCommand.cmdidx pCommand.flag idx)
    (hreply : Replies card idx pCommand.arg.toNat resp card') :
    ∃ response s', sendCommandInternal emulator fuel pCommand (some s) =
        some ({ pCommand with status := replyStatus resp, response }, some s') ∧
      Parked card' s' ∧
      ∀ w ws, resp = some (w :: ws) → pCommand.flag.getLsbD CmdFlag.shortRsp = true →
        response 0 = BitVec.ofNat 32 w := by
  have harg : ((issue s pCommand.arg.toNat pCommand.word.toNat).regs rCmdarg).getD 0 =
      pCommand.arg.toNat := by
    rw [issue_regs, Function.update_of_ne (by decide), Function.update_self]
    rfl
  have hidx : pCommand.word.toNat &&& 0x3F = idx := hsends.idx
  obtain ⟨s', hexec, hs'⟩ := execute_parked
    (issue_parked h pCommand.arg.toNat pCommand.word.toNat) pCommand.word.toNat hsends.clock
    (by rwa [harg, hidx])
  obtain ⟨response, hfinish, hfirst⟩ := finishCommand_executed hs' pCommand
  have hack : emulator.write Reg.rintsts 0xFFFFFFFF (some s) = some (s.ack 0xFFFFFFFF) := rfl
  have hissue := run_first hfuel (issueCommand_executed hsends.start sdmmcTimeout hexec hs')
  have hcd : (BitVec.ofNat 32 s'.rintsts).getLsbD Rintsts.cd = true :=
    (getLsbD_ofNat (by decide)).trans hs'.cd
  have hdone : waitCommandDone emulator fuel pCommand.flag sdmmcTimeout (some s') =
      some (true, some s') := by
    rw [waitCommandDone.eq_def]
    simp only [read_rintsts, hcd, if_true]
  refine ⟨response, s', ?_, hs'.parked, hfirst⟩
  rw [sendCommandInternal_eq, hack, hissue]
  simp only [Option.bind_some, Bool.not_true, Bool.false_eq_true, if_false, hdone,
    responseError_executed hs']
  exact congrArg some hfinish

/-! ## The board -/

abbrev Board := Option Dwmmc × (ExtReg → U32)

/-- The emulator's controller, and plain storage for the rest. -/
def emulatorPort : SdPort Board where
  sdxc := emulator.fst
  ext := Bus.store.snd

/-- What holds of the controller of the board. -/
def OnBoard (P : Dwmmc → Prop) (dev : Board) : Prop := ∃ s, dev.1 = some s ∧ P s

/-- The controller is parked, with this card in its slot. -/
def On (card : Option SDCard) : Board → Prop := OnBoard (Parked card)

variable {dev : Board}

/-- A command without data, on the board. -/
theorem sendCommandInternal_on (h : On card dev) (hfuel : 0 < fuel) (pCommand : Command)
    (hsends : Sends pCommand.cmdidx pCommand.flag idx)
    (hreply : Replies card idx pCommand.arg.toNat resp card') :
    ∃ cmd dev', sendCommandInternal emulatorPort.sdxc fuel pCommand dev = some (cmd, dev') ∧
      On card' dev' ∧ cmd.status = replyStatus resp ∧
      ∀ w ws, resp = some (w :: ws) → pCommand.flag.getLsbD CmdFlag.shortRsp = true →
        cmd.response 0 = BitVec.ofNat 32 w := by
  obtain ⟨_, rest⟩ := dev
  obtain ⟨s, rfl, hs⟩ := h
  obtain ⟨response, s', hsend, hs', hfirst⟩ := sendCommandInternal_parked hs hfuel hsends hreply
  refine ⟨{ pCommand with status := replyStatus resp, response }, (some s', rest), ?_,
    ⟨s', rfl, hs'⟩, rfl, hfirst⟩
  exact (sendCommandInternal_fst fuel pCommand (some s)).trans (congrArg (Option.map _) hsend)

/-- One that the card responds to. -/
theorem sendCommand_on (h : On card dev) (hfuel : 0 < fuel) (st : SdxcBootStatus)
    (pCommand : Command) {w : ℕ} {ws : List ℕ}
    (hsends : Sends pCommand.cmdidx pCommand.flag idx)
    (hreply : Replies card idx pCommand.arg.toNat (some (w :: ws)) card') :
    ∃ cmd dev', sendCommand emulatorPort.sdxc fuel st pCommand dev = some (cmd, dev') ∧
      On card' dev' ∧ cmd.status = 0 ∧
      (pCommand.flag.getLsbD CmdFlag.shortRsp = true → cmd.response 0 = BitVec.ofNat 32 w) := by
  obtain ⟨cmd, dev', hsend, hdev', hstatus, hfirst⟩ :=
    sendCommandInternal_on h hfuel pCommand hsends hreply
  refine ⟨cmd, dev', ?_, hdev', hstatus, hfirst w ws rfl⟩
  rw [sendCommand, hsend]
  exact if_pos hstatus

/-- One that it does not respond to. -/
theorem sendCommand_timeout (h : On card dev) (hfuel : 0 < fuel) (st : SdxcBootStatus)
    (pCommand : Command) {card₁ : Option SDCard}
    (hsends : Sends pCommand.cmdidx pCommand.flag idx)
    (hreply : Replies card idx pCommand.arg.toNat none card₁)
    (hasked : Replies card₁ 13 st.rca.toNat resp card') :
    ∃ cmd dev', sendCommand emulatorPort.sdxc fuel st pCommand dev = some (cmd, dev') ∧
      On card' dev' ∧ cmd.status = CmdStatus.resTout := by
  obtain ⟨cmd, dev₁, hsend, hdev₁, hstatus, -⟩ :=
    sendCommandInternal_on h hfuel pCommand hsends hreply
  have hasks : Sends sendStatusIdx (sendStatusCommand st).flag 13 :=
    (by decide : Sends sendStatusIdx (sendStatusCommand ⟨0, true⟩).flag 13)
  obtain ⟨_, dev', hask, hdev', -⟩ :=
    sendCommandInternal_on hdev₁ hfuel (sendStatusCommand st) hasks hasked
  have herror : cmd.status ≠ 0 := by
    rw [hstatus]
    decide
  refine ⟨cmd, dev', ?_, hdev', hstatus⟩
  rw [sendCommand, hsend]
  simp only [Option.bind_eq_bind, Option.bind_some, herror, if_false, hask]
  rfl

/-! ## The clock -/

/-- A write of the register does nothing to the card or to the FIFO. -/
def Tame (a : ClkReg) : Prop := a ≠ .ctrl ∧ a ≠ .cmd ∧ a ≠ .rintsts

def TameOp : Op ClkReg U32 → Prop
  | .read _ => True
  | .write a _ => Tame a
  | .modify a _ => Tame a

/-- A read of a register of the clock code leaves the controller as it is. -/
theorem clk_read (a : ClkReg) (s : Dwmmc) (rest : ExtReg → U32) :
    (emulatorPort.clk.read a (some s, rest)).2 = (some s, rest) := by
  cases a <;> rfl

/-- A tame write leaves the controller as it is, or stores the word. -/
theorem clk_write {a : ClkReg} (ha : Tame a) (v : U32) (s : Dwmmc) (rest : ExtReg → U32) :
    (emulatorPort.clk.write a v (some s, rest)).1 = some s ∨
      ∃ off, off ≠ rCtrl ∧ off ≠ rBmod ∧ (emulatorPort.clk.write a v (some s, rest)).1 =
        some { s with regs := Function.update s.regs off (some v.toNat) } := by
  obtain ⟨hctrl, hcmd, hrintsts⟩ := ha
  cases a with
  | ctrl => cases hctrl rfl
  | cmd => cases hcmd rfl
  | rintsts => cases hrintsts rfl
  | clkenb | clkgen0 | regrst i => exact Or.inl rfl
  | pwren | clkdiv | clksrc | clkena | tmout | ctype | blksiz | intmask | fifoth | clkctrl =>
    exact Or.inr ⟨_, by decide, by decide, rfl⟩

/-- A property of the controller that the registers of the clock code cannot take away. -/
structure Lasts (P : Dwmmc → Prop) : Prop where
  bits : ∀ s, P s → IrqBits s.rintsts
  update : ∀ s off val, off ≠ rCtrl → off ≠ rBmod → P s →
    P { s with regs := Function.update s.regs off val }

theorem parked_lasts (card : Option SDCard) : Lasts (Parked card) where
  bits := fun _ h => h.bits
  update := fun _ _ val hctrl hbmod h => h.update hctrl hbmod val

section Lasts

variable {P : Dwmmc → Prop}

theorem Lasts.read (h : OnBoard P dev) (a : ClkReg) :
    OnBoard P (emulatorPort.clk.read a dev).2 := by
  obtain ⟨_, rest⟩ := dev
  obtain ⟨s, rfl, hs⟩ := h
  rw [clk_read]
  exact ⟨s, rfl, hs⟩

theorem Lasts.write (hP : Lasts P) (h : OnBoard P dev) {a : ClkReg} (ha : Tame a) (v : U32) :
    OnBoard P (emulatorPort.clk.write a v dev) := by
  obtain ⟨_, rest⟩ := dev
  obtain ⟨s, rfl, hs⟩ := h
  obtain hsame | ⟨off, hctrl, hbmod, hstored⟩ := clk_write ha v s rest
  · exact ⟨s, hsame, hs⟩
  · exact ⟨_, hstored, hP.update s off _ hctrl hbmod hs⟩

theorem Lasts.perform (hP : Lasts P) (ops : List (Op ClkReg U32))
    (hops : ∀ op ∈ ops, TameOp op) (h : OnBoard P dev) :
    OnBoard P (perform emulatorPort.clk ops dev) := by
  refine perform_invariant (fun op hop dev hdev => ?_) h
  cases op with
  | read a => exact Lasts.read hdev a
  | write a v => exact hP.write hdev (hops _ hop) v
  | modify a f => exact hP.write (Lasts.read hdev a) (hops _ hop) _

end Lasts

/-- What updates the clock. -/
def clockWord : U32 := bit CmdFlag.startCmd ||| bit 21 ||| bit CmdFlag.stopAbort

/-- The controller with that word taken: nothing is executed. -/
def tookClock (s : Dwmmc) : Dwmmc :=
  { s with regs := Function.update s.regs rCmd (some (clockWord.toNat.ldiff (1 <<< 31))) }

theorem write_clockWord (s : Dwmmc) (rest : ExtReg → U32) :
    emulatorPort.clk.write .cmd clockWord (some s, rest) = (some (tookClock s), rest) := by
  have hstart : clockWord.toNat.testBit 31 = true := by decide
  have hclock : clockWord.toNat.testBit 21 = true := by decide
  have hexec : s.writeCmd clockWord.toNat = some (tookClock s) :=
    (if_pos hstart).trans (if_pos hclock)
  exact congrArg (·, rest) hexec

theorem read_tookClock (s : Dwmmc) (rest : ExtReg → U32) :
    ((emulatorPort.clk.read .cmd (some (tookClock s), rest)).1).getLsbD CmdFlag.startCmd =
      false := by
  have hregs : (tookClock s).regs rCmd = some (clockWord.toNat.ldiff (1 <<< 31)) := by
    simp only [tookClock, Function.update_self]
  show (BitVec.ofNat 32 (((tookClock s).regs rCmd).getD 0)).getLsbD 31 = false
  rw [getLsbD_ofNat (by decide), hregs, Option.getD_some, Nat.testBit_ldiff, testBit_one_shiftLeft]
  exact Bool.and_false _

/-- A command for the clock is taken at once. -/
theorem Lasts.updateClockBody {P : Dwmmc → Prop} (hP : Lasts P) (h : OnBoard P dev) :
    ∃ dev', Clk.updateClockBody emulatorPort.clk dev = .inr (true, dev') ∧ OnBoard P dev' := by
  obtain ⟨_, rest⟩ := dev
  obtain ⟨s, rfl, hs⟩ := h
  have hs₁ : P (tookClock s) := hP.update s _ _ (by decide) (by decide) hs
  have hpoll : pollReg emulatorPort.clk .cmd (!·.getLsbD CmdFlag.startCmd) (sdmmcTimeout + 1)
      (some (tookClock s), rest) = (true, some (tookClock s), rest) := by
    rw [pollReg]
    simp only [read_tookClock, Bool.not_false, if_true, clk_read]
  have hhle := not_raised (i := Rintsts.hle) (hP.bits _ hs₁) (by decide)
  have hrintsts : emulatorPort.clk.read .rintsts (some (tookClock s), rest) =
      (BitVec.ofNat 32 (tookClock s).rintsts, some (tookClock s), rest) := rfl
  have hwrite := write_clockWord s rest
  rw [clockWord] at hwrite
  refine ⟨(some (tookClock s), rest), ?_, tookClock s, rfl, hs₁⟩
  simp only [Clk.updateClockBody, hwrite, hpoll, Bool.not_true, Bool.false_eq_true, if_false,
    hrintsts, hhle]

theorem confirmIdle_on {P : Dwmmc → Prop} (h : OnBoard P dev) :
    OnBoard P (emulatorPort.confirmIdle dev) := by
  obtain ⟨_, rest⟩ := dev
  obtain ⟨s, rfl, hs⟩ := h
  obtain ⟨-, -, hdata, hfsm⟩ := statusOf_bits _ (window_lt s)
  have hread : emulatorPort.sdxc.read Reg.status (some s, rest) =
      (BitVec.ofNat 32 (statusOf (window s)), some s, rest) := rfl
  rw [SdPort.confirmIdle, hread]
  simp only [hdata, hfsm, Bool.or_self, Bool.false_eq_true, if_false]
  exact ⟨s, rfl, hs⟩

/-- **The clock is set**, and the card and the FIFO are left alone. -/
theorem Lasts.setClock {P : Dwmmc → Prop} (hP : Lasts P) (h : OnBoard P dev) (nxDebug : Bool)
    (mode : OpMode) {srcFreq : U32} (nFreq : U32) (hfreq : 400000 ≤ nFreq.toNat)
    (hsrc : 2 * nFreq.toNat ≤ srcFreq.toNat) (hfuel : 64 ≤ fuel) (enb : Bool) :
    ∃ dev', emulatorPort.setClock nxDebug mode fuel srcFreq enb nFreq dev = some (true, dev') ∧
      OnBoard P dev' := by
  obtain ⟨info, hinfo, -⟩ := getClkParam_eq mode
    (⟨hfreq, hsrc⟩ : Requested srcFreq ⟨clksrcSdmmc, nFreq, 0, 0⟩) hfuel
  have hpos : 0 < fuel := Nat.lt_of_lt_of_le (by decide) hfuel
  have hconfirm : OnBoard P (if nxDebug then emulatorPort.confirmIdle dev else dev) := by
    cases nxDebug with
    | false => exact h
    | true => exact confirmIdle_on h
  have h₁ := hP.perform [.modify .clkena (· &&& ~~~clkenaClkenb),
    .modify .clkena (· ||| clkenaLowpwr), .write .clkenb clkenbMode] (by simp [TameOp, Tame])
    hconfirm
  have h₂ := hP.perform [.modify .clkgen0 (clkGenWord info.toClkInfo),
    .write .clkdiv (info.nClkDiv >>> 1)] (by simp [TameOp, Tame]) h₁
  have h₃ := hP.perform [.modify .clkenb (· ||| bit 2),
    .modify .clkena (· &&& ~~~clkenaLowpwr)] (by simp [TameOp, Tame]) h₂
  obtain ⟨dev₄, hupdate, h₄⟩ := hP.updateClockBody h₃
  have h₅ := hP.perform [.modify .clkena (· ||| clkenaClkenb)]
    (by simp [TameOp, Tame]) h₄
  obtain ⟨dev₆, hagain, h₆⟩ := hP.updateClockBody h₅
  have hfirst := run_first hpos hupdate
  have hsecond := run_first hpos hagain
  cases enb with
  | false =>
    refine ⟨dev₄, ?_, h₄⟩
    simp only [SdPort.setClock, Clk.setClock, hinfo, Option.bind_eq_bind, Option.bind_some, if_true,
      hfirst]
    rfl
  | true =>
    refine ⟨dev₆, ?_, h₆⟩
    simp only [SdPort.setClock, Clk.setClock, hinfo, Option.bind_eq_bind, Option.bind_some, if_true,
      hfirst, hsecond]
    rfl

/-! ## Initialization -/

/-- The controller has this card in its slot, whatever else it is in. -/
def Has (card : Option SDCard) : Board → Prop :=
  OnBoard fun s => IrqBits s.rintsts ∧ s.card = card

theorem has_lasts (card : Option SDCard) :
    Lasts fun s : Dwmmc => IrqBits s.rintsts ∧ s.card = card where
  bits := fun _ h => h.1
  update := fun _ _ _ _ _ h => h

theorem has_modifyCtrl (h : Has card dev) (f : U32 → U32) :
    Has card (emulatorPort.clk.modify .ctrl f dev) := by
  obtain ⟨_, rest⟩ := dev
  obtain ⟨s, rfl, hbits, hcard⟩ := h
  let v := f (BitVec.ofNat 32 ((s.regs rCtrl).getD 0))
  refine ⟨s.writeCtrl v.toNat, rfl, ?_, ?_⟩
  · simp only [writeCtrl]
    split_ifs <;> exact hbits
  · simp only [writeCtrl]
    split_ifs <;> exact hcard

/-- The reset of `CTRL`. -/
def resetCtrl (s : Dwmmc) : Dwmmc :=
  { s with data := [], pos := 0, regs := Function.update s.regs rCtrl (some 0) }

/-- The reset bits are not kept. -/
theorem writeCtrl_reset (s : Dwmmc) {val : ℕ} (hfifo : val.testBit 1 = true) (hval : val < 8) :
    s.writeCtrl val = resetCtrl s := by
  have hkept : val.ldiff 0x7 = 0 := by
    refine Nat.eq_of_testBit_eq fun i => ?_
    have hmask : (0x7 : ℕ).testBit i = decide (i < 3) := Nat.testBit_two_pow_sub_one 3 i
    rw [Nat.testBit_ldiff, Nat.zero_testBit, hmask]
    by_cases hi : i < 3
    · rw [decide_eq_true hi, Bool.not_true, Bool.and_false]
    · have hpow : 2 ^ 3 ≤ 2 ^ i := Nat.pow_le_pow_right (by decide) (Nat.le_of_not_lt hi)
      rw [Nat.testBit_lt_two_pow (Nat.lt_of_lt_of_le hval hpow), Bool.false_and]
  simp only [writeCtrl, hfifo, if_true, hkept]
  rfl

theorem read_resetCtrl (s : Dwmmc) :
    emulator.read Reg.ctrl (some (resetCtrl s)) = (0, some (resetCtrl s)) := by
  have hregs : (resetCtrl s).regs rCtrl = some 0 := by
    simp only [resetCtrl, Function.update_self]
  show (BitVec.ofNat 32 (((resetCtrl s).regs rCtrl).getD 0), some (resetCtrl s)) = _
  rw [hregs]
  rfl

/-- It empties the FIFO and turns the DMA off. -/
theorem resetCtrl_parked (hbits : IrqBits s.rintsts) (hcard : s.card = card) :
    Parked card (resetCtrl s) where
  bits := hbits
  card := hcard
  dma := by simp [dmaEnabled, resetCtrl]
  rest := rfl

/-- The reset of `CTRL`, after which the code has not to wait. -/
theorem reset_on (h : Has card dev) :
    ∃ dev', emulatorPort.clk.write .ctrl ctrlReset dev = dev' ∧ On card dev' ∧
      (emulatorPort.clk.read .ctrl dev').1 = 0 ∧ (emulatorPort.clk.read .ctrl dev').2 = dev' := by
  obtain ⟨_, rest⟩ := dev
  obtain ⟨s, rfl, hbits, hcard⟩ := h
  have hwrite : emulatorPort.clk.write .ctrl ctrlReset (some s, rest) =
      (some (resetCtrl s), rest) :=
    congrArg (some ·, rest) (writeCtrl_reset s (by decide) (by decide))
  exact ⟨_, hwrite, ⟨_, rfl, resetCtrl_parked hbits hcard⟩,
    congrArg Prod.fst (read_resetCtrl s), rfl⟩

/-- The wait for it. -/
theorem waitReset_on (hread : (emulatorPort.clk.read .ctrl dev).1 = 0)
    (hsame : (emulatorPort.clk.read .ctrl dev).2 = dev) (hfuel : 0 < fuel) :
    waitReg emulatorPort.clk .ctrl (· &&& ctrlReset == 0) fuel dev = some (0, dev) := by
  refine run_first hfuel ?_
  simp only [waitRegBody, hread, hsame]
  rfl

theorem ackAll_on (h : On card dev) :
    On card (emulatorPort.clk.write .rintsts 0xFFFFFFFF dev) := by
  obtain ⟨_, rest⟩ := dev
  obtain ⟨s, rfl, hs⟩ := h
  exact ⟨_, rfl, hs.ack _⟩

theorem ackAll_has (h : Has card dev) :
    Has card (emulatorPort.clk.write .rintsts 0xFFFFFFFF dev) := by
  obtain ⟨_, rest⟩ := dev
  obtain ⟨s, rfl, hbits, hcard⟩ := h
  exact ⟨_, rfl, hbits.ack _, (ack_card s _).trans hcard⟩

/-- **Initialization**, from any state of the controller. -/
theorem init_on (h : Has card dev) (mode : OpMode) {srcFreq : U32}
    (hsrc : 50000000 ≤ srcFreq.toNat) (hfuel : 64 ≤ fuel) (sdPort : Fin 3) :
    ∃ dev', Clk.init emulatorPort.clk mode fuel srcFreq sdPort dev = some dev' ∧
      On card dev' := by
  obtain ⟨info, hinfo, -⟩ := getClkParam_eq mode
    (⟨by decide, hsrc⟩ : Requested srcFreq ⟨clksrcSdmmc, 25000000, 0, 0⟩) hfuel
  have hpos : 0 < fuel := Nat.lt_of_lt_of_le (by decide) hfuel
  have h₁ := (has_lasts card).perform [.write .clkenb clkenbMode,
    .modify .clkgen0 (clkGenWord info.toClkInfo), .modify .clkenb (· ||| bit 2),
    resetCon (sdResetNum sdPort) true, resetCon (sdResetNum sdPort) false, .write .pwren 0,
    .write .clkena clkenaLowpwr, .write .clkctrl (2#32 <<< 16), .write .clksrc 0,
    .write .clkdiv (info.nClkGenDiv >>> 1)] (by simp [TameOp, Tame, resetCon, resetConOn]) h
  obtain ⟨dev₂, hreset, h₂, hread, hsame⟩ :=
    reset_on (has_modifyCtrl h₁ (· &&& ~~~(bit 5 ||| bit 6)))
  have h₃ := ackAll_on ((parked_lasts card).perform [.write .pwren 1,
    .write .tmout (0xFFFFFF#32 <<< 8 ||| 0x64#32), .write .ctype 0, .write .blksiz blockLength,
    .write .fifoth (7#32 <<< 16 ||| 8#32), .write .intmask 0] (by simp [TameOp, Tame]) h₂)
  refine ⟨_, ?_, h₃⟩
  simp only [Clk.init, hinfo, Option.bind_eq_bind, Option.bind_some]
  refine (congrArg (fun d => Option.bind
    (waitReg emulatorPort.clk .ctrl (· &&& ctrlReset == 0) fuel d) _) hreset).trans ?_
  rw [waitReset_on hread hsame hpos]
  rfl

/-- The end of the use of the controller. -/
theorem terminate_on (h : Has card dev) (hfuel : 0 < fuel) (sdPort : Fin 3) :
    ∃ dev', Clk.terminate emulatorPort.clk fuel sdPort dev = some dev' ∧ On card dev' := by
  obtain ⟨dev₁, hreset, h₁, hread, hsame⟩ := reset_on (ackAll_has h)
  have h₂ := (parked_lasts card).perform [.write .clkenb 0, resetCon (sdResetNum sdPort) true]
    (by simp [TameOp, Tame, resetCon, resetConOn]) h₁
  refine ⟨_, ?_, h₂⟩
  simp only [Clk.terminate, Option.bind_eq_bind]
  rw [show perform emulatorPort.clk [.write .rintsts 0xFFFFFFFF, .write .ctrl ctrlReset] dev = dev₁
    from hreset, waitReset_on hread hsame hfuel]
  rfl

/-! ## A card in the slot -/

/-- What `NX_SDMMC_IdentifyCard` finds out about the emulator's card. -/
def emulatedCard : SdxcCard where
  rca := 0x12340000
  bHighCapacity := true
  cardType := .sdmem

theorem write_ctype_on (h : On card dev) (v : U32) :
    On card (emulatorPort.sdxc.write Reg.ctype v dev) :=
  (parked_lasts card).write (a := .ctype) h ⟨by decide, by decide, by decide⟩ v

theorem shortRsp_commandFlag : commandFlag.getLsbD CmdFlag.shortRsp = true := by decide

/-- The interface condition is echoed. -/
theorem checkVersion_on (h : On (some ⟨image, 0, false⟩) dev) (hfuel : 0 < fuel) (cmd : Command) :
    ∃ cmd' dev', emulatorPort.checkVersion fuel cmd dev = some (some (bit 30), cmd', dev') ∧
      On (some ⟨image, 0, false⟩) dev' := by
  have hreply : Replies (some ⟨image, 0, false⟩) 8 0x1AA (some [0x1AA])
      (some ⟨image, 0, false⟩) := by
    simp [Replies, SDCard.command]
  obtain ⟨cmd', dev', hsend, hdev', hstatus, hfirst⟩ :=
    sendCommandInternal_on h hfuel (cmd.fill sendIfCond 0x1AA commandFlag)
      (by decide : Sends sendIfCond commandFlag 8) hreply
  have hstatus : cmd'.status = 0 := hstatus
  have hpattern : cmd'.response 0 = 0x1AA := hfirst _ _ rfl shortRsp_commandFlag
  refine ⟨cmd', dev', ?_, hdev'⟩
  simp only [SdPort.checkVersion, hsend, Option.bind_eq_bind, Option.bind_some, hstatus, if_true,
    hpattern, ne_eq, not_true_eq_false, if_false]
  rfl

/-- The card says at once that it has powered up, and that it is a high capacity card. -/
theorem powerUp_on (h : On (some ⟨image, 0, false⟩) dev) (hfuel : 0 < fuel) (st : SdxcBootStatus)
    (cmd : Command) :
    ∃ cmd' dev', emulatorPort.powerUp fuel st (bit 30) cmd dev =
        some (.sdmem, true, cmd', dev') ∧
      (cmd'.response 0).getLsbD 30 = true ∧ On (some ⟨image, 1, false⟩) dev' := by
  have hannounced : Replies (some ⟨image, 0, false⟩) 55 st.rca.toNat (some [0x120])
      (some ⟨image, 0, true⟩) := by
    simp [Replies, SDCard.command, SDCard.r1]
  have hreply : Replies (some ⟨image, 0, true⟩) 41 (bit 30 ||| bit 29 ||| 0x00FC0000).toNat
      (some [0xC0FF8000]) (some ⟨image, 1, false⟩) := by
    simp [Replies, SDCard.command]
  obtain ⟨cmd₁, dev₁, hannounce, h₁, hstatus₁, -⟩ :=
    sendCommandInternal_on h hfuel (cmd.fill appCmd st.rca commandFlag)
      (by decide : Sends appCmd commandFlag 55) hannounced
  obtain ⟨cmd', dev', hsend, hdev', hstatus, hfirst⟩ :=
    sendCommandInternal_on h₁ hfuel
      (cmd₁.fill sdSendOpCond (bit 30 ||| bit 29 ||| 0x00FC0000) opCondFlag)
      (by decide : Sends sdSendOpCond opCondFlag 41) hreply
  have hstatus₁ : cmd₁.status = 0 := hstatus₁
  have hstatus : cmd'.status = 0 := hstatus
  have hocr : cmd'.response 0 = 0xC0FF8000 :=
    hfirst _ _ rfl (by decide : opCondFlag.getLsbD CmdFlag.shortRsp = true)
  have hup : cmd'.poweredUp = true := by
    rw [Command.poweredUp, hocr]
    decide
  have hwait : emulatorPort.waitSdPowerUp fuel st timeoutIdentify cmd' dev' =
      some (true, cmd', dev') := by
    rw [SdPort.waitSdPowerUp.eq_def]
    exact if_pos hup
  refine ⟨cmd', dev', ?_, ?_, hdev'⟩
  · simp only [SdPort.powerUp, hannounce, Option.bind_eq_bind, Option.bind_some, hstatus₁, if_true,
      SdPort.powerUpSd, hsend, hstatus, ne_eq, not_true_eq_false, if_false, hwait]
    rfl
  · rw [hocr]
    decide

/-- The card goes to the stand-by state, under the address that it gives. -/
theorem assignRca_on (h : On (some ⟨image, 1, false⟩) dev) (hfuel : 0 < fuel) (card : SdxcCard)
    (cmd : Command) :
    ∃ dev', emulatorPort.assignRca fuel .sdmem card cmd dev =
        some (true, { card with rca := 0x12340000, cardType := .sdmem }, dev') ∧
      On (some ⟨image, 3, false⟩) dev' := by
  have hcid : Replies (some ⟨image, 1, false⟩) 2 0
      (some (1 :: (SDCard.long SDCard.cid).tail)) (some ⟨image, 2, false⟩) := by
    simp only [Replies, SDCard.command, Bool.false_eq_true, false_and, if_false]
    exact ⟨rfl, rfl, rfl⟩
  have hrca : Replies (some ⟨image, 2, false⟩) 3 0 (some [0x12340700])
      (some ⟨image, 3, false⟩) := by
    simp [Replies, SDCard.command, SDCard.rca]
  obtain ⟨cmd₁, dev₁, hsend₁, h₁, hstatus₁, -⟩ :=
    sendCommand_on h hfuel card.toSdxcBootStatus (cmd.fill allSendCid 0 longRspFlag)
      (by decide : Sends allSendCid longRspFlag 2) hcid
  obtain ⟨cmd₂, dev', hsend₂, hdev', hstatus₂, hfirst⟩ :=
    sendCommand_on h₁ hfuel card.toSdxcBootStatus (cmd₁.fill sendRelativeAddr 0 commandFlag)
      (by decide : Sends sendRelativeAddr commandFlag 3) hrca
  have hresponse : cmd₂.response 0 &&& 0xFFFF0000 = 0x12340000 := by
    rw [show cmd₂.response 0 = 0x12340700 from hfirst shortRsp_commandFlag]
    decide
  refine ⟨dev', ?_, hdev'⟩
  simp only [SdPort.assignRca, hsend₁, Option.bind_eq_bind, Option.bind_some, hstatus₁, ne_eq,
    not_true_eq_false, if_false, if_true, SdPort.givenRca, hsend₂, hstatus₂, hresponse]
  rfl

/-- **Identification**, of a card in whatever state. -/
theorem identifyCard_on {c : SDCard} (h : On (some c) dev) (nxDebug : Bool) (mode : OpMode)
    {srcFreq : U32} (hsrc : 800000 ≤ srcFreq.toNat) (hfuel : 64 ≤ fuel) (card : SdxcCard) :
    ∃ dev', emulatorPort.identifyCard nxDebug mode fuel srcFreq card dev =
        some (true, emulatedCard, dev') ∧
      On (some ⟨c.image, 3, false⟩) dev' := by
  have hpos : 0 < fuel := Nat.lt_of_lt_of_le (by decide) hfuel
  obtain ⟨dev₁, hclock, h₁⟩ :=
    (parked_lasts _).setClock h nxDebug mode 400000 (by decide) hsrc hfuel true
  have hidle : Replies (some c) 0 0 (some [0]) (some ⟨c.image, 0, false⟩) := by
    simp [Replies, SDCard.command]
  obtain ⟨cmd₂, dev₂, hreset, h₂, -, -⟩ :=
    sendCommand_on (write_ctype_on h₁ 0) hpos ⟨0, card.bHighCapacity⟩
      (newCommand.fill goIdleState 0 goIdleFlag) (by decide : Sends goIdleState goIdleFlag 0) hidle
  obtain ⟨cmd₃, dev₃, hversion, h₃⟩ := checkVersion_on h₂ hpos cmd₂
  obtain ⟨cmd₄, dev₄, hup, hhigh, h₄⟩ := powerUp_on h₃ hpos ⟨0, card.bHighCapacity⟩ cmd₃
  obtain ⟨dev', hassign, hdev'⟩ := assignRca_on h₄ hpos
    { card with rca := 0, bHighCapacity := true } cmd₄
  refine ⟨dev', ?_, hdev'⟩
  simp only [SdPort.identifyCard, hclock, Option.bind_eq_bind, Option.bind_some, Bool.not_true,
    Bool.false_eq_true, if_false, hreset, hversion, hup, hhigh]
  exact hassign

/-! ### Selection -/

theorem selectCard_on (h : On (some ⟨image, 3, false⟩) dev) (hfuel : 0 < fuel) :
    ∃ dev', emulatorPort.selectCard fuel emulatedCard.toSdxcBootStatus dev = some (true, dev') ∧
      On (some ⟨image, 4, false⟩) dev' := by
  have hreply : Replies (some ⟨image, 3, false⟩) 7 0x12340000 (some [0x700])
      (some ⟨image, 4, false⟩) := by
    simp [Replies, SDCard.command, SDCard.r1, SDCard.rca]
  obtain ⟨cmd, dev', hsend, hdev', hstatus, -⟩ :=
    sendCommand_on h hfuel emulatedCard.toSdxcBootStatus
      (SdPort.selectCardCommand emulatedCard.toSdxcBootStatus)
      (by decide : Sends selectCardIdx commandFlag 7) hreply
  refine ⟨dev', ?_, hdev'⟩
  simp only [SdPort.selectCard, hsend, Option.map_some, hstatus, decide_true]

/-- The announcement of an application command, which the next command takes away again. -/
theorem appCommand_on (h : On (some ⟨image, 4, false⟩) dev) (hfuel : 0 < fuel) :
    ∃ cmd dev', sendCommandInternal emulatorPort.sdxc fuel
        (appCommand emulatedCard.toSdxcBootStatus) dev = some (cmd, dev') ∧
      cmd.status = 0 ∧ On (some ⟨image, 4, true⟩) dev' := by
  have hreply : Replies (some ⟨image, 4, false⟩) 55 0x12340000 (some [0x920])
      (some ⟨image, 4, true⟩) := by
    simp [Replies, SDCard.command, SDCard.r1]
  obtain ⟨cmd, dev', hsend, hdev', hstatus, -⟩ :=
    sendCommandInternal_on h hfuel (appCommand emulatedCard.toSdxcBootStatus)
      (by decide : Sends appCmd commandFlag 55) hreply
  exact ⟨cmd, dev', hsend, hstatus, hdev'⟩

/-- The emulator does not know `SET_CLR_CARD_DETECT`. -/
theorem setCardDetectPullUp_on (h : On (some ⟨image, 4, false⟩) dev) (hfuel : 0 < fuel) :
    ∃ dev', emulatorPort.setCardDetectPullUp fuel emulatedCard.toSdxcBootStatus false dev =
        some (true, dev') ∧
      On (some ⟨image, 4, false⟩) dev' := by
  have hunknown : Replies (some ⟨image, 4, true⟩) 42 0 none (some ⟨image, 4, false⟩) := by
    simp [Replies, SDCard.command]
  have hasked : Replies (some ⟨image, 4, false⟩) 13 0x12340000 (some [0x900])
      (some ⟨image, 4, false⟩) := by
    simp [Replies, SDCard.command, SDCard.r1]
  obtain ⟨cmd₁, dev₁, hannounce, hstatus, h₁⟩ := appCommand_on h hfuel
  obtain ⟨cmd, dev', hsend, hdev', -⟩ :=
    sendCommand_timeout h₁ hfuel emulatedCard.toSdxcBootStatus (SdPort.cardDetectCommand false)
      (by decide : Sends setClrCardDetect commandFlag 42) hunknown hasked
  refine ⟨dev', ?_, hdev'⟩
  simp only [SdPort.setCardDetectPullUp, sendAppCommand, hannounce, Option.bind_eq_bind,
    Option.bind_some, hstatus, if_true, hsend]
  rfl

theorem setBlockLength_on (h : On (some ⟨image, 4, false⟩) dev) (hfuel : 0 < fuel) :
    ∃ dev', emulatorPort.setBlockLength fuel emulatedCard.toSdxcBootStatus blockLength dev =
        some (true, dev') ∧
      On (some ⟨image, 4, false⟩) dev' := by
  have hreply : Replies (some ⟨image, 4, false⟩) 16 512 (some [0x900])
      (some ⟨image, 4, false⟩) := by
    simp [Replies, SDCard.command, SDCard.r1]
  obtain ⟨cmd, dev', hsend, hdev', hstatus, -⟩ :=
    sendCommand_on h hfuel emulatedCard.toSdxcBootStatus (SdPort.blockLengthCommand blockLength)
      (by decide : Sends setBlocklen commandFlag 16) hreply
  refine ⟨_, ?_, (parked_lasts _).write (a := .blksiz) hdev'
    ⟨by decide, by decide, by decide⟩ blockLength⟩
  simp only [SdPort.setBlockLength, hsend, Option.bind_eq_bind, Option.bind_some, hstatus, ne_eq,
    not_true_eq_false, if_false]
  rfl

theorem setBusWidth_on (h : On (some ⟨image, 4, false⟩) dev) (hfuel : 0 < fuel) :
    ∃ dev', setBusWidth emulatorPort.sdxc fuel emulatedCard 4 dev = some (true, dev') ∧
      On (some ⟨image, 4, false⟩) dev' := by
  have hreply : Replies (some ⟨image, 4, true⟩) 6 2 (some [0x900]) (some ⟨image, 4, false⟩) := by
    simp [Replies, SDCard.command, SDCard.r1]
  obtain ⟨cmd₁, dev₁, hannounce, hstatus, h₁⟩ := appCommand_on h hfuel
  obtain ⟨cmd, dev', hsend, hdev', -⟩ :=
    sendCommand_on h₁ hfuel emulatedCard.toSdxcBootStatus (sdBusWidth 4)
      (by decide : Sends setBusWidthCmd commandFlag 6) hreply
  refine ⟨_, ?_, write_ctype_on hdev' ((4 : U32) >>> 2)⟩
  have hsd : emulatedCard.cardType = .sdmem := rfl
  simp only [setBusWidth, sendBusWidth, hsd, if_true, sendAppCommand, hannounce,
    Option.bind_eq_bind, Option.bind_some, hstatus, hsend]
  rfl

/-- A card in the stand-by state is brought to the transfer state. -/
theorem setUpCard_on (h : On (some ⟨image, 3, false⟩) dev) (nxDebug : Bool) (mode : OpMode)
    {srcFreq : U32} (hsrc : 50000000 ≤ srcFreq.toNat) (hfuel : 64 ≤ fuel) :
    ∃ dev', emulatorPort.setUpCard nxDebug mode fuel srcFreq emulatedCard dev =
        some (true, dev') ∧
      On (some ⟨image, 4, false⟩) dev' := by
  have hpos : 0 < fuel := Nat.lt_of_lt_of_le (by decide) hfuel
  obtain ⟨dev₁, hclock, h₁⟩ :=
    (parked_lasts _).setClock h nxDebug mode 25000000 (by decide) hsrc hfuel true
  obtain ⟨dev₂, hselect, h₂⟩ := selectCard_on h₁ hpos
  obtain ⟨dev₃, hdetect, h₃⟩ := setCardDetectPullUp_on h₂ hpos
  obtain ⟨dev₄, hlength, h₄⟩ := setBlockLength_on h₃ hpos
  obtain ⟨dev₅, hwidth, h₅⟩ := setBusWidth_on h₄ hpos
  have hsd : emulatedCard.cardType = .sdmem := rfl
  refine ⟨dev₅, ?_, h₅⟩
  simp only [SdPort.setUpCard, hclock, Option.bind_eq_bind, Option.bind_some, Bool.not_true,
    Bool.false_eq_true, if_false, hselect, hsd, if_true, hdetect, Option.map_some, hlength, hwidth]
  rfl

/-! ## Opening -/

theorem sdmmcOpen_on {c : SDCard} (h : On (some c) dev) (nxDebug : Bool) (mode : OpMode)
    {srcFreq : U32} (hsrc : 50000000 ≤ srcFreq.toNat) (hfuel : 64 ≤ fuel) (card : SdxcCard) :
    ∃ dev', emulatorPort.sdmmcOpen nxDebug mode fuel srcFreq card dev =
        some (true, emulatedCard, dev') ∧
      On (some ⟨c.image, 4, false⟩) dev' := by
  obtain ⟨dev₁, hidentify, h₁⟩ :=
    identifyCard_on h nxDebug mode (Nat.le_trans (by decide) hsrc) hfuel card
  obtain ⟨dev', hsetUp, hdev'⟩ := setUpCard_on h₁ nxDebug mode hsrc hfuel
  refine ⟨dev', ?_, hdev'⟩
  simp only [SdPort.sdmmcOpen, hidentify, Option.bind_eq_bind, Option.bind_some, Bool.not_true,
    Bool.false_eq_true, if_false, hsetUp]
  rfl

theorem sdmmcClose_on (h : Has card dev) (nxDebug : Bool) (mode : OpMode) {srcFreq : U32}
    (hsrc : 800000 ≤ srcFreq.toNat) (hfuel : 64 ≤ fuel) :
    ∃ dev', emulatorPort.sdmmcClose nxDebug mode fuel srcFreq dev = some dev' ∧ Has card dev' := by
  obtain ⟨dev', hclock, hdev'⟩ :=
    (has_lasts card).setClock h nxDebug mode 400000 (by decide) hsrc hfuel false
  refine ⟨dev', ?_, hdev'⟩
  rw [SdPort.sdmmcClose, hclock]
  rfl

theorem deliver_card {data : List Byte} (h : s.deliver data = some s') : s'.card = s.card := by
  rw [Dwmmc.deliver] at h
  split_ifs at h
  · exact (idmac_eq h).1
  · obtain rfl := Option.some.inj h
    rw [updateDataIrqs_eq]

/-- No command takes a card out of its slot, or puts one in. -/
theorem execute_card (h : s.execute cmd = some s') : s'.card = none ↔ s.card = none := by
  by_cases hclock : cmd.testBit 21 = true
  · rw [execute, if_pos hclock] at h
    obtain rfl := Option.some.inj h
    rfl
  rw [execute, if_neg hclock] at h
  cases hcard : s.card with
  | none =>
    simp only [hcard] at h
    obtain rfl := Option.some.inj h
    simp
  | some c =>
    simp only [hcard] at h
    rcases hres : c.command (cmd &&& 0x3F) ((s.regs rCmdarg).getD 0) with
      ⟨_ | resp, _ | _ | _, c'⟩ <;> simp only [hres] at h
    case none.none | none.some.bytes | none.some.read | some.none =>
      obtain rfl := Option.some.inj h
      simp
    case some.some.bytes | some.some.read => simp [deliver_card h]

theorem step_card {a : GuestAction} (h : step s a = some s') : s'.card = none ↔ s.card = none := by
  cases a with
  | read off =>
    obtain rfl := Option.some.inj h
    simp only [Dwmmc.read]
    split_ifs <;> first | rfl | rw [(popData_keeps s).card]
  | compute ram =>
    obtain rfl := Option.some.inj h
    rfl
  | write off val =>
    rw [Dwmmc.step, Dwmmc.write] at h
    split_ifs at h
    · obtain rfl := Option.some.inj h
      rw [updateDataIrqs_eq]
    · obtain rfl := Option.some.inj h
      simp only [writeCtrl]
      split_ifs <;> rfl
    · obtain rfl := Option.some.inj h
      rfl
    · rw [writeCmd] at h
      split_ifs at h
      · exact (execute_card h).trans Iff.rfl
      · obtain rfl := Option.some.inj h
        rfl
    · obtain rfl := Option.some.inj h
      rfl

theorem has_of_reachable (hreach : Reachable image s) (rest : ExtReg → U32) :
    ∃ c : SDCard, c.image = image ∧ Has (some c) (some s, rest) := by
  obtain ⟨ram, as, hrun⟩ := hreach
  have hcard : s.card ≠ none := Lts.run_invariant (P := fun s => s.card ≠ none)
    (fun _ _ _ hs hstep hnone => hs ((step_card hstep).1 hnone)) (Option.some_ne_none _) hrun
  obtain ⟨c, hc⟩ := Option.ne_none_iff_exists'.1 hcard
  have hok := Reachable.ok ⟨ram, as, hrun⟩
  exact ⟨c, hok.image c hc, s, rfl, hok.bits, hc⟩

/-- **Opening a card.** From every state that a guest can bring the emulator to, initialization and
opening succeed. They find the card out and leave it in the transfer state, the FIFO empty and the
DMA disabled, which is what reading its sectors takes. -/
theorem init_open (hreach : Reachable image s) (rest : ExtReg → U32) (nxDebug : Bool)
    (mode : OpMode) {srcFreq : U32} (hsrc : 50000000 ≤ srcFreq.toNat) (hfuel : 64 ≤ fuel)
    (sdPort : Fin 3) (card : SdxcCard) :
    ∃ dev₁ s' rest', Clk.init emulatorPort.clk mode fuel srcFreq sdPort (some s, rest) = some dev₁ ∧
      emulatorPort.sdmmcOpen nxDebug mode fuel srcFreq card dev₁ =
        some (true, emulatedCard, some s', rest') ∧
      Idle image s' ∧ s'.fifoEmpty := by
  obtain ⟨c, rfl, hhas⟩ := has_of_reachable hreach rest
  obtain ⟨dev₁, hinit, h₁⟩ := init_on hhas mode hsrc hfuel sdPort
  obtain ⟨⟨_, rest'⟩, hopen, s', rfl, hs'⟩ := sdmmcOpen_on h₁ nxDebug mode hsrc hfuel card
  exact ⟨dev₁, s', rest', hinit, hopen, ⟨hs'.bits, ⟨_, hs'.card, rfl, rfl⟩, hs'.dma⟩,
    fifoEmpty_of_rest hs'.rest⟩

/-- The DMA that starves a read does not outlive the initialization. -/
theorem init_open_dma : ∃ s dev₁ s' rest', Reachable [] s ∧ s.dmaEnabled = true ∧
    Clk.init emulatorPort.clk .aarch32 64 800000000 2 (some s, fun _ => 0) = some dev₁ ∧
    emulatorPort.sdmmcOpen true .aarch32 64 800000000 ⟨⟨0, false⟩, .unknown⟩ dev₁ =
      some (true, emulatedCard, some s', rest') ∧
    Idle [] s' ∧ s'.fifoEmpty := by
  obtain ⟨s₀, hselect, hcard₀, hrest₀, hram₀, -⟩ := selectCard_runs []
  have hreach₀ : Reachable [] s₀ := ⟨_, _, hselect⟩
  obtain ⟨s, henable, hs⟩ := enableDma_runs hreach₀.ok.bits hcard₀ hrest₀ hram₀
  have hrun : Lts.run step (Dwmmc.init (some { image := [] }) fun _ => 0)
      (Sdmmc.selectCard ++ enableDma) = some s := by
    rw [Lts.run_append hselect]
    exact henable
  obtain ⟨dev₁, s', rest', h⟩ := init_open ⟨_, _, hrun⟩ (fun _ => 0) true .aarch32
    (by decide : 50000000 ≤ (800000000 : U32).toNat) (Nat.le_refl 64) 2 ⟨⟨0, false⟩, .unknown⟩
  exact ⟨s, dev₁, s', rest', ⟨_, _, hrun⟩, hs.dma, h⟩

/-! ## An empty slot -/

theorem replies_empty (idx arg : ℕ) : Replies none idx arg none none := ⟨rfl, rfl⟩

theorem powerUp_empty (h : On none dev) (hfuel : 0 < fuel) (st : SdxcBootStatus) (hcs : U32)
    (cmd : Command) :
    ∃ cmd' dev', emulatorPort.powerUp fuel st hcs cmd dev = some (.mmc, false, cmd', dev') ∧
      On none dev' := by
  obtain ⟨cmd₁, dev₁, hsend₁, h₁, hstatus₁, -⟩ :=
    sendCommandInternal_on h hfuel (cmd.fill appCmd st.rca commandFlag)
      (by decide : Sends appCmd commandFlag 55) (replies_empty _ _)
  obtain ⟨cmd₂, dev₂, hsend₂, h₂, -⟩ :=
    sendCommand_timeout h₁ hfuel st (cmd₁.fill goIdleState 0 goIdleFlag)
      (by decide : Sends goIdleState goIdleFlag 0) (replies_empty _ _) (replies_empty _ _)
  obtain ⟨cmd₃, dev₃, hsend₃, h₃, hstatus₃⟩ :=
    sendCommand_timeout h₂ hfuel st (cmd₂.fill sendOpCond 0x40FC0000 opCondFlag)
      (by decide : Sends sendOpCond opCondFlag 1) (replies_empty _ _) (replies_empty _ _)
  have hstatus₁ : cmd₁.status ≠ 0 := by
    rw [hstatus₁]
    decide
  have hstatus₃ : cmd₃.status ≠ 0 := by
    rw [hstatus₃]
    decide
  have hwait : emulatorPort.waitMmcPowerUp fuel st timeoutIdentify cmd₂ dev₂ =
      some (false, cmd₃, dev₃) := by
    rw [SdPort.waitMmcPowerUp.eq_def]
    simp only [hsend₃]
    exact if_pos hstatus₃
  refine ⟨cmd₃, dev₃, ?_, h₃⟩
  simp only [SdPort.powerUp, hsend₁, Option.bind_eq_bind, Option.bind_some, hstatus₁, if_false,
    SdPort.powerUpMmc, hsend₂, hwait]
  rfl

theorem sdmmcOpen_empty (h : On none dev) (nxDebug : Bool) (mode : OpMode) {srcFreq : U32}
    (hsrc : 800000 ≤ srcFreq.toNat) (hfuel : 64 ≤ fuel) (card : SdxcCard) :
    ∃ dev', emulatorPort.sdmmcOpen nxDebug mode fuel srcFreq card dev =
        some (false, { card with rca := 0 }, dev') ∧ On none dev' := by
  have hpos : 0 < fuel := Nat.lt_of_lt_of_le (by decide) hfuel
  obtain ⟨dev₁, hclock, h₁⟩ :=
    (parked_lasts _).setClock h nxDebug mode 400000 (by decide) hsrc hfuel true
  obtain ⟨cmd₂, dev₂, hreset, h₂, -⟩ :=
    sendCommand_timeout (write_ctype_on h₁ 0) hpos ⟨0, card.bHighCapacity⟩
      (newCommand.fill goIdleState 0 goIdleFlag) (by decide : Sends goIdleState goIdleFlag 0)
      (replies_empty _ _) (replies_empty _ _)
  obtain ⟨cmd₃, dev₃, hversion, h₃, hstatus₃, -⟩ :=
    sendCommandInternal_on h₂ hpos (cmd₂.fill sendIfCond 0x1AA commandFlag)
      (by decide : Sends sendIfCond commandFlag 8) (replies_empty _ _)
  obtain ⟨cmd₄, dev', hup, hdev'⟩ := powerUp_empty h₃ hpos ⟨0, card.bHighCapacity⟩ 0 cmd₃
  have hstatus₃ : cmd₃.status ≠ 0 := by
    rw [hstatus₃]
    decide
  refine ⟨dev', ?_, hdev'⟩
  simp only [SdPort.sdmmcOpen, SdPort.identifyCard, hclock, Option.bind_eq_bind, Option.bind_some,
    Bool.not_true, Bool.false_eq_true, if_false, hreset, SdPort.checkVersion, hversion, hstatus₃,
    Option.pure_def, hup, Bool.not_false, if_true]

/-- **No card.** Whatever a guest did to a controller with an empty slot, opening a card fails. -/
theorem init_open_empty {ram : ℕ → Byte} {as : List GuestAction}
    (hrun : Lts.run step (Dwmmc.init none ram) as = some s) (rest : ExtReg → U32) (nxDebug : Bool)
    (mode : OpMode) {srcFreq : U32} (hsrc : 50000000 ≤ srcFreq.toNat) (hfuel : 64 ≤ fuel)
    (sdPort : Fin 3) (card : SdxcCard) :
    ∃ dev₁ dev', Clk.init emulatorPort.clk mode fuel srcFreq sdPort (some s, rest) = some dev₁ ∧
      emulatorPort.sdmmcOpen nxDebug mode fuel srcFreq card dev₁ =
        some (false, { card with rca := 0 }, dev') := by
  have hempty : IrqBits s.rintsts ∧ s.card = none := by
    refine Lts.run_invariant (P := fun s => Ok [] s ∧ s.card = none)
      (fun _ _ _ hs hstep => ⟨hs.1.step hstep, (step_card hstep).2 hs.2⟩) ⟨⟨?_, ?_⟩, rfl⟩ hrun
      |>.imp Ok.bits id
    · exact fun i hi => absurd hi (by rw [Dwmmc.init, Nat.zero_testBit]; exact Bool.false_ne_true)
    · exact fun card hcard => by cases hcard
  have hhas : Has none (some s, rest) := ⟨s, rfl, hempty⟩
  obtain ⟨dev₁, hinit, h₁⟩ := init_on hhas mode hsrc hfuel sdPort
  obtain ⟨dev', hopen, -⟩ :=
    sdmmcOpen_empty h₁ nxDebug mode (Nat.le_trans (by decide) hsrc) hfuel card
  exact ⟨dev₁, dev', hinit, hopen⟩

/-- A board that has just been switched on, without a card. -/
theorem init_open_empty_new : ∃ dev₁ dev', Clk.init emulatorPort.clk .aarch64 64 50000000 0
      (some (Dwmmc.init none fun _ => 0), fun _ => 0) = some dev₁ ∧
    emulatorPort.sdmmcOpen false .aarch64 64 50000000 ⟨⟨1, true⟩, .sdmem⟩ dev₁ =
      some (false, ⟨⟨0, true⟩, .sdmem⟩, dev') := by
  have hrun : Lts.run step (Dwmmc.init none fun _ => 0) [] =
      some (Dwmmc.init none fun _ => 0) := rfl
  exact init_open_empty hrun (fun _ => 0) false .aarch64 (Nat.le_refl _) (Nat.le_refl 64) 0
    ⟨⟨1, true⟩, .sdmem⟩

end Gec6818Bl1.Sdmmc
