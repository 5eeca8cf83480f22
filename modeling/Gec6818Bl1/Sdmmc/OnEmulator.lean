import Gec6818Bl1.Boot.SdmmcBoot
import Gec6818Bl1.Emulator.Transfer
import Gec6818Bl1.Sdmmc.SectorData

/-!
# The driver on the emulator

`NX_SDMMC_ReadSectors` against the controller of the emulator: two state machines, written apart.
Every command is answered before the driver looks, so that it waits for none. The data is another
matter: the emulator raises `DTO` before the last words are read and `RXDR` again for as long as
there are words, and the driver clears both as it goes. What holds throughout is that the words
read and the bytes still in the FIFO make up the data, and that `RXDR` is raised while there is
some left (`Streams`).

**Reads from the emulator.** From a state with the card in the transfer state, the FIFO empty and
the internal DMA disabled, any sequence of reads stores the sectors it asks for and leaves such a
state (`readAll_emulator`). With the DMA enabled the data never reaches the FIFO, and the driver
polls it for ever (`readSectors_dmaIdle`).
-/

namespace Gec6818Bl1.Sdmmc

open ByteMem Polling Emulator Emulator.Dwmmc

/-- The registers of the emulator's controller; `none` after an exception. -/
def emulator : SdxcBus (Option Dwmmc) where
  read reg dev :=
    match dev with
    | none => (0, none)
    | some s => (BitVec.ofNat 32 (s.read reg).1, some (s.read reg).2)
  write reg val dev := dev.bind fun s => s.write reg val.toNat

variable {image : List Byte} {s s' : Dwmmc}

theorem read_rintsts (s : Dwmmc) :
    emulator.read Reg.rintsts (some s) = (BitVec.ofNat 32 s.rintsts, some s) := rfl

theorem read_status (s : Dwmmc) :
    emulator.read Reg.status (some s) = (BitVec.ofNat 32 s.status, some s) := rfl

theorem read_cmd (s : Dwmmc) :
    emulator.read Reg.cmd (some s) = (BitVec.ofNat 32 ((s.regs rCmd).getD 0), some s) := rfl

theorem read_resp0 (s : Dwmmc) :
    emulator.read (Reg.resp 0) (some s) = (BitVec.ofNat 32 ((s.regs rResp0).getD 0), some s) := rfl

theorem write_rintsts (s : Dwmmc) (val : U32) :
    emulator.write Reg.rintsts val (some s) = some (s.ack val.toNat) := rfl

theorem getLsbD_ofNat {r i : ℕ} (hi : i < 32) : (BitVec.ofNat 32 r).getLsbD i = r.testBit i := by
  rw [BitVec.getLsbD_ofNat, decide_eq_true hi, Bool.true_and]

/-- A bit of `RINTSTS` that the emulator does not raise reads as `0`. -/
theorem not_raised (h : IrqBits s.rintsts) {i : ℕ}
    (hi : i < 32 ∧ ¬(i = 2 ∨ i = 3 ∨ i = 5 ∨ i = 8 ∨ i = 14)) :
    (BitVec.ofNat 32 s.rintsts).getLsbD i = false := by
  rw [getLsbD_ofNat hi.1, h.not_raised hi.2]

/-! ## The status register -/

/-- `STATUS` with `n` words in the FIFO. -/
def statusOf (n : ℕ) : ℕ := (n <<< 17) ||| (if n ≠ 0 then 0 else 1 <<< 2) ||| (1 <<< 8)

theorem statusOf_bits : ∀ n < 33,
    (BitVec.ofNat 32 (statusOf n) &&& Status.fifoCount) >>> 17 = BitVec.ofNat 32 n ∧
    (BitVec.ofNat 32 (statusOf n)).getLsbD Status.fifoEmpty = decide (n = 0) ∧
    (BitVec.ofNat 32 (statusOf n)).getLsbD Status.dataBusy = false ∧
    (BitVec.ofNat 32 (statusOf n)).getLsbD Status.fsmBusy = false := by
  decide

/-- The words in the FIFO, as far as `STATUS` counts them. -/
def window (s : Dwmmc) : ℕ := min s.remaining Dwmmc.fifoWords

theorem window_lt (s : Dwmmc) : window s < 33 := Nat.lt_succ_of_le (Nat.min_le_right _ _)

theorem fifoSize_emulator (s : Dwmmc) :
    fifoSize emulator (some s) = BitVec.ofNat 32 (window s) :=
  (statusOf_bits _ (window_lt s)).1

theorem status_fifoEmpty (s : Dwmmc) :
    (BitVec.ofNat 32 s.status).getLsbD Status.fifoEmpty = decide (window s = 0) :=
  (statusOf_bits _ (window_lt s)).2.1

theorem waitNotBusy_emulator (s : Dwmmc) : waitNotBusy emulator (some s) = .inr (some s) := by
  obtain ⟨-, -, hdata, hfsm⟩ := statusOf_bits _ (window_lt s)
  show (if (BitVec.ofNat 32 s.status).getLsbD _ || (BitVec.ofNat 32 s.status).getLsbD _ then _
    else _) = _
  have hstatus : s.status = statusOf (window s) := rfl
  rw [hstatus, hdata, hfsm]
  rfl

/-! ## Commands -/

/-- The word that starts a command. -/
def Command.word (pCommand : Command) : U32 :=
  (pCommand.cmdidx &&& 0xFF) ||| pCommand.flag ||| bit CmdFlag.useHoldReg

/-- It starts a command with a short response, and asks for nothing else to be waited for. -/
structure Command.Short (pCommand : Command) : Prop where
  start : pCommand.word.toNat.testBit 31 = true
  clock : ¬pCommand.word.toNat.testBit 21 = true
  shortRsp : pCommand.flag.getLsbD CmdFlag.shortRsp = true
  longRsp : pCommand.flag.getLsbD CmdFlag.longRsp = false
  not_busy : (pCommand.cmdidx >>> 8) &&& 0xFF ≠ rspIdxR1b

instance (pCommand : Command) : Decidable pCommand.Short :=
  decidable_of_iff
    (pCommand.word.toNat.testBit 31 = true ∧ ¬pCommand.word.toNat.testBit 21 = true ∧
      pCommand.flag.getLsbD CmdFlag.shortRsp = true ∧
      pCommand.flag.getLsbD CmdFlag.longRsp = false ∧
      (pCommand.cmdidx >>> 8) &&& 0xFF ≠ rspIdxR1b)
    ⟨fun h => ⟨h.1, h.2.1, h.2.2.1, h.2.2.2.1, h.2.2.2.2⟩,
      fun h => ⟨h.start, h.clock, h.shortRsp, h.longRsp, h.not_busy⟩⟩

/-- The index and the flags alone decide it. -/
theorem Command.Short.congr {c c' : Command} (h : c.Short) (hidx : c'.cmdidx = c.cmdidx)
    (hflag : c'.flag = c.flag) : c'.Short := by
  obtain ⟨idx, arg, flag, status, response⟩ := c
  obtain ⟨idx', arg', flag', status', response'⟩ := c'
  obtain rfl : idx' = idx := hidx
  obtain rfl : flag' = flag := hflag
  exact ⟨h.start, h.clock, h.shortRsp, h.longRsp, h.not_busy⟩

/-- What the driver does to the controller before a command is executed: it acknowledges every
interrupt and writes `CMDARG` and `CMD`. -/
def issue (s : Dwmmc) (arg cmd : ℕ) : Dwmmc :=
  let s := (s.ack 0xFFFFFFFF).ack (1 <<< 12)
  { s with
    regs := Function.update (Function.update s.regs rCmdarg (some arg)) rCmd
      (some (cmd.ldiff (1 <<< 31))) }

theorem issue_card (s : Dwmmc) (arg cmd : ℕ) : (issue s arg cmd).card = s.card := by
  show ((s.ack 0xFFFFFFFF).ack (1 <<< 12)).card = s.card
  rw [ack_card, ack_card]

theorem issue_regs (s : Dwmmc) (arg cmd : ℕ) :
    (issue s arg cmd).regs = Function.update (Function.update s.regs rCmdarg (some arg)) rCmd
      (some (cmd.ldiff (1 <<< 31))) := by
  show Function.update (Function.update ((s.ack 0xFFFFFFFF).ack (1 <<< 12)).regs _ _) _ _ = _
  rw [ack_regs, ack_regs]

theorem issue_regs_of_ne (s : Dwmmc) (arg cmd : ℕ) {off : ℕ} (harg : off ≠ rCmdarg)
    (hcmd : off ≠ rCmd) : (issue s arg cmd).regs off = s.regs off := by
  rw [issue_regs, Function.update_of_ne hcmd, Function.update_of_ne harg]

theorem issue_dmaEnabled (s : Dwmmc) (arg cmd : ℕ) :
    (issue s arg cmd).dmaEnabled = s.dmaEnabled :=
  dmaEnabled_congr (issue_regs_of_ne s arg cmd (by decide) (by decide))
    (issue_regs_of_ne s arg cmd (by decide) (by decide))

theorem issue_idle (h : Idle image s) (arg cmd : ℕ) : Idle image (issue s arg cmd) := by
  refine ⟨(h.bits.ack _).ack _, ?_, ?_⟩
  · rw [Holds, issue_card]
    exact h.holds
  · rw [issue_dmaEnabled]
    exact h.dma

theorem issue_rto (s : Dwmmc) (arg cmd : ℕ) : (issue s arg cmd).rintsts.testBit 8 = false := by
  show ((s.ack 0xFFFFFFFF).ack (1 <<< 12)).rintsts.testBit 8 = false
  have hall : (0xFFFFFFFF : ℕ).testBit 8 = true := by decide
  rw [ack_testBit _ _ (by decide), ack_testBit _ _ (by decide), hall, Bool.not_true, Bool.and_false]
  rfl

/-- The controller takes the command at once. -/
theorem issueCommand_emulator {pCommand : Command} (left : ℕ)
    (hstart : pCommand.word.toNat.testBit 31 = true)
    (hexec : (issue s pCommand.arg.toNat pCommand.word.toNat).execute pCommand.word.toNat = some s')
    (h : Answered image (issue s pCommand.arg.toNat pCommand.word.toNat) s') :
    issueCommand emulator pCommand (left, some (s.ack 0xFFFFFFFF)) = .inr (true, some s') := by
  have hwrite : emulator.write Reg.cmd pCommand.word (emulator.write Reg.cmdarg pCommand.arg
      (emulator.write Reg.rintsts (bit Rintsts.hle) (some (s.ack 0xFFFFFFFF)))) = some s' := by
    refine Eq.trans ?_ hexec
    exact if_pos hstart
  have hcmd : ((s'.regs rCmd).getD 0).testBit 31 = false := by
    rw [h.regs _ (by decide) (by decide), issue_regs, Function.update_self, Option.getD_some,
      Nat.testBit_ldiff, testBit_one_shiftLeft]
    exact Bool.and_false _
  have hwait : waitStart emulator left (some s') = (some left, some s') := by
    rw [waitStart.eq_def]
    simp only [read_cmd, CmdFlag.startCmd, getLsbD_ofNat (show 31 < 32 by decide), hcmd,
      Bool.false_eq_true, if_false]
  have hhle := not_raised (i := Rintsts.hle) h.bits (by decide)
  rw [Command.word] at hwrite
  simp only [issueCommand, hwrite, hwait, read_rintsts, hhle, Bool.false_eq_true, if_false]

theorem responseError_emulator (hbits : IrqBits s.rintsts) (hrto : s.rintsts.testBit 8 = false) :
    responseError emulator (some s) = (0, some s) := by
  have hrcrc := not_raised (i := Rintsts.rcrc) hbits (by decide)
  have hre := not_raised (i := Rintsts.re) hbits (by decide)
  have hrto' : (BitVec.ofNat 32 s.rintsts).getLsbD Rintsts.rto = false :=
    (getLsbD_ofNat (by decide)).trans hrto
  simp only [responseError, read_rintsts, hrcrc, hre, hrto', Bool.or_false, Bool.false_eq_true,
    if_false]

/-- A command that the card answers. -/
theorem sendCommandInternal_emulator {pCommand : Command} {fuel : ℕ} (hfuel : 0 < fuel)
    (hshort : pCommand.Short)
    (hexec : (issue s pCommand.arg.toNat pCommand.word.toNat).execute pCommand.word.toNat = some s')
    (h : Answered image (issue s pCommand.arg.toNat pCommand.word.toNat) s') :
    sendCommandInternal emulator fuel pCommand (some s) =
      some ({ pCommand with
        status := 0
        response := Function.update pCommand.response 0 0x900 }, some s') := by
  have hack : emulator.write Reg.rintsts 0xFFFFFFFF (some s) = some (s.ack 0xFFFFFFFF) := rfl
  have hissue : run (issueCommand emulator pCommand) fuel
      (sdmmcTimeout, some (s.ack 0xFFFFFFFF)) = some (true, some s') :=
    run_first hfuel (issueCommand_emulator sdmmcTimeout hshort.start hexec h)
  have hcd : (BitVec.ofNat 32 s'.rintsts).getLsbD Rintsts.cd = true :=
    (getLsbD_ofNat (by decide)).trans h.cd
  have hdone : waitCommandDone emulator fuel pCommand.flag sdmmcTimeout (some s') =
      some (true, some s') := by
    rw [waitCommandDone.eq_def]
    simp only [read_rintsts, hcd, if_true]
  have herror := responseError_emulator h.bits (h.rto.trans (issue_rto _ _ _))
  have hresp0 : (s'.regs rResp0).getD 0 = 0x900 := by
    rw [h.resp0, Option.getD_some]
  have hresponse : readResponse emulator pCommand (some s') =
      ({ pCommand with response := Function.update pCommand.response 0 0x900 }, some s') := by
    simp only [readResponse, read_resp0, hresp0, hshort.longRsp, Bool.false_eq_true, if_false]
    rfl
  simp only [sendCommandInternal, hack, hissue, Option.bind_eq_bind, Option.bind_some, hdone,
    herror, hshort.shortRsp, hresponse, hshort.not_busy, Bool.not_true, Bool.false_eq_true,
    if_false, and_self, if_true]
  rfl

theorem sendCommand_emulator (st : SdxcBootStatus) {pCommand : Command} {fuel : ℕ}
    {dev : Option Dwmmc} {response : ℕ → U32}
    (h : sendCommandInternal emulator fuel pCommand dev =
      some ({ pCommand with status := 0, response }, some s')) :
    sendCommand emulator fuel st pCommand dev =
      some ({ pCommand with status := 0, response }, some s') := by
  rw [sendCommand, h]
  rfl

/-! ### The commands of a read -/

theorem sendStatus_short (st : SdxcBootStatus) : (sendStatusCommand st).Short :=
  Command.Short.congr (c := sendStatusCommand ⟨0, true⟩) (by decide) rfl rfl

theorem sendStatus_idx (st : SdxcBootStatus) :
    (sendStatusCommand st).word.toNat &&& 0x3F = 13 :=
  (by decide : (sendStatusCommand ⟨0, true⟩).word.toNat &&& 0x3F = 13)

/-- A card in the transfer state is asked once. -/
theorem waitTransferState_emulator {fuel : ℕ} (hfuel : 0 < fuel) (st : SdxcBootStatus)
    (hexec : (issue s (sendStatusCommand st).arg.toNat (sendStatusCommand st).word.toNat).execute
      (sendStatusCommand st).word.toNat = some s')
    (h : Answered image
      (issue s (sendStatusCommand st).arg.toNat (sendStatusCommand st).word.toNat) s') :
    run (waitTransferState emulator fuel st) fuel (some s) = some (some (true, some s')) := by
  have hsend := sendCommand_emulator st
    (sendCommandInternal_emulator hfuel (sendStatus_short st) hexec h)
  have htransfer : (0x900 : U32).getLsbD 8 ∧ ((0x900 : U32) >>> 9) &&& 0xF = 4 := by decide
  refine run_first hfuel ?_
  simp only [waitTransferState, hsend, Function.update_self, ne_eq, not_true_eq_false, if_false]
  exact if_pos htransfer

/-- Whether one sector is read or more is all that matters for how. -/
theorem readCommand_eq (st : SdxcBootStatus) (sectorNum numberOfSector : U32) :
    readCommand st sectorNum numberOfSector =
      { readCommand ⟨0, true⟩ 0 (if numberOfSector > 1 then 2 else 1) with
        arg := if st.bHighCapacity then sectorNum else sectorNum * blockLength } := by
  by_cases hn : numberOfSector > 1
  · rw [readCommand, if_pos hn, if_pos hn, if_pos hn]
    rfl
  · rw [readCommand, if_neg hn, if_neg hn, if_neg hn]
    rfl

theorem readCommand_short (st : SdxcBootStatus) (sectorNum numberOfSector : U32) :
    (readCommand st sectorNum numberOfSector).Short := by
  rw [readCommand_eq]
  refine Command.Short.congr (c := readCommand ⟨0, true⟩ 0 (if numberOfSector > 1 then 2 else 1))
    ?_ rfl rfl
  split_ifs <;> decide

theorem readCommand_word (st : SdxcBootStatus) (sectorNum numberOfSector : U32) :
    (readCommand st sectorNum numberOfSector).word =
      (readCommand ⟨0, true⟩ 0 (if numberOfSector > 1 then 2 else 1)).word := by
  rw [readCommand_eq]
  rfl

theorem readCommand_idx (st : SdxcBootStatus) (sectorNum numberOfSector : U32) :
    (readCommand st sectorNum numberOfSector).word.toNat &&& 0x3F = 17 ∨
      (readCommand st sectorNum numberOfSector).word.toNat &&& 0x3F = 18 := by
  rw [readCommand_word]
  split_ifs <;> decide

/-- The state after a write of `BYTCNT`. -/
def setBytcnt (s : Dwmmc) (length : ℕ) : Dwmmc :=
  { s with regs := Function.update s.regs rBytcnt (some length) }

theorem setBytcnt_regs (s : Dwmmc) (length : ℕ) :
    (setBytcnt s length).regs rBytcnt = some length := by
  show Function.update s.regs rBytcnt (some length) rBytcnt = some length
  rw [Function.update_self]

theorem setBytcnt_idle (h : Idle image s) (length : ℕ) : Idle image (setBytcnt s length) :=
  ⟨h.bits, h.holds, (dmaEnabled_congr rfl rfl).trans h.dma⟩

theorem toNat_mul_blockLength {numberOfSector : U32} (hn : numberOfSector.toNat * 512 < 2 ^ 32) :
    (numberOfSector * blockLength).toNat = numberOfSector.toNat * 512 := by
  rw [BitVec.toNat_mul, Nat.mod_eq_of_lt]
  exacts [rfl, hn]

theorem write_bytcnt (s : Dwmmc) {numberOfSector : U32} (hn : numberOfSector.toNat * 512 < 2 ^ 32) :
    emulator.write Reg.bytcnt (numberOfSector * blockLength) (some s) =
      some (setBytcnt s (numberOfSector.toNat * 512)) :=
  congrArg (fun length => some (setBytcnt s length)) (toNat_mul_blockLength hn)

/-- `CMD17` and `CMD18`: the sectors are in the FIFO. -/
theorem readCommand_emulator (hs : Idle image s) {fuel : ℕ} (hfuel : 0 < fuel)
    {st : SdxcBootStatus} (hst : st.bHighCapacity = true) (sectorNum : U32) {numberOfSector : U32}
    (hn : numberOfSector.toNat * 512 < 2 ^ 32) :
    ∃ cmd s', sendCommand emulator fuel st (readCommand st sectorNum numberOfSector)
        (emulator.write Reg.bytcnt (numberOfSector * blockLength) (some s)) = some (cmd, some s') ∧
      cmd.status = 0 ∧ Idle image s' ∧
      s'.rest = sectorBytes (fun i => image.getD i 0) sectorNum.toNat numberOfSector.toNat ∧
      (4 ≤ s'.rest.length → s'.rintsts.testBit 5 = true) ∧
      (numberOfSector > 1 → s'.rintsts.testBit 14 = true) := by
  have hshort := readCommand_short st sectorNum numberOfSector
  have hidx := readCommand_idx st sectorNum numberOfSector
  have harg : (readCommand st sectorNum numberOfSector).arg = sectorNum := if_pos hst
  have hauto : numberOfSector > 1 →
      (readCommand st sectorNum numberOfSector).word.toNat.testBit 12 = true := by
    intro hn
    rw [readCommand_word, if_pos hn]
    decide
  generalize readCommand st sectorNum numberOfSector = cmd at *
  have hissue := issue_idle (setBytcnt_idle hs (numberOfSector.toNat * 512)) cmd.arg.toNat
    cmd.word.toNat
  obtain ⟨s', hexec, h, hrest, hrxdr, hacd⟩ := execute_read hissue hshort.clock hidx
    (by rw [issue_regs, Function.update_of_ne (by decide), Function.update_self])
    (by rw [issue_regs_of_ne _ _ _ (by decide) (by decide), setBytcnt_regs])
  rw [harg] at hrest
  have hsend := sendCommandInternal_emulator hfuel hshort hexec h
  rw [write_bytcnt s hn]
  refine ⟨_, s', sendCommand_emulator st hsend, rfl, h.idle hissue, hrest, fun hlen => hrxdr ?_,
    fun hn => hacd (hauto hn)⟩
  rwa [hrest, List.length_map, List.length_range] at hlen

/-! ## The data -/

/-- What was read and what is still in the FIFO make up the data, and while there is some left,
`RXDR` is raised. -/
structure Streams (s₀ : Dwmmc) (data : List Byte) (popped : List U32) (s : Dwmmc) : Prop where
  keeps : Keeps s₀ s
  bits : IrqBits s.rintsts
  rest : wordBytes popped ++ s.rest = data
  rxdr : 4 ≤ s.rest.length → s.rintsts.testBit 5 = true

variable {w : ℕ} {s₀ : Dwmmc} {data : List Byte} {popped : List U32}
  {st : ReadState w (Option Dwmmc)}

theorem Streams.ack (h : Streams s₀ data popped s) {val : ℕ} (hacd : val.testBit 14 = false) :
    Streams s₀ data popped (s.ack val) where
  keeps := h.keeps.trans (ack_keeps s hacd)
  bits := h.bits.ack val
  rest := by
    rw [ack_rest]
    exact h.rest
  rxdr := by
    rw [ack_rest]
    exact fun hrest => ack_rxdr hrest val

theorem Streams.length (h : Streams s₀ data popped s) :
    4 * popped.length + s.rest.length = data.length := by
  rw [← h.rest, List.length_append, length_wordBytes]

/-- Words leave the FIFO in the order of the data. -/
theorem afterPops_emulator (k : ℕ) (h : 4 * k ≤ s.rest.length) (hdvd : 4 ∣ s.rest.length) :
    ∃ s', afterPops emulator k (some s) = some s' ∧
      wordBytes (fifoWords emulator k (some s)) ++ s'.rest = s.rest ∧
      Keeps s s' ∧ s'.rintsts = s.rintsts := by
  induction k generalizing s with
  | zero => exact ⟨s, rfl, rfl, Keeps.refl s, rfl⟩
  | succ k ih =>
    have hpop := popData_rest (by omega) hdvd
    have hlen : 4 + s.popData.2.rest.length = s.rest.length := by
      rw [← hpop, List.length_append, length_leBytes]
    obtain ⟨s', hafter, hwords, hkeeps, hrintsts⟩ :=
      ih (s := s.popData.2) (by omega) (by omega)
    refine ⟨s', hafter, ?_, (popData_keeps s).trans hkeeps, hrintsts.trans (popData_rintsts s)⟩
    show leBytes _ ++ wordBytes (fifoWords emulator k (some s.popData.2)) ++ s'.rest = s.rest
    rw [List.append_assoc, hwords]
    exact hpop

/-- While there is data, the FIFO is read at once. -/
theorem receive_emulator (hdev : st.dev = some s) (h : Streams s₀ data st.popped s)
    (hdata : 4 ∣ data.length) (hrest : 4 ≤ s.rest.length) :
    ∃ st₁ s₁, receive emulator st = .inl st₁ ∧ st₁.dev = some s₁ ∧
      Streams s₀ data st₁.popped s₁ ∧ st.popped.length < st₁.popped.length := by
  have hrxdr : (BitVec.ofNat 32 s.rintsts).getLsbD Rintsts.rxdr = true :=
    (getLsbD_ofNat (by decide)).trans (h.rxdr hrest)
  have hready : dataReady emulator st.dev = (true, some s) := by
    rw [hdev, dataReady, read_rintsts]
    exact if_pos hrxdr
  have hwindow : 0 < window s ∧ 4 * window s ≤ s.rest.length := by
    rw [window, remaining_eq, Dwmmc.fifoWords]
    omega
  have hpoll : polled emulator st = (BitVec.ofNat 32 sdmmcTimeout, some s) := by
    rw [polled, hready, pollFifo.eq_def]
    simp only [read_status, status_fifoEmpty, decide_eq_false (Nat.pos_iff_ne_zero.1 hwindow.1)]
    rfl
  have hlen := h.length
  obtain ⟨s', hafter, hwords, hkeeps, hrintsts⟩ :=
    afterPops_emulator (window s) hwindow.2 (by omega)
  have hsize : (fifoSize emulator (some s)).toNat = window s := by
    rw [fifoSize_emulator, BitVec.toNat_ofNat, Nat.mod_eq_of_lt]
    exact (window_lt s).trans (by decide)
  have hstreams : Streams s₀ data (st.popped ++ fifoWords emulator (window s) (some s)) s' :=
    ⟨h.keeps.trans hkeeps, hrintsts ▸ h.bits,
      by rw [wordBytes_append, List.append_assoc, hwords, h.rest],
      fun _ => hrintsts ▸ h.rxdr hrest⟩
  have hack : Streams s₀ data (st.popped ++ fifoWords emulator (window s) (some s))
      (s'.ack (bit Rintsts.rxdr).toNat) := hstreams.ack (by decide)
  have hread : (readFifo emulator { st with dev := (polled emulator st).2 }).dev =
        some (s'.ack (bit Rintsts.rxdr).toNat) ∧
      (readFifo emulator { st with dev := (polled emulator st).2 }).popped =
        st.popped ++ fifoWords emulator (window s) (some s) := by
    simp only [hpoll, readFifo, popFifo_eq, hsize, read_status, hafter, write_rintsts, and_self]
  have hpolled : (polled emulator st).1 ≠ 0 := by
    rw [hpoll]
    exact (by decide : BitVec.ofNat 32 sdmmcTimeout ≠ 0)
  refine ⟨_, _, receive_of_inTime (by rw [hready]) hpolled, hread.1, ?_, ?_⟩
  · rw [hread.2]
    exact hack
  · rw [hread.2, List.length_append, length_fifoWords]
    exact Nat.lt_add_of_pos_right hwindow.1

/-- No error is ever raised. -/
theorem checkRead_emulator (nxDebug : Bool) (hdev : st.dev = some s) (hbits : IrqBits s.rintsts) :
    checkRead emulator nxDebug st = .inl st ∨
      (st.count = 0 ∧ checkRead emulator nxDebug st =
        .inr (leaveRead emulator { st with dev := some (s.ack (bit Rintsts.dto).toNat) })) := by
  have herror : dataError emulator st.dev = (false, some s) := by
    have hdrto := not_raised (i := Rintsts.drto) hbits (by decide)
    have hebe := not_raised (i := Rintsts.ebe) hbits (by decide)
    have hsbe := not_raised (i := Rintsts.sbe) hbits (by decide)
    have hdcrc := not_raised (i := Rintsts.dcrc) hbits (by decide)
    simp only [dataError, hdev, read_rintsts, hdrto, hebe, hsbe, hdcrc, Bool.or_false]
  have hhto : clearHto emulator (some s) = some s := by
    have hnot := not_raised (i := Rintsts.hto) hbits (by decide)
    simp only [clearHto, read_rintsts, hnot, Bool.false_eq_true, if_false]
  have hst : { st with dev := some s } = st := by rw [← hdev]
  simp only [checkRead, herror, Bool.false_eq_true, if_false, read_rintsts, hhto, ite_self, hst,
    write_rintsts]
  by_cases hdto : (BitVec.ofNat 32 s.rintsts).getLsbD Rintsts.dto = true ∧ st.count = 0
  · rw [if_pos hdto]
    exact Or.inr ⟨hdto.2, rfl⟩
  · rw [if_neg hdto]
    exact Or.inl rfl

/-- Where the loop is, in memory and on the card. -/
structure Reading (numberOfSector : U32) (pdwBuffer : BitVec w) (mem : Traced w) (s₀ : Dwmmc)
    (data : List Byte) (st : ReadState w (Option Dwmmc)) : Prop where
  filled : Filled numberOfSector pdwBuffer mem st
  streams : ∃ s, st.dev = some s ∧ Streams s₀ data st.popped s

section Reading

variable {numberOfSector : U32} {pdwBuffer : BitVec w} {mem : Traced w}

theorem Reading.ackDto (h : Reading numberOfSector pdwBuffer mem s₀ data st)
    (hdev : st.dev = some s) :
    Reading numberOfSector pdwBuffer mem s₀ data
      { st with dev := some (s.ack (bit Rintsts.dto).toNat) } := by
  obtain ⟨s', hdev', hs⟩ := h.streams
  obtain rfl := Option.some.inj (hdev.symm.trans hdev')
  exact ⟨h.filled.dev _, _, rfl, hs.ack (by decide)⟩

theorem Reading.leaveRead (h : Reading numberOfSector pdwBuffer mem s₀ data st) :
    ∃ st', leaveRead emulator st = (true, st') ∧
      Reading numberOfSector pdwBuffer mem s₀ data st' ∧ st'.count = st.count := by
  obtain ⟨s, hdev, -⟩ := h.streams
  refine ⟨_, ?_, h.ackDto hdev, rfl⟩
  rw [Sdmmc.leaveRead, hdev, write_rintsts]

/-- `count` is what is still in the FIFO. -/
theorem Reading.count (h : Reading numberOfSector pdwBuffer mem s₀ data st)
    (hdata : data.length = numberOfSector.toNat * 512) (hn : numberOfSector.toNat * 512 < 2 ^ 32)
    (hdev : st.dev = some s) : st.count = 0 ↔ s.rest.length = 0 := by
  obtain ⟨s', hdev', hs⟩ := h.streams
  obtain rfl := Option.some.inj (hdev.symm.trans hdev')
  have hlen := hs.length
  rw [h.filled.count_eq (hlen.trans hdata), ← BitVec.toNat_inj, BitVec.toNat_ofNat,
    Nat.mod_eq_of_lt (by omega)]
  rfl

/-- **One iteration.** It reads from the FIFO and goes round again, or leaves with `CTRUE` when
nothing is owed. -/
theorem Reading.body (h : Reading numberOfSector pdwBuffer mem s₀ data st)
    (hdata : data.length = numberOfSector.toNat * 512) (hn : numberOfSector.toNat * 512 < 2 ^ 32)
    (nxDebug : Bool) :
    (∃ st', readSectorBody emulator nxDebug st = .inl st' ∧
      Reading numberOfSector pdwBuffer mem s₀ data st' ∧
      st.popped.length < st'.popped.length) ∨
    (∃ st', readSectorBody emulator nxDebug st = .inr (true, st') ∧
      Reading numberOfSector pdwBuffer mem s₀ data st' ∧ st'.count = 0) := by
  by_cases hcount : st.count = 0
  · obtain ⟨st', hleave, hst', hcount'⟩ := h.leaveRead
    exact Or.inr ⟨st', by rw [body_of_count_zero hcount, hleave], hst', hcount'.trans hcount⟩
  obtain ⟨s, hdev, hs⟩ := h.streams
  have hlen := hs.length
  have hrest : s.rest.length ≠ 0 := fun h0 => hcount ((h.count hdata hn hdev).2 h0)
  obtain ⟨st₁, s₁, hreceive, hdev₁, hs₁, hlt⟩ :=
    receive_emulator hdev hs (by omega) (by omega)
  have h₁ : Reading numberOfSector pdwBuffer mem s₀ data st₁ :=
    ⟨h.filled.receive hreceive, s₁, hdev₁, hs₁⟩
  obtain hcheck | ⟨hcount₁, hcheck⟩ := checkRead_emulator nxDebug hdev₁ hs₁.bits
  · exact Or.inl ⟨st₁, by rw [body_of_receive hcount hreceive, hcheck], h₁, hlt⟩
  · obtain ⟨st', hleave, hst', hcount'⟩ := (h₁.ackDto hdev₁).leaveRead
    exact Or.inr ⟨st', by rw [body_of_receive hcount hreceive, hcheck, hleave], hst',
      hcount'.trans hcount₁⟩

end Reading

/-- **The loop.** All of the data is stored, in order, and the FIFO is left empty. -/
theorem readSectorData_emulator (h : Streams s₀ data [] s) {numberOfSector : U32}
    (hdata : data.length = numberOfSector.toNat * 512) (hn : numberOfSector.toNat * 512 < 2 ^ 32)
    {fuel : ℕ} (hfuel : 128 * numberOfSector.toNat < fuel) (nxDebug : Bool) (pdwBuffer : BitVec w)
    (mem : Traced w) :
    ∃ st s', readSectorData emulator nxDebug fuel numberOfSector pdwBuffer mem (some s) =
        some (true, st) ∧
      st.mem = mem.storeWords pdwBuffer (toWords data) ∧ st.dev = some s' ∧
      Keeps s₀ s' ∧ IrqBits s'.rintsts ∧ s'.rest = [] := by
  have hround : ∀ st st', Reading numberOfSector pdwBuffer mem s₀ data st →
      readSectorBody emulator nxDebug st = .inl st' →
      Reading numberOfSector pdwBuffer mem s₀ data st' ∧
        128 * numberOfSector.toNat - st'.popped.length <
          128 * numberOfSector.toNat - st.popped.length := by
    intro st st' hst hbody
    obtain ⟨st₁, hb, hst₁, hlt⟩ | ⟨st₁, hb, -⟩ := hst.body hdata hn nxDebug
    · obtain rfl := Sum.inl.inj (hbody.symm.trans hb)
      obtain ⟨s₁, -, hs₁⟩ := hst₁.streams
      have hlen := hs₁.length
      exact ⟨hst₁, by omega⟩
    · cases hbody.symm.trans hb
  have hleave : ∀ st r, Reading numberOfSector pdwBuffer mem s₀ data st →
      readSectorBody emulator nxDebug st = .inr r →
      r.1 = true ∧ Reading numberOfSector pdwBuffer mem s₀ data r.2 ∧ r.2.count = 0 := by
    intro st r hst hbody
    obtain ⟨st₁, hb, -⟩ | ⟨st₁, hb, hst₁, hcount⟩ := hst.body hdata hn nxDebug
    · cases hbody.symm.trans hb
    · obtain rfl := Sum.inr.inj (hbody.symm.trans hb)
      exact ⟨rfl, hst₁, hcount⟩
  have hstart : Reading numberOfSector pdwBuffer mem s₀ data
      (startRead numberOfSector pdwBuffer mem (some s)) := ⟨startRead_filled _, s, rfl, h⟩
  obtain ⟨⟨result, st⟩, hrun, rfl, hst, hcount⟩ :=
    run_total (fun st => 128 * numberOfSector.toNat - st.popped.length) hround hleave hstart
      (lt_of_le_of_lt (Nat.sub_le _ _) hfuel)
  obtain ⟨s', hdev, hs'⟩ := hst.streams
  have hnil : s'.rest = [] := List.eq_nil_of_length_eq_zero ((hst.count hdata hn hdev).1 hcount)
  refine ⟨st, s', hrun, ?_, hdev, hs'.keeps, hs'.bits, hnil⟩
  rw [hst.filled.mem, ← hs'.rest, hnil, List.append_nil, toWords_wordBytes]

/-! ## Reads -/

theorem fifoEmpty_of_rest (h : s.rest = []) : s.fifoEmpty := by
  rw [fifoEmpty, remaining_eq, h]
  rfl

theorem waitAutoStop_emulator {fuel : ℕ} (hfuel : 0 < fuel) (hacd : s.rintsts.testBit 14 = true) :
    run (waitAutoStop emulator) fuel (some s) = some (some s) := by
  have hbit : (BitVec.ofNat 32 s.rintsts).getLsbD Rintsts.acd = true :=
    (getLsbD_ofNat (by decide)).trans hacd
  refine run_first hfuel ?_
  rw [waitAutoStop, read_rintsts]
  exact if_pos hbit

/-- **One read.** It returns `CTRUE` with the sectors of the image stored at the buffer, and the
controller as ready for the next one as it was. -/
theorem readSectors_emulator (hs : Idle image s) (nxDebug : Bool) {fuel : ℕ} {st : SdxcBootStatus}
    (hst : st.bHighCapacity = true) (sectorNum : U32) {numberOfSector : U32}
    (hn : numberOfSector.toNat * 512 < 2 ^ 32) (hfuel : 128 * numberOfSector.toNat < fuel)
    (pdwBuffer : BitVec w) (mem : Traced w) :
    ∃ s', readSectors emulator nxDebug fuel st sectorNum numberOfSector pdwBuffer mem (some s) =
        some (true, mem.storeWords pdwBuffer (toWords
          (sectorBytes (fun i => image.getD i 0) sectorNum.toNat numberOfSector.toNat)), some s') ∧
      Idle image s' ∧ s'.fifoEmpty := by
  have hpos : 0 < fuel := Nat.zero_lt_of_lt hfuel
  have hbusy := run_first hpos (waitNotBusy_emulator s)
  have hissue := issue_idle hs (sendStatusCommand st).arg.toNat (sendStatusCommand st).word.toNat
  obtain ⟨s₁, hexec, hs₁⟩ :=
    execute_status hissue (sendStatus_short st).clock (sendStatus_idx st)
  have hwait := waitTransferState_emulator hpos st hexec hs₁
  obtain ⟨cmd, s₂, hsend, hstatus, hs₂, hrest, hrxdr, hacd⟩ :=
    readCommand_emulator (hs₁.idle hissue) hpos hst sectorNum hn
  obtain ⟨rs, s₃, hread, hmem, hdev, hkeeps, hbits, hnil⟩ := readSectorData_emulator
    (show Streams s₂ s₂.rest [] s₂ from ⟨Keeps.refl s₂, hs₂.bits, rfl, hrxdr⟩)
    (by rw [hrest, length_sectorBytes]) hn hfuel nxDebug pdwBuffer mem
  have hend : readSectorsToEnd emulator nxDebug fuel st sectorNum numberOfSector pdwBuffer mem
      (some s) = some (true, rs.mem, some s₃) := by
    simp only [readSectorsToEnd, hbusy, Option.bind_eq_bind, Option.bind_some, hwait,
      Option.join_some, Bool.not_true, Bool.false_eq_true, if_false, read_status, hsend, hstatus,
      ne_eq, not_true_eq_false, hread, hdev]
    by_cases hmany : numberOfSector > 1
    · have hauto := waitAutoStop_emulator hpos (hkeeps.acd.trans (hacd hmany))
      rw [if_pos hmany, hauto]
      cases nxDebug <;> rfl
    · rw [if_neg hmany]
      rfl
  refine ⟨s₃, ?_, hs₂.keeps hkeeps hbits, fifoEmpty_of_rest hnil⟩
  rw [readSectors, hend, hmem, hrest]
  rfl

/-! ## Sequences of reads -/

structure ReadRequest (w : ℕ) where
  sectorNum : U32
  numberOfSector : U32
  pdwBuffer : BitVec w

/-- One call of `NX_SDMMC_ReadSectors` after the other, as long as they return `CTRUE`. -/
def readAll {σ : Type*} (bus : SdxcBus σ) (nxDebug : Bool) (fuel : ℕ) (st : SdxcBootStatus) :
    List (ReadRequest w) → Traced w → σ → Option (Bool × Traced w × σ)
  | [], mem, dev => some (true, mem, dev)
  | r :: rs, mem, dev => do
    let (result, mem, dev) ←
      readSectors bus nxDebug fuel st r.sectorNum r.numberOfSector r.pdwBuffer mem dev
    if result then readAll bus nxDebug fuel st rs mem dev else return (false, mem, dev)

/-- The image's sectors, with zeros past its end, stored at the buffer word by word. -/
def ReadRequest.fill (image : List Byte) (mem : Traced w) (r : ReadRequest w) : Traced w :=
  mem.storeWords r.pdwBuffer (toWords
    (sectorBytes (fun i => image.getD i 0) r.sectorNum.toNat r.numberOfSector.toNat))

/-- The bytes that a request asks for can be counted in 32 bits. -/
def ReadRequest.Fits (r : ReadRequest w) : Prop := r.numberOfSector.toNat * 512 < 2 ^ 32

theorem readAll_idle (hs : Idle image s) (hempty : s.fifoEmpty) (nxDebug : Bool) {fuel : ℕ}
    {st : SdxcBootStatus} (hst : st.bHighCapacity = true) {rs : List (ReadRequest w)}
    (hrs : ∀ r ∈ rs, r.Fits ∧ 128 * r.numberOfSector.toNat < fuel) (mem : Traced w) :
    ∃ s', readAll emulator nxDebug fuel st rs mem (some s) =
        some (true, rs.foldl (ReadRequest.fill image) mem, some s') ∧
      Idle image s' ∧ s'.fifoEmpty := by
  induction rs generalizing s mem with
  | nil => exact ⟨s, rfl, hs, hempty⟩
  | cons r rs ih =>
    obtain ⟨hfits, hfuel⟩ := hrs r List.mem_cons_self
    obtain ⟨s₁, hread, hs₁, hempty₁⟩ :=
      readSectors_emulator hs nxDebug hst r.sectorNum hfits hfuel r.pdwBuffer mem
    obtain ⟨s', hall, hs'⟩ := ih hs₁ hempty₁ (fun r hr => hrs r (List.mem_cons_of_mem _ hr))
      (r.fill image mem)
    refine ⟨s', ?_, hs'⟩
    rw [readAll, hread]
    exact hall

/-- **Reads from the emulator.** From every state that a guest can bring the emulator to, with the
card in the transfer state, the FIFO empty and the DMA disabled, every sequence of reads succeeds
and stores the sectors it asks for, and leaves the card in the transfer state and the FIFO
empty. -/
theorem readAll_emulator (hreach : Reachable image s) (htransfer : s.inTransfer)
    (hempty : s.fifoEmpty) (hdma : s.dmaEnabled = false) (nxDebug : Bool) {fuel : ℕ}
    {st : SdxcBootStatus} (hst : st.bHighCapacity = true) {rs : List (ReadRequest w)}
    (hrs : ∀ r ∈ rs, r.Fits ∧ 128 * r.numberOfSector.toNat < fuel) (mem : Traced w) :
    ∃ s', readAll emulator nxDebug fuel st rs mem (some s) =
        some (true, rs.foldl (ReadRequest.fill image) mem, some s') ∧
      s'.inTransfer ∧ s'.fifoEmpty ∧ s'.dmaEnabled = false := by
  obtain ⟨s', hall, hs', hempty'⟩ :=
    readAll_idle (hreach.idle htransfer hdma) hempty nxDebug hst hrs mem
  obtain ⟨card, hcard, hstate, -⟩ := hs'.holds
  exact ⟨s', hall, ⟨card, hcard, hstate⟩, hempty', hs'.dma⟩

/-- A guest selects the card. -/
def selectCard : List GuestAction :=
  [.write rCmdarg (0x1234 <<< 16), .write rCmd ((1 <<< 31) ||| 7)]

theorem selectCard_runs (image : List Byte) :
    ∃ s, Lts.run step (init (some { image }) fun _ => 0) selectCard = some s ∧
      (∃ card, s.card = some card ∧ card.state = 4 ∧ card.app = false ∧ card.image = image) ∧
      s.rest = [] ∧ s.ram = (fun _ => 0) ∧ s.dmaEnabled = false := by
  refine ⟨_, rfl, ⟨_, rfl, ?_, rfl, rfl⟩, rfl, rfl, ?_⟩
  · simp [rCmdarg, rCmd, SDCard.rca]
  · simp [dmaEnabled, init, storeResp, rCtrl, rStatus, rCmdarg, rCmd, rResp0]

/-- Two reads of a card of 600 bytes, over its end. -/
theorem smallCard_reads :
    ∃ s s', Lts.run step (init (some { image := List.replicate 600 0xA5 }) fun _ => 0) selectCard =
        some s ∧
      readAll emulator false 257 ⟨0x12340000, true⟩
          [⟨0, 1, 0x40000000⟩, ⟨1, 2, (0x40000200 : BitVec 64)⟩] ⟨fun _ => 0, []⟩ (some s) =
        some (true, [⟨0, 1, 0x40000000⟩, ⟨1, 2, (0x40000200 : BitVec 64)⟩].foldl
          (ReadRequest.fill (List.replicate 600 0xA5)) ⟨fun _ => 0, []⟩, some s') ∧
      s'.inTransfer ∧ s'.fifoEmpty ∧ s'.dmaEnabled = false := by
  obtain ⟨s, hrun, ⟨card, hcard, hstate, -⟩, hrest, -, hdma⟩ :=
    selectCard_runs (List.replicate 600 0xA5)
  have hst : (⟨0x12340000, true⟩ : SdxcBootStatus).bHighCapacity = true := rfl
  have hrs : ∀ r ∈ [⟨0, 1, 0x40000000⟩, ⟨1, 2, (0x40000200 : BitVec 64)⟩],
      ReadRequest.Fits r ∧ 128 * r.numberOfSector.toNat < 257 := by
    simp [ReadRequest.Fits]
  obtain ⟨s', h⟩ := readAll_emulator ⟨fun _ => 0, selectCard, hrun⟩ ⟨card, hcard, hstate⟩
    (fifoEmpty_of_rest hrest) hdma false hst hrs ⟨fun _ => 0, []⟩
  exact ⟨s, s', hrun, h⟩

/-! ## With the DMA enabled -/

/-- The DMA takes the data of commands, and its first descriptor has no buffer for it. -/
structure DmaIdle (image : List Byte) (s : Dwmmc) : Prop where
  bits : IrqBits s.rintsts
  card : ∃ card, s.card = some card ∧ card.state = 4 ∧ card.app = false ∧ card.image = image
  dma : s.dmaEnabled = true
  dbaddr : s.regs rDbaddr = some 0x40000000
  ram : s.ram = fun _ => 0
  rest : s.rest = []

theorem issue_dmaIdle (h : DmaIdle image s) (arg cmd : ℕ) : DmaIdle image (issue s arg cmd) where
  bits := (h.bits.ack _).ack _
  card := by
    rw [issue_card]
    exact h.card
  dma := (issue_dmaEnabled s arg cmd).trans h.dma
  dbaddr := (issue_regs_of_ne s arg cmd (by decide) (by decide)).trans h.dbaddr
  ram := ((ack_ram _ _).trans (ack_ram _ _)).trans h.ram
  rest := ((ack_rest _ _).trans (ack_rest _ _)).trans h.rest

/-- A descriptor of zeros takes no data. -/
theorem idmacLoop_zeros (data : List Byte) (k pos : ℕ) :
    idmacLoop data (k + 1) 0x40000000 pos (fun _ => 0) = some fun _ => 0 := by
  have hread : memRead (fun _ => 0) 0x40000000 16 = some (List.replicate 16 0) := by decide
  have hown : (!(wordAt (List.replicate 16 (0 : Byte)) 0).toNat.testBit 31) = true := by decide
  simp only [idmacLoop, hread, Option.bind_eq_bind, Option.bind_some]
  exact if_pos hown

theorem idmac_zeros (hdbaddr : s.regs rDbaddr = some 0x40000000) (hram : s.ram = fun _ => 0)
    (data : List Byte) :
    s.idmac data = some { s with
      rintsts := s.rintsts ||| DTO
      regs := Function.update s.regs rIdsts (some ((s.regs rIdsts).getD 0 ||| 0x102)) } := by
  rw [idmac, hdbaddr, Option.getD_some, hram, idmacLoop_zeros data 4095, ← hram]
  rfl

theorem deliver_dmaIdle (h : Answered image s₀ s) (hs : DmaIdle image s) (data : List Byte) :
    ∃ s', s.deliver data = some s' ∧ Answered image s₀ s' ∧ DmaIdle image s' := by
  rw [Dwmmc.deliver, hs.dma, if_pos rfl, idmac_zeros hs.dbaddr hs.ram]
  generalize some ((s.regs rIdsts).getD 0 ||| 0x102) = idsts
  have hregs (off : ℕ) (hoff : off ≠ rIdsts) :
      Function.update s.regs rIdsts idsts off = s.regs off :=
    Function.update_of_ne hoff idsts s.regs
  have hbit {i : ℕ} (hi : 3 ≠ i) : (s.rintsts ||| DTO).testBit i = s.rintsts.testBit i := by
    rw [Nat.testBit_or, DTO, testBit_one_shiftLeft, decide_eq_false hi, Bool.or_false]
  refine ⟨_, rfl, ⟨h.holds, ?_, ?_, ?_, ?_, h.bits.lor irqBits_DTO⟩, hs.bits.lor irqBits_DTO,
    hs.card, ?_, ?_, hs.ram, hs.rest⟩
  · exact (hregs rResp0 (by decide)).trans h.resp0
  · exact fun off hresp hoff => (hregs off hoff).trans (h.regs off hresp hoff)
  · exact (hbit (by decide)).trans h.cd
  · exact (hbit (by decide)).trans h.rto
  · exact (dmaEnabled_congr (hregs rCtrl (by decide)) (hregs rBmod (by decide))).trans hs.dma
  · exact (hregs rDbaddr (by decide)).trans hs.dbaddr

theorem execute_dmaIdle (hs : DmaIdle image s) {cmd : ℕ} (hclock : ¬cmd.testBit 21 = true)
    (hidx : cmd &&& 0x3F = 13 ∨ cmd &&& 0x3F = 17 ∨ cmd &&& 0x3F = 18) :
    ∃ s', s.execute cmd = some s' ∧ Answered image s s' ∧ DmaIdle image s' := by
  obtain ⟨card, hcard, hstate, happ, himage⟩ := hs.card
  have hdbaddr : storeResp s.regs 0 [0x900] rDbaddr = some 0x40000000 := hs.dbaddr
  obtain hstatus | hread := hidx
  · have h := answered hs.bits hstate himage
    refine ⟨_, ?_, h, h.bits, ⟨_, rfl, hstate, rfl, himage⟩, h.dmaEnabled.trans hs.dma, hdbaddr,
      hs.ram, hs.rest⟩
    rw [execute, if_neg hclock]
    simp only [hcard, hstatus, command_status hstate, happ]
    rfl
  · have h := answered_read hs.bits hstate himage cmd
    obtain ⟨s', hs', hdma⟩ := deliver_dmaIdle h ⟨h.bits, ⟨_, rfl, rfl, rfl, himage⟩,
      h.dmaEnabled.trans hs.dma, hdbaddr, hs.ram, hs.rest⟩
      (card.read ((s.regs rCmdarg).getD 0 * 512)
        ((storeResp s.regs 0 [0x900] rBytcnt).getD 512))
    refine ⟨s', ?_, hdma⟩
    rw [execute, if_neg hclock]
    simp only [hcard, command_read hstate hread]
    exact hs'

theorem pollFifo_empty (hrest : s.rest = []) (timeout : ℕ) :
    pollFifo emulator timeout (some s) = (-1, some s) := by
  have hempty : (BitVec.ofNat 32 s.status).getLsbD Status.fifoEmpty = true := by
    rw [status_fifoEmpty, window, remaining_eq, hrest]
    rfl
  induction timeout with
  | zero =>
    rw [pollFifo, read_status]
    exact if_pos hempty
  | succ timeout ih =>
    rw [pollFifo, read_status]
    exact (if_pos hempty).trans ih

/-- The loop that reads the data, with nothing in the FIFO and nothing to come. -/
structure Starved (st : ReadState w (Option Dwmmc)) : Prop where
  count : st.count ≠ 0
  dev : ∃ s, st.dev = some s ∧ IrqBits s.rintsts ∧ s.rest = []

theorem Starved.body {nxDebug : Bool} (h : Starved st) :
    ∃ st', readSectorBody emulator nxDebug st = .inl st' ∧ Starved st' := by
  obtain ⟨s, hdev, hbits, hrest⟩ := h.dev
  have hreceive : ∃ st₁ s₁, receive emulator st = .inl st₁ ∧ st₁.count = st.count ∧
      st₁.dev = some s₁ ∧ IrqBits s₁.rintsts ∧ s₁.rest = [] := by
    have hready : (dataReady emulator st.dev).2 = some s := by
      simp only [hdev, dataReady, read_rintsts]
      split_ifs <;> rfl
    cases hb : (dataReady emulator st.dev).1 with
    | false => exact ⟨_, s, receive_of_not_ready hb, rfl, hready, hbits, hrest⟩
    | true =>
      have hpoll : polled emulator st = (-1, some s) := by
        rw [polled, hready, pollFifo_empty hrest]
      have hsize : fifoSize emulator (some s) = 0 := by
        rw [fifoSize_emulator, window, remaining_eq, hrest]
        rfl
      have hpolled : (polled emulator st).1 ≠ 0 := by
        rw [hpoll]
        exact (by decide : (-1 : U32) ≠ 0)
      refine ⟨_, s.ack (bit Rintsts.rxdr).toNat, receive_of_inTime hb hpolled, ?_, ?_,
        hbits.ack _, (ack_rest s _).trans hrest⟩
      · simp only [readFifo, hpoll, hsize, popFifo_eq]
        exact BitVec.sub_zero _
      · simp only [readFifo, hpoll, hsize, read_status]
        rfl
  obtain ⟨st₁, s₁, hst₁, hcount, hdev₁, hbits₁, hrest₁⟩ := hreceive
  have hcount₁ : st₁.count ≠ 0 := hcount ▸ h.count
  obtain hcheck | ⟨h0, -⟩ := checkRead_emulator nxDebug hdev₁ hbits₁
  · exact ⟨st₁, by rw [body_of_receive h.count hst₁, hcheck], hcount₁, s₁, hdev₁, hbits₁, hrest₁⟩
  · exact absurd h0 hcount₁

/-- **The DMA starves the driver.** Where it has the data, the driver polls an empty FIFO for
ever. -/
theorem readSectors_dmaIdle (hs : DmaIdle image s) (nxDebug : Bool) (fuel : ℕ)
    (st : SdxcBootStatus) (sectorNum : U32) {numberOfSector : U32}
    (hpos : 0 < numberOfSector.toNat) (hn : numberOfSector.toNat * 512 < 2 ^ 32)
    (pdwBuffer : BitVec w) (mem : Traced w) :
    readSectors emulator nxDebug fuel st sectorNum numberOfSector pdwBuffer mem (some s) =
      none := by
  obtain _ | fuel := fuel
  · rfl
  have hfuel := Nat.succ_pos fuel
  have hissue := issue_dmaIdle hs (sendStatusCommand st).arg.toNat (sendStatusCommand st).word.toNat
  obtain ⟨s₁, hexec₁, hs₁, hdma₁⟩ := execute_dmaIdle hissue (sendStatus_short st).clock
    (Or.inl (sendStatus_idx st))
  have hwait := waitTransferState_emulator hfuel st hexec₁ hs₁
  have hshort := readCommand_short st sectorNum numberOfSector
  have hset : DmaIdle image (setBytcnt s₁ (numberOfSector.toNat * 512)) :=
    ⟨hdma₁.bits, hdma₁.card, (dmaEnabled_congr rfl rfl).trans hdma₁.dma, hdma₁.dbaddr, hdma₁.ram,
      hdma₁.rest⟩
  obtain ⟨s₂, hexec₂, hs₂, hdma₂⟩ := execute_dmaIdle (issue_dmaIdle hset _ _) hshort.clock
    (Or.inr (readCommand_idx st sectorNum numberOfSector))
  have hsend := sendCommand_emulator st
    (sendCommandInternal_emulator hfuel hshort hexec₂ hs₂)
  have hstarved : Starved (startRead numberOfSector pdwBuffer mem (some s₂)) := by
    refine ⟨fun hcount => ?_, s₂, rfl, hdma₂.bits, hdma₂.rest⟩
    have hcount : (numberOfSector * blockLength).toNat = 0 := congrArg BitVec.toNat hcount
    rw [toNat_mul_blockLength hn] at hcount
    exact (Nat.mul_pos hpos (by decide : 0 < 512)).ne' hcount
  have hread : readSectorData emulator nxDebug (fuel + 1) numberOfSector pdwBuffer mem (some s₂) =
      none := run_never (fun _ h => h.body) hstarved (fuel + 1)
  have hbusy := run_first hfuel (waitNotBusy_emulator s)
  have hend : readSectorsToEnd emulator nxDebug (fuel + 1) st sectorNum numberOfSector pdwBuffer mem
      (some s) = none := by
    simp only [readSectorsToEnd, hbusy, Option.bind_eq_bind, Option.bind_some, hwait,
      Option.join_some, Bool.not_true, Bool.false_eq_true, if_false, read_status,
      write_bytcnt s₁ hn, hsend, ne_eq, not_true_eq_false, hread]
    rfl
  rw [readSectors, hend]
  rfl

/-- A guest enables the DMA, with a descriptor of zeros. -/
def enableDma : List GuestAction :=
  [.write rCtrl (1 <<< 25), .write rBmod (1 <<< 7), .write rDbaddr 0x40000000]

theorem enableDma_runs (hbits : IrqBits s.rintsts)
    (hcard : ∃ card, s.card = some card ∧ card.state = 4 ∧ card.app = false ∧ card.image = image)
    (hrest : s.rest = []) (hram : s.ram = fun _ => 0) :
    ∃ s', Lts.run step s enableDma = some s' ∧ DmaIdle image s' := by
  refine ⟨{ s with
    regs := Function.update (Function.update (Function.update s.regs
      rCtrl (some ((1 <<< 25 : ℕ).ldiff 0x7))) rBmod (some (1 <<< 7))) rDbaddr (some 0x40000000) },
    rfl, hbits, hcard, ?_, ?_, hram, hrest⟩
  · simp only [dmaEnabled, rCtrl, rBmod, rDbaddr, ne_eq, Nat.reduceEqDiff, not_false_eq_true,
      Function.update_of_ne, Function.update_self, Option.getD_some, Nat.testBit_ldiff]
    decide
  · simp only [Function.update_self]

/-- In a state that a guest brings the emulator to, with the card in the transfer state and the
FIFO empty, no read of a sector ends. -/
theorem readSectors_starves :
    ∃ s, Reachable [] s ∧ s.inTransfer ∧ s.fifoEmpty ∧
      ∀ fuel, readSectors emulator false fuel ⟨0x12340000, true⟩ 0 1 (0x40000000 : BitVec 64)
        ⟨fun _ => 0, []⟩ (some s) = none := by
  obtain ⟨s₀, hselect, hcard₀, hrest₀, hram₀, -⟩ := selectCard_runs []
  have hreach₀ : Reachable [] s₀ := ⟨_, _, hselect⟩
  obtain ⟨s, henable, hs⟩ := enableDma_runs hreach₀.ok.bits hcard₀ hrest₀ hram₀
  have hrun : Lts.run step (init (some { image := [] }) fun _ => 0) (selectCard ++ enableDma) =
      some s := by
    rw [Lts.run_append hselect]
    exact henable
  obtain ⟨card, hcard, hstate, -⟩ := hs.card
  exact ⟨s, ⟨_, _, hrun⟩, ⟨card, hcard, hstate⟩, fifoEmpty_of_rest hs.rest, fun fuel =>
    readSectors_dmaIdle hs false fuel _ 0 (by decide) (by decide) _ _⟩

end Gec6818Bl1.Sdmmc
