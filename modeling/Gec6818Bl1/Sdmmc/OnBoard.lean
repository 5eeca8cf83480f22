import Gec6818Bl1.Lib.Board
import Gec6818Bl1.Sdmmc.AppCommand

/-!
# The driver on a board

What the functions of the driver do to the controller of a board with other devices: what they do to
the controller alone, the other devices carried along. One equation for each function.
-/

namespace Gec6818Bl1.Sdmmc

open ByteMem Polling AppCommand

variable {σ τ : Type*} {bus : SdxcBus σ} {rest : τ} {w : ℕ}

/-- A result, with the rest of the board beside the controller. -/
def beside {α : Type*} (rest : τ) (r : α × σ) : α × σ × τ := (r.1, r.2, rest)

@[simp] theorem beside_mk {α : Type*} (a : α) (dev : σ) :
    beside rest (a, dev) = (a, dev, rest) := rfl

/-! ## Commands -/

theorem waitStart_fst (left : ℕ) (dev : σ) :
    waitStart bus.fst left (dev, rest) = beside rest (waitStart bus left dev) := by
  induction left generalizing dev with
  | zero =>
    rw [waitStart_zero, waitStart_zero, apply_ite (beside rest)]
    rfl
  | succ left ih =>
    rw [waitStart_succ, waitStart_succ, apply_ite (beside rest), ← ih]
    rfl

theorem issueCommand_fst (pCommand : Command) (s : ℕ × σ) :
    issueCommand bus.fst pCommand (beside rest s) =
      Sum.map (beside rest) (beside rest) (issueCommand bus pCommand s) := by
  obtain ⟨left, dev⟩ := s
  have hwait := @waitStart_fst _ _ bus rest left (writeCommand bus pCommand dev)
  rw [beside_mk, issueCommand_eq, issueCommand_eq]
  rw [show writeCommand bus.fst pCommand (dev, rest) =
    (writeCommand bus pCommand dev, rest) from rfl, hwait]
  rcases waitStart bus left (writeCommand bus pCommand dev) with ⟨_ | l, dev'⟩
  · rfl
  · dsimp only [beside_mk]
    rw [apply_ite (Sum.map (beside rest) (beside rest))]
    rfl

theorem drainFifo_fst (dev : σ) :
    drainFifo bus.fst (dev, rest) = Sum.map (·, rest) (·, rest) (drainFifo bus dev) := by
  unfold drainFifo
  dsimp only
  rw [apply_ite (Sum.map (·, rest) (·, rest))]
  rfl

theorem betweenPolls_fst (flag : U32) (fuel : ℕ) (dev : σ) :
    betweenPolls bus.fst flag fuel (dev, rest) =
      (betweenPolls bus flag fuel dev).map (·, rest) := by
  have hrun : ∀ d : σ, run (drainFifo bus.fst) fuel (d, rest) =
      (run (drainFifo bus) fuel d).map (·, rest) := run_map drainFifo_fst fuel
  rw [betweenPolls, betweenPolls, apply_ite (Option.map (·, rest))]
  dsimp only [Bus.fst_read]
  rw [hrun, apply_ite (Option.map (·, rest))]
  rfl

theorem waitCommandDone_fst (fuel : ℕ) (flag : U32) (left : ℕ) (dev : σ) :
    waitCommandDone bus.fst fuel flag left (dev, rest) =
      (waitCommandDone bus fuel flag left dev).map (beside rest) := by
  induction left generalizing dev with
  | zero =>
    rw [waitCommandDone_zero, waitCommandDone_zero, apply_ite (Option.map (beside rest))]
    rfl
  | succ left ih =>
    rw [waitCommandDone_succ, waitCommandDone_succ, apply_ite (Option.map (beside rest)),
      Option.map_bind, Bus.fst_read, betweenPolls_fst, Option.bind_map]
    simp only [Function.comp_def, ih]
    rfl

theorem responseError_fst (dev : σ) :
    responseError bus.fst (dev, rest) = beside rest (responseError bus dev) := by
  unfold responseError
  dsimp only
  rw [apply_ite (beside rest)]
  rfl

theorem waitDataReady_fst (left : ℕ) (dev : σ) :
    waitDataReady bus.fst left (dev, rest) = beside rest (waitDataReady bus left dev) := by
  induction left generalizing dev with
  | zero => rfl
  | succ left ih =>
    rw [waitDataReady_succ, waitDataReady_succ, apply_ite (beside rest), ← ih]
    rfl

theorem readResponse_fst (pCommand : Command) (dev : σ) :
    readResponse bus.fst pCommand (dev, rest) = beside rest (readResponse bus pCommand dev) := by
  unfold readResponse
  dsimp only
  rw [apply_ite (beside rest)]
  rfl

theorem finishCommand_fst (pCommand : Command) (status : U32) (dev : σ) :
    finishCommand bus.fst pCommand status (dev, rest) =
      beside rest (finishCommand bus pCommand status dev) := by
  simp only [finishCommand, readResponse_fst]
  rcases readResponse bus pCommand dev with ⟨cmd, dev₁⟩
  simp only [beside_mk, waitDataReady_fst]
  rcases waitDataReady bus sdmmcTimeout dev₁ with ⟨ready, dev₂⟩
  rw [apply_ite (beside rest), apply_ite (beside rest)]
  rfl

theorem sendCommandInternal_fst (fuel : ℕ) (pCommand : Command) (dev : σ) :
    sendCommandInternal bus.fst fuel pCommand (dev, rest) =
      (sendCommandInternal bus fuel pCommand dev).map (beside rest) := by
  have hrun : ∀ s : ℕ × σ, run (issueCommand bus.fst pCommand) fuel (beside rest s) =
      (run (issueCommand bus pCommand) fuel s).map (beside rest) :=
    run_map (issueCommand_fst pCommand) fuel
  have hstart := hrun (sdmmcTimeout, bus.write Reg.rintsts 0xFFFFFFFF dev)
  rw [beside_mk] at hstart
  rw [sendCommandInternal_eq, sendCommandInternal_eq, Bus.fst_write, hstart]
  rcases run (issueCommand bus pCommand) fuel _ with _ | ⟨_ | _, dev₁⟩
  · rfl
  · rfl
  simp only [Option.map_some, beside_mk, Option.bind_some, waitCommandDone_fst]
  rcases waitCommandDone bus fuel pCommand.flag sdmmcTimeout dev₁ with _ | ⟨_ | _, dev₂⟩
  · rfl
  · rfl
  simp only [Option.map_some, beside_mk, Option.bind_some, responseError_fst]
  rw [beside, finishCommand_fst]
  rfl

theorem sendCommand_fst (fuel : ℕ) (st : SdxcBootStatus) (pCommand : Command) (dev : σ) :
    sendCommand bus.fst fuel st pCommand (dev, rest) =
      (sendCommand bus fuel st pCommand dev).map (beside rest) := by
  simp only [sendCommand, sendCommandInternal_fst, Option.bind_eq_bind]
  rcases sendCommandInternal bus fuel pCommand dev with _ | ⟨cmd, dev₁⟩
  · rfl
  simp only [Option.map_some, beside_mk, Option.bind_some, sendCommandInternal_fst]
  split_ifs
  · rfl
  · rcases sendCommandInternal bus fuel (sendStatusCommand st) dev₁ with _ | ⟨_, dev₂⟩ <;> rfl

/-! ## Sectors -/

/-- The state of a read, with the rest of the board beside the controller. -/
def ReadState.onBoard (rest : τ) (s : ReadState w σ) : ReadState w (σ × τ) where
  count := s.count
  pdwBuffer := s.pdwBuffer
  mem := s.mem
  popped := s.popped
  dev := (s.dev, rest)

/-- The result of a read, likewise. -/
def readResult (rest : τ) (r : Bool × ReadState w σ) : Bool × ReadState w (σ × τ) :=
  (r.1, r.2.onBoard rest)

theorem dataReady_fst (dev : σ) :
    dataReady bus.fst (dev, rest) = beside rest (dataReady bus dev) := by
  unfold dataReady
  dsimp only
  rw [apply_ite (beside rest)]
  rfl

theorem pollFifo_fst (timeout : ℕ) (dev : σ) :
    pollFifo bus.fst timeout (dev, rest) = beside rest (pollFifo bus timeout dev) := by
  induction timeout generalizing dev with
  | zero =>
    unfold pollFifo
    dsimp only
    rw [apply_ite (beside rest)]
    rfl
  | succ timeout ih =>
    unfold pollFifo
    dsimp only [Bus.fst_read]
    rw [apply_ite (beside rest), ih]
    rfl

theorem popFifo_fst (k : ℕ) (s : ReadState w σ) :
    popFifo bus.fst k (s.onBoard rest) = (popFifo bus k s).onBoard rest := by
  induction k generalizing s with
  | zero => rfl
  | succ k ih =>
    rw [popFifo, popFifo, ← ih]
    rfl

theorem readFifo_fst (s : ReadState w σ) :
    readFifo bus.fst (s.onBoard rest) = (readFifo bus s).onBoard rest := by
  have hpop := @popFifo_fst _ _ bus rest w (fifoSize bus s.dev).toNat
    { s with
      count := s.count - fifoSize bus s.dev * 4
      dev := (bus.read Reg.status s.dev).2 }
  unfold readFifo
  dsimp only
  exact congrArg
    (fun s => { s with dev := bus.fst.write Reg.rintsts (bit Rintsts.rxdr) s.dev }) hpop

theorem receive_fst (s : ReadState w σ) :
    receive bus.fst (s.onBoard rest) =
      Sum.map (ReadState.onBoard rest) (ReadState.onBoard rest) (receive bus s) := by
  simp only [receive, ReadState.onBoard, dataReady_fst]
  rcases dataReady bus s.dev with ⟨_ | _, dev⟩
  · rfl
  simp only [beside_mk, pollFifo_fst]
  rcases pollFifo bus sdmmcTimeout dev with ⟨timeout, dev'⟩
  have hread := @readFifo_fst _ _ bus rest w { s with dev := dev' }
  simp only [ReadState.onBoard] at hread
  simp only [beside_mk, Bool.not_true, Bool.false_eq_true, if_false, hread]
  rw [apply_ite (Sum.map _ _)]
  rfl

theorem clearHto_fst (dev : σ) : clearHto bus.fst (dev, rest) = (clearHto bus dev, rest) := by
  unfold clearHto
  dsimp only
  rw [apply_ite (·, rest)]
  rfl

theorem checkRead_fst (nxDebug : Bool) (s : ReadState w σ) :
    checkRead bus.fst nxDebug (s.onBoard rest) =
      Sum.map (ReadState.onBoard rest) (readResult rest) (checkRead bus nxDebug s) := by
  unfold checkRead
  dsimp only
  rw [apply_ite (Sum.map (ReadState.onBoard rest) (readResult rest))]
  refine ite_congr rfl (fun _ => ?_) fun _ => ?_
  · cases nxDebug <;> rfl
  · rw [apply_ite (Sum.map (ReadState.onBoard rest) (readResult rest))]
    refine ite_congr rfl (fun _ => rfl) fun _ => ?_
    cases nxDebug with
    | false => rfl
    | true =>
      have hclear := @clearHto_fst _ _ bus rest
        (bus.read Reg.rintsts (dataError bus s.dev).2).2
      exact congrArg
        (fun d => Sum.inl { s.onBoard rest with dev := (bus.fst.read Reg.rintsts d).2 }) hclear

theorem readSectorBody_fst (nxDebug : Bool) (s : ReadState w σ) :
    readSectorBody bus.fst nxDebug (s.onBoard rest) =
      Sum.map (ReadState.onBoard rest) (readResult rest) (readSectorBody bus nxDebug s) := by
  unfold readSectorBody
  rw [apply_ite (Sum.map (ReadState.onBoard rest) (readResult rest)), receive_fst]
  refine ite_congr rfl (fun _ => rfl) fun _ => ?_
  cases receive bus s with
  | inl s' => exact checkRead_fst nxDebug s'
  | inr s' => rfl

theorem readSectorData_fst (nxDebug : Bool) (fuel : ℕ) (numberOfSector : U32) (pdwBuffer : BitVec w)
    (mem : Traced w) (dev : σ) :
    readSectorData bus.fst nxDebug fuel numberOfSector pdwBuffer mem (dev, rest) =
      (readSectorData bus nxDebug fuel numberOfSector pdwBuffer mem dev).map (readResult rest) :=
  run_map (readSectorBody_fst nxDebug) fuel (startRead numberOfSector pdwBuffer mem dev)

theorem waitNotBusy_fst (dev : σ) :
    waitNotBusy bus.fst (dev, rest) = Sum.map (·, rest) (·, rest) (waitNotBusy bus dev) := by
  unfold waitNotBusy
  dsimp only
  rw [apply_ite (Sum.map (·, rest) (·, rest))]
  rfl

theorem waitTransferState_fst (fuel : ℕ) (st : SdxcBootStatus) (dev : σ) :
    waitTransferState bus.fst fuel st (dev, rest) =
      Sum.map (·, rest) (Option.map (beside rest)) (waitTransferState bus fuel st dev) := by
  simp only [waitTransferState, sendCommand_fst]
  rcases sendCommand bus fuel st (sendStatusCommand st) dev with _ | ⟨cmd, dev'⟩
  · rfl
  dsimp only [Option.map_some, beside_mk]
  rw [apply_ite (Sum.map (·, rest) (Option.map (beside rest))),
    apply_ite (Sum.map (·, rest) (Option.map (beside rest)))]
  rfl

theorem waitAutoStop_fst (dev : σ) :
    waitAutoStop bus.fst (dev, rest) = Sum.map (·, rest) (·, rest) (waitAutoStop bus dev) := by
  unfold waitAutoStop
  dsimp only
  rw [apply_ite (Sum.map (·, rest) (·, rest))]
  rfl

theorem waitFifoReset_fst (dev : σ) :
    waitFifoReset bus.fst (dev, rest) = Sum.map (·, rest) (·, rest) (waitFifoReset bus dev) := by
  unfold waitFifoReset
  dsimp only
  rw [apply_ite (Sum.map (·, rest) (·, rest))]
  rfl

theorem readSectorsToEnd_fst (nxDebug : Bool) (fuel : ℕ) (st : SdxcBootStatus)
    (sectorNum numberOfSector : U32) (pdwBuffer : BitVec w) (mem : Traced w) (dev : σ) :
    readSectorsToEnd bus.fst nxDebug fuel st sectorNum numberOfSector pdwBuffer mem (dev, rest) =
      (readSectorsToEnd bus nxDebug fuel st sectorNum numberOfSector pdwBuffer mem dev).map
        fun r => (r.1, beside rest r.2) := by
  have hbusy : run (waitNotBusy bus.fst) fuel (dev, rest) =
      (run (waitNotBusy bus) fuel dev).map (·, rest) := run_map waitNotBusy_fst fuel dev
  have htransfer : ∀ d : σ, run (waitTransferState bus.fst fuel st) fuel (d, rest) =
      (run (waitTransferState bus fuel st) fuel d).map (Option.map (beside rest)) :=
    run_map (waitTransferState_fst fuel st) fuel
  have hstop : ∀ d : σ, run (waitAutoStop bus.fst) fuel (d, rest) =
      (run (waitAutoStop bus) fuel d).map (·, rest) := run_map waitAutoStop_fst fuel
  simp only [readSectorsToEnd, hbusy, Option.bind_eq_bind]
  rcases run (waitNotBusy bus) fuel dev with _ | dev₁
  · rfl
  simp only [Option.map_some, Option.bind_some, htransfer]
  rcases run (waitTransferState bus fuel st) fuel dev₁ with _ | _ | ⟨_ | _, dev₂⟩
  · rfl
  · rfl
  · rfl
  simp only [Option.map_some, Option.join_some, beside_mk, Option.bind_some, Bool.not_true,
    Bool.false_eq_true, if_false, Bus.fst_read, Bus.fst_write, sendCommand_fst]
  rcases sendCommand bus fuel st (readCommand st sectorNum numberOfSector) _ with _ | ⟨cmd, dev₃⟩
  · rfl
  simp only [Option.map_some, beside_mk, Option.bind_some, readSectorData_fst]
  by_cases hstatus : cmd.status = 0
  · rw [if_neg (not_not_intro hstatus), if_neg (not_not_intro hstatus)]
    rcases readSectorData bus nxDebug fuel numberOfSector pdwBuffer mem dev₃ with _ | ⟨_ | _, s⟩
    · rfl
    · rfl
    simp only [Option.map_some, readResult, Option.bind_some, Bool.not_true, Bool.false_eq_true,
      if_false, ReadState.onBoard, Bus.fst_read, hstop]
    by_cases hmany : numberOfSector > 1
    · rw [if_pos hmany, if_pos hmany]
      rcases run (waitAutoStop bus) fuel _ with _ | dev₄
      · rfl
      cases nxDebug <;> rfl
    · rw [if_neg hmany, if_neg hmany]
      rfl
  · rw [if_pos hstatus, if_pos hstatus]
    rfl

theorem readSectors_fst (nxDebug : Bool) (fuel : ℕ) (st : SdxcBootStatus)
    (sectorNum numberOfSector : U32) (pdwBuffer : BitVec w) (mem : Traced w) (dev : σ) :
    readSectors bus.fst nxDebug fuel st sectorNum numberOfSector pdwBuffer mem (dev, rest) =
      (readSectors bus nxDebug fuel st sectorNum numberOfSector pdwBuffer mem dev).map
        fun r => (r.1, beside rest r.2) := by
  have hreset : ∀ d : σ, run (waitFifoReset bus.fst) fuel (d, rest) =
      (run (waitFifoReset bus) fuel d).map (·, rest) := run_map waitFifoReset_fst fuel
  simp only [readSectors, readSectorsToEnd_fst, Option.bind_eq_bind]
  rcases readSectorsToEnd bus nxDebug fuel st sectorNum numberOfSector pdwBuffer mem dev with
    _ | ⟨_ | _, mem', dev₁⟩
  · rfl
  · simp only [Option.map_some, beside_mk, Option.bind_some, Bool.false_eq_true, if_false,
      sendCommandInternal_fst]
    rcases sendCommandInternal bus fuel stopCommand dev₁ with _ | ⟨_, dev₂⟩
    · rfl
    simp only [Option.map_some, beside_mk, Option.bind_some, Bus.fst_read, Bus.fst_write, hreset]
    rcases run (waitFifoReset bus) fuel _ with _ | dev₃
    · rw [apply_ite (Option.map _)]
      rfl
    · rw [apply_ite (Option.map _)]
      rfl
  · rfl

end Gec6818Bl1.Sdmmc
