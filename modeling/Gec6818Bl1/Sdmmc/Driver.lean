import Gec6818Bl1.Lib.ByteMem
import Gec6818Bl1.Lib.Polling

/-!
# The SD/MMC driver

`iSDHCBOOT.c` from `NX_SDMMC_ReadSectors` down, register access by register access, over any bus.
Every read of a register is a read of the bus, those of a failed `NX_ASSERT` and of the messages of
a `NX_DEBUG` build included; what they print is left out.

The loops that count towards `NX_SDMMC_TIMEOUT` end by themselves and recurse on what is left of
the count. The others end only if the controller lets them, and take fuel; `none` is a run that
needs more of it.
-/

namespace Gec6818Bl1

open ByteMem Polling

abbrev U32 := BitVec 32

namespace Sdmmc

/-- `struct NX_SDMMC_RegisterSet`: a register is its offset. -/
abbrev SdxcBus (σ : Type*) := Bus ℕ U32 σ

namespace Reg

def ctrl : ℕ := 0x000
def bytcnt : ℕ := 0x020
def cmdarg : ℕ := 0x028
def cmd : ℕ := 0x02C
def resp (i : ℕ) : ℕ := 0x030 + 4 * i
def rintsts : ℕ := 0x044
def status : ℕ := 0x048
def data : ℕ := 0x200

end Reg

/-! Bit numbers of `RINTSTS`, `STATUS`, `CTRL` and `CMD`. -/

namespace Rintsts

def ebe : ℕ := 15
def acd : ℕ := 14
def sbe : ℕ := 13
def hle : ℕ := 12
def hto : ℕ := 10
def drto : ℕ := 9
def rto : ℕ := 8
def dcrc : ℕ := 7
def rcrc : ℕ := 6
def rxdr : ℕ := 5
def dto : ℕ := 3
def cd : ℕ := 2
def re : ℕ := 1

end Rintsts

namespace Status

def fifoCount : U32 := 0x1FFF <<< 17
def fsmBusy : ℕ := 10
def dataBusy : ℕ := 9
def fifoEmpty : ℕ := 2

end Status

namespace Ctrl

def fifoRst : ℕ := 1

end Ctrl

namespace CmdFlag

def startCmd : ℕ := 31
def useHoldReg : ℕ := 29
def stopAbort : ℕ := 14
def waitPrvDat : ℕ := 13
def sendAutoStop : ℕ := 12
def rxData : ℕ := 9
def chkRspCrc : ℕ := 8
def shortRsp : ℕ := 6

/-- The second of the two bits of `LONGRSP`. -/
def longRsp : ℕ := 7

end CmdFlag

def bit (i : ℕ) : U32 := 1 <<< i

def sdmmcTimeout : ℕ := 0x100000

def blockLength : U32 := 512

section Driver

variable {σ : Type*} (bus : SdxcBus σ)

/-! ## Commands -/

namespace CmdStatus

def error : U32 := bit 31
def cmdBusy : U32 := error ||| bit 0
def cmdTout : U32 := error ||| bit 1
def resCrcFail : U32 := error ||| bit 2
def resError : U32 := error ||| bit 3
def resTout : U32 := error ||| bit 4
def dataBusy : U32 := error ||| bit 6

end CmdStatus

/-- The response index an `NX_SDMMC_COMMAND` carries above its command number. -/
def rspIdxR1 : U32 := 1

def rspIdxR1b : U32 := 1 ||| 0x80

def stopTransmission : U32 := 12 ||| rspIdxR1b <<< 8
def sendStatusIdx : U32 := 13 ||| rspIdxR1 <<< 8
def readSingleBlock : U32 := 17 ||| rspIdxR1 <<< 8
def readMultipleBlock : U32 := 18 ||| rspIdxR1 <<< 8

/-- `NX_SDMMC_COMMAND`. -/
structure Command where
  cmdidx : U32
  arg : U32
  flag : U32
  status : U32 := 0
  response : ℕ → U32 := fun _ => 0

/-- `while( CMD & STARTCMD )`, with `left` ticks to go: what is left of them, `none` if they ran
out. -/
def waitStart : ℕ → σ → Option ℕ × σ
  | left, dev =>
    let (cmd, dev) := bus.read Reg.cmd dev
    if cmd.getLsbD CmdFlag.startCmd then
      match left with
      | 0 => (none, dev)
      | left + 1 => waitStart left dev
    else (some left, dev)

/-- The body of the `do`-`while` around it, which `HLE` repeats; the ticks go on being counted. -/
def issueCommand (pCommand : Command) : ℕ × σ → (ℕ × σ) ⊕ (Bool × σ)
  | (left, dev) =>
    let dev := bus.write Reg.rintsts (bit Rintsts.hle) dev
    let dev := bus.write Reg.cmdarg pCommand.arg dev
    let dev := bus.write Reg.cmd
      ((pCommand.cmdidx &&& 0xFF) ||| pCommand.flag ||| bit CmdFlag.useHoldReg) dev
    match waitStart bus left dev with
    | (none, dev) => .inr (false, dev)
    | (some left, dev) =>
      let (rintsts, dev) := bus.read Reg.rintsts dev
      if rintsts.getLsbD Rintsts.hle then .inl (left, dev) else .inr (true, dev)

/-- `while( 0 == (STATUS & FIFOEMPTY) ) DATA;`. -/
def drainFifo : σ → σ ⊕ σ
  | dev =>
    let (status, dev) := bus.read Reg.status dev
    if status.getLsbD Status.fifoEmpty then .inr dev else .inl (bus.read Reg.data dev).2

/-- Wait for `CD`: `false` on a time-out. -/
def waitCommandDone (fuel : ℕ) (flag : U32) : ℕ → σ → Option (Bool × σ)
  | left, dev =>
    let (rintsts, dev) := bus.read Reg.rintsts dev
    if rintsts.getLsbD Rintsts.cd then some (true, dev) else
    match left with
    | 0 => some (false, dev)
    | left + 1 =>
      if flag.getLsbD CmdFlag.stopAbort then
        let (rintsts, dev) := bus.read Reg.rintsts dev
        if rintsts.getLsbD Rintsts.hto then
          (run (drainFifo bus) fuel dev).bind fun dev => waitCommandDone fuel flag left dev
        else waitCommandDone fuel flag left dev
      else waitCommandDone fuel flag left dev

def responseError (dev : σ) : U32 × σ :=
  let (rintsts, dev) := bus.read Reg.rintsts dev
  if rintsts.getLsbD Rintsts.rcrc || rintsts.getLsbD Rintsts.re || rintsts.getLsbD Rintsts.rto then
    let (rintsts, dev) := bus.read Reg.rintsts dev
    let status := if rintsts.getLsbD Rintsts.rcrc then CmdStatus.resCrcFail else 0
    let (rintsts, dev) := bus.read Reg.rintsts dev
    let status := if rintsts.getLsbD Rintsts.re then status ||| CmdStatus.resError else status
    let (rintsts, dev) := bus.read Reg.rintsts dev
    let status := if rintsts.getLsbD Rintsts.rto then status ||| CmdStatus.resTout else status
    (status, dev)
  else (0, dev)

/-- The wait for the card after an `R1b` response: `false` on a time-out. -/
def waitDataReady : ℕ → σ → Bool × σ
  | 0, dev => (false, dev)
  | left + 1, dev =>
    let (status, dev) := bus.read Reg.status dev
    if status.getLsbD Status.dataBusy then waitDataReady left dev else (true, dev)

/-- The responses, for a command that got one without an error. -/
def readResponse (pCommand : Command) (dev : σ) : Command × σ :=
  let (resp0, dev) := bus.read (Reg.resp 0) dev
  if pCommand.flag.getLsbD CmdFlag.longRsp then
    let (resp1, dev) := bus.read (Reg.resp 1) dev
    let (resp2, dev) := bus.read (Reg.resp 2) dev
    let (resp3, dev) := bus.read (Reg.resp 3) dev
    ({ pCommand with response := fun i => [resp0, resp1, resp2, resp3].getD i 0 }, dev)
  else
    ({ pCommand with response := Function.update pCommand.response 0 resp0 }, dev)

/-- `NX_SDMMC_SendCommandInternal`; the command comes back with its `status` and `response`. -/
def sendCommandInternal (fuel : ℕ) (pCommand : Command) (dev : σ) : Option (Command × σ) := do
  let dev := bus.write Reg.rintsts 0xFFFFFFFF dev
  let (sent, dev) ← run (issueCommand bus pCommand) fuel (sdmmcTimeout, dev)
  if !sent then return ({ pCommand with status := CmdStatus.cmdBusy }, dev)
  let (done, dev) ← waitCommandDone bus fuel pCommand.flag sdmmcTimeout dev
  if !done then return ({ pCommand with status := CmdStatus.cmdTout }, dev)
  let (status, dev) := responseError bus dev
  if status = 0 ∧ pCommand.flag.getLsbD CmdFlag.shortRsp then
    let (pCommand, dev) := readResponse bus pCommand dev
    if (pCommand.cmdidx >>> 8) &&& 0xFF = rspIdxR1b then
      let (ready, dev) := waitDataReady bus sdmmcTimeout dev
      return ({ pCommand with status := if ready then 0 else CmdStatus.dataBusy }, dev)
    else return ({ pCommand with status := 0 }, dev)
  else return ({ pCommand with status }, dev)

/-- What `NX_SDMMC_Open` found out about the card. -/
structure SdxcBootStatus where
  rca : U32
  bHighCapacity : Bool

def sendStatusCommand (st : SdxcBootStatus) : Command where
  cmdidx := sendStatusIdx
  arg := st.rca
  flag := bit CmdFlag.startCmd ||| bit CmdFlag.chkRspCrc ||| bit CmdFlag.shortRsp

/-- `NX_SDMMC_SendCommand`: after a failed command the status of the card is asked for, and
ignored. -/
def sendCommand (fuel : ℕ) (st : SdxcBootStatus) (pCommand : Command) (dev : σ) :
    Option (Command × σ) := do
  let (pCommand, dev) ← sendCommandInternal bus fuel pCommand dev
  if pCommand.status = 0 then return (pCommand, dev)
  let (_, dev) ← sendCommandInternal bus fuel (sendStatusCommand st) dev
  return (pCommand, dev)

/-! ## Sector data -/

/-- The locals of `NX_SDMMC_ReadSectorData`, the memory it stores to and the controller. -/
structure ReadState (w : ℕ) (σ : Type*) where
  count : U32
  pdwBuffer : BitVec w
  mem : Traced w
  /-- The words read from `DATA` so far, oldest first; a record only. -/
  popped : List U32
  dev : σ

variable {w : ℕ}

/-- `(RINTSTS & RXDR) || (RINTSTS & DTO)`. -/
def dataReady (dev : σ) : Bool × σ :=
  let (rintsts, dev) := bus.read Reg.rintsts dev
  if rintsts.getLsbD Rintsts.rxdr then (true, dev) else
  let (rintsts, dev) := bus.read Reg.rintsts dev
  (rintsts.getLsbD Rintsts.dto, dev)

/-- `while((STATUS & FIFOEMPTY) && Timeout--);`, and the `Timeout` it leaves. -/
def pollFifo : ℕ → σ → U32 × σ
  | timeout, dev =>
    let (status, dev) := bus.read Reg.status dev
    if status.getLsbD Status.fifoEmpty then
      match timeout with
      | 0 => (-1, dev)
      | timeout + 1 => pollFifo timeout dev
    else (BitVec.ofNat 32 timeout, dev)

/-- `FSize`, as a read of `STATUS` gives it. -/
def fifoSize (dev : σ) : U32 := ((bus.read Reg.status dev).1 &&& Status.fifoCount) >>> 17

/-- `while(FSize) { *pdwBuffer++ = DATA; FSize--; }`. -/
def popFifo : ℕ → ReadState w σ → ReadState w σ
  | 0, s => s
  | fSize + 1, s =>
    let (word, dev) := bus.read Reg.data s.dev
    popFifo fSize { s with
      pdwBuffer := s.pdwBuffer + BitVec.ofNat w 4
      mem := s.mem.store s.pdwBuffer (leBytes word)
      popped := s.popped ++ [word]
      dev }

def readFifo (s : ReadState w σ) : ReadState w σ :=
  let fSize := fifoSize bus s.dev
  let s := popFifo bus fSize.toNat { s with
    count := s.count - fSize * 4
    dev := (bus.read Reg.status s.dev).2 }
  { s with dev := bus.write Reg.rintsts (bit Rintsts.rxdr) s.dev }

/-- The first `if` of the loop; `inr` is the `break` in it. -/
def receive (s : ReadState w σ) : ReadState w σ ⊕ ReadState w σ :=
  let (ready, dev) := dataReady bus s.dev
  if !ready then .inl { s with dev } else
  let (timeout, dev) := pollFifo bus sdmmcTimeout dev
  if timeout = 0 then .inr { s with dev } else .inl (readFifo bus { s with dev })

def dataError (dev : σ) : Bool × σ :=
  let (rintsts, dev) := bus.read Reg.rintsts dev
  (rintsts.getLsbD Rintsts.drto || rintsts.getLsbD Rintsts.ebe || rintsts.getLsbD Rintsts.sbe ||
    rintsts.getLsbD Rintsts.dcrc, dev)

/-- `RINTSTS` read again for each message of a `NX_DEBUG` build. -/
def printDataErrors (dev : σ) : σ :=
  let dev := (bus.read Reg.rintsts dev).2
  let dev := (bus.read Reg.rintsts dev).2
  let dev := (bus.read Reg.rintsts dev).2
  (bus.read Reg.rintsts dev).2

def clearHto (dev : σ) : σ :=
  let (rintsts, dev) := bus.read Reg.rintsts dev
  if rintsts.getLsbD Rintsts.hto then bus.write Reg.rintsts (bit Rintsts.hto) dev else dev

/-- Behind the loop: `RINTSTS = DTO; return CTRUE;`. -/
def leaveRead (s : ReadState w σ) : Bool × ReadState w σ :=
  (true, { s with dev := bus.write Reg.rintsts (bit Rintsts.dto) s.dev })

/-- The rest of the loop's body, from the error check on. -/
def checkRead (nxDebug : Bool) (s : ReadState w σ) : ReadState w σ ⊕ (Bool × ReadState w σ) :=
  let (error, dev) := dataError bus s.dev
  if error then
    .inr (false, { s with dev := if nxDebug then printDataErrors bus dev else dev })
  else
  let (rintsts, dev) := bus.read Reg.rintsts dev
  if rintsts.getLsbD Rintsts.dto ∧ s.count = 0 then
    .inr (leaveRead bus { s with dev := bus.write Reg.rintsts (bit Rintsts.dto) dev })
  else
    let dev := if nxDebug then clearHto bus dev else dev
    -- the read of the assertion on `FRUN`
    .inl { s with dev := (bus.read Reg.rintsts dev).2 }

def readSectorBody (nxDebug : Bool) (s : ReadState w σ) :
    ReadState w σ ⊕ (Bool × ReadState w σ) :=
  if s.count = 0 then .inr (leaveRead bus s) else
  match receive bus s with
  | .inr s => .inr (leaveRead bus s)
  | .inl s => checkRead bus nxDebug s

def startRead (numberOfSector : U32) (pdwBuffer : BitVec w) (mem : Traced w) (dev : σ) :
    ReadState w σ where
  count := numberOfSector * blockLength
  pdwBuffer := pdwBuffer
  mem := mem
  popped := []
  dev := dev

/-- `NX_SDMMC_ReadSectorData`. -/
def readSectorData (nxDebug : Bool) (fuel : ℕ) (numberOfSector : U32) (pdwBuffer : BitVec w)
    (mem : Traced w) (dev : σ) : Option (Bool × ReadState w σ) :=
  run (readSectorBody bus nxDebug) fuel (startRead numberOfSector pdwBuffer mem dev)

/-! ## Sectors -/

/-- `while( STATUS & (DATABUSY | FSMBUSY) );`. -/
def waitNotBusy : σ → σ ⊕ σ
  | dev =>
    let (status, dev) := bus.read Reg.status dev
    if status.getLsbD Status.dataBusy || status.getLsbD Status.fsmBusy then .inl dev else .inr dev

/-- The body of the loop that waits for the transfer state; `some false` goes to `End`, and `none`
is a command that needs more fuel. -/
def waitTransferState (fuel : ℕ) (st : SdxcBootStatus) (dev : σ) : σ ⊕ Option (Bool × σ) :=
  match sendCommand bus fuel st (sendStatusCommand st) dev with
  | none => .inr none
  | some (cmd, dev) =>
    if cmd.status ≠ 0 then .inr (some (false, dev))
    else if (cmd.response 0).getLsbD 8 ∧ (cmd.response 0 >>> 9) &&& 0xF = 4 then
      .inr (some (true, dev))
    else .inl dev

def readCommand (st : SdxcBootStatus) (sectorNum numberOfSector : U32) : Command where
  cmdidx := if numberOfSector > 1 then readMultipleBlock else readSingleBlock
  arg := if st.bHighCapacity then sectorNum else sectorNum * blockLength
  flag :=
    let flag := bit CmdFlag.startCmd ||| bit CmdFlag.waitPrvDat ||| bit CmdFlag.chkRspCrc |||
      bit CmdFlag.shortRsp ||| bit CmdFlag.rxData
    if numberOfSector > 1 then flag ||| bit CmdFlag.sendAutoStop else flag

/-- `while( 0 == (RINTSTS & ACD) );`. -/
def waitAutoStop : σ → σ ⊕ σ
  | dev =>
    let (rintsts, dev) := bus.read Reg.rintsts dev
    if rintsts.getLsbD Rintsts.acd then .inr dev else .inl dev

/-- `NX_SDMMC_ReadSectors` up to the label `End`. -/
def readSectorsToEnd (nxDebug : Bool) (fuel : ℕ) (st : SdxcBootStatus)
    (sectorNum numberOfSector : U32) (pdwBuffer : BitVec w) (mem : Traced w) (dev : σ) :
    Option (Bool × Traced w × σ) := do
  let dev ← run (waitNotBusy bus) fuel dev
  let (inTransfer, dev) ← (run (waitTransferState bus fuel st) fuel dev).join
  if !inTransfer then return (false, mem, dev)
  -- the reads of the assertions on `FIFOEMPTY` and `FSMBUSY`
  let dev := (bus.read Reg.status dev).2
  let dev := (bus.read Reg.status dev).2
  let dev := bus.write Reg.bytcnt (numberOfSector * blockLength) dev
  let (cmd, dev) ← sendCommand bus fuel st (readCommand st sectorNum numberOfSector) dev
  if cmd.status ≠ 0 then return (false, mem, dev)
  let (result, s) ← readSectorData bus nxDebug fuel numberOfSector pdwBuffer mem dev
  if !result then return (false, s.mem, s.dev)
  -- `FIFOEMPTY`, `FIFOFULL` and `FIFOCOUNT`
  let dev := (bus.read Reg.status s.dev).2
  let dev := (bus.read Reg.status dev).2
  let dev := (bus.read Reg.status dev).2
  if numberOfSector > 1 then
    let dev ← run (waitAutoStop bus) fuel dev
    let dev := (bus.read Reg.status dev).2
    return (true, s.mem, if nxDebug then (bus.read (Reg.resp 1) dev).2 else dev)
  else return (true, s.mem, dev)

def stopCommand : Command where
  cmdidx := stopTransmission
  arg := 0
  flag := bit CmdFlag.startCmd ||| bit CmdFlag.chkRspCrc ||| bit CmdFlag.shortRsp |||
    bit CmdFlag.stopAbort

/-- `while( CTRL & FIFORST );`. -/
def waitFifoReset : σ → σ ⊕ σ
  | dev =>
    let (ctrl, dev) := bus.read Reg.ctrl dev
    if ctrl.getLsbD Ctrl.fifoRst then .inl dev else .inr dev

/-- `NX_SDMMC_ReadSectors`. -/
def readSectors (nxDebug : Bool) (fuel : ℕ) (st : SdxcBootStatus) (sectorNum numberOfSector : U32)
    (pdwBuffer : BitVec w) (mem : Traced w) (dev : σ) : Option (Bool × Traced w × σ) := do
  let (result, mem, dev) ←
    readSectorsToEnd bus nxDebug fuel st sectorNum numberOfSector pdwBuffer mem dev
  if result then return (true, mem, dev)
  let (_, dev) ← sendCommandInternal bus fuel stopCommand dev
  let (status, dev) := bus.read Reg.status dev
  if status.getLsbD Status.fifoEmpty then return (false, mem, dev)
  let dev := bus.write Reg.ctrl (bit Ctrl.fifoRst) dev
  let dev ← run (waitFifoReset bus) fuel dev
  return (false, mem, dev)

end Driver

end Sdmmc

end Gec6818Bl1
