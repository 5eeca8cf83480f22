import Gec6818Bl1.Lib.ByteMem

/-!
# Control transfers

Endpoint 0 of `iUSBBOOT.c`. A SETUP packet (`nx_usb_ep0_int_hndlr`) only notes what the host asks
for; the answer goes out one packet at a time, whenever the controller reports that the endpoint's
FIFO is empty (`nx_usb_transfer_ep0`). Between two packets the rest of a descriptor is in
`Current_ptr` and `Remain_size`.

The receive FIFO is the list of words that are still in it, and the controller's registers are what
is written to them (`Write`). Once the bus speed is known (`setInit`), the size of a packet agrees
with it (`Status.Enumerated`), whatever comes.
-/

namespace Gec6818Bl1.Usb.Control

open ByteMem

/-! ## The endpoint -/

/-- `enum EP0_STATE`. -/
inductive Ep0State
  | init
  | getDscpt
  | getInterface
  | getConfig
  | getStatus
  deriving DecidableEq

/-- `USB_SPEED`, as far as `nx_usb_set_init` goes on. -/
inductive Speed
  | high
  | full
  deriving DecidableEq

def Speed.code : Speed → BitVec 32
  | high => 0
  | full => 1

/-- `HIGH_MAX_PKT_SIZE_EP0` and `FULL_MAX_PKT_SIZE_EP0`. -/
def Speed.maxPktSizeEp0 : Speed → ℕ
  | high => 64
  | full => 8

structure SetupPacket where
  bmRequestType : Byte
  bRequest : Byte
  wValue : BitVec 16
  wIndex : BitVec 16
  wLength : BitVec 16

/-- The struct laid over `buf[2]`. -/
def setupPacket (buf0 buf1 : BitVec 32) : SetupPacket where
  bmRequestType := buf0.extractLsb' 0 8
  bRequest := buf0.extractLsb' 8 8
  wValue := buf0.extractLsb' 16 16
  wIndex := buf1.extractLsb' 0 16
  wLength := buf1.extractLsb' 16 16

/-- `enum STANDARD_REQUEST_CODE`; `other` is what the `switch` has no case for. -/
inductive StandardRequest
  | getStatus
  | clearFeature
  | setFeature
  | setAddress
  | getDescriptor
  | setDescriptor
  | getConfiguration
  | setConfiguration
  | getInterface
  | setInterface
  | synchFrame
  | other

def standardRequest (bRequest : Byte) : StandardRequest :=
  match bRequest.toNat with
  | 0 => .getStatus
  | 1 => .clearFeature
  | 3 => .setFeature
  | 5 => .setAddress
  | 6 => .getDescriptor
  | 7 => .setDescriptor
  | 8 => .getConfiguration
  | 9 => .setConfiguration
  | 10 => .getInterface
  | 11 => .setInterface
  | 12 => .synchFrame
  | _ => .other

/-- `enum DESCRIPTORTYPE`, as far as there is a descriptor of that type. -/
inductive DescriptorType
  | device
  | configuration
  | other

/-- `wValue >> 8`. -/
def descriptorType (wValue : BitVec 16) : DescriptorType :=
  match (wValue >>> 8).toNat with
  | 1 => .device
  | 2 => .configuration
  | _ => .other

def deviceDescriptorSize : ℕ := 18

def configDescriptorSize : ℕ := 9 + 9 + 7 + 7

/-- The fields of `USBBOOTSTATUS` that endpoint 0 uses. -/
structure Status (w : ℕ) where
  ep0State : Ep0State
  speed : Speed
  ctrlMaxPktsize : ℕ
  currentPtr : BitVec w
  currentFifoSize : ℕ
  remainSize : ℕ
  curConfig : Byte
  curInterface : Byte
  curSetting : Byte
  deviceDescriptor : BitVec w
  configDescriptor : BitVec w

/-- A store to a register, or to the FIFO of endpoint 0. -/
inductive Write
  | dcfg (v : BitVec 32)
  | dieptsiz (v : BitVec 32)
  | diepctl (v : BitVec 32)
  | fifo (v : BitVec 32)
  deriving DecidableEq

def depctlEpena : BitVec 32 := 1#32 <<< 31

def depctlCnak : BitVec 32 := 1#32 <<< 26

def depctlStall : BitVec 32 := 1#32 <<< 21

def epenCnakEp064 : BitVec 32 := depctlEpena ||| depctlCnak ||| 0#32 <<< 11 ||| 0#32 <<< 0

def epenCnakEp08 : BitVec 32 := depctlEpena ||| depctlCnak ||| 0#32 <<< 11 ||| 3#32 <<< 0

/-- One packet of `size` bytes. -/
def tsiz (size : ℕ) : BitVec 32 := 1#32 <<< 19 ||| BitVec.ofNat 32 size

variable {w : ℕ}

/-- `nx_usb_write_in_fifo`: whole words, so up to three bytes behind the buffer are read. -/
def writeInFifo (mem : Mem w) (buf : BitVec w) (num : ℕ) : List Write :=
  (loadWords mem buf ((num + 3) / 4)).map .fifo

/-- `STANDARD_GET_DESCRIPTOR`. `Remain_size` is set before the type is looked at. -/
def getDescriptor (diepctl : BitVec 32) (p : SetupPacket) (s : Status w) :
    Status w × List Write :=
  let s := { s with remainSize := p.wLength.toNat }
  match descriptorType p.wValue with
  | .device =>
    ({ s with
        currentPtr := s.deviceDescriptor
        currentFifoSize := s.ctrlMaxPktsize
        remainSize :=
          if s.remainSize > deviceDescriptorSize then deviceDescriptorSize else s.remainSize
        ep0State := .getDscpt }, [])
  | .configuration =>
    ({ s with
        currentPtr := s.configDescriptor
        currentFifoSize := s.ctrlMaxPktsize
        remainSize :=
          if s.remainSize > configDescriptorSize then configDescriptorSize else s.remainSize
        ep0State := .getDscpt }, [])
  | .other => (s, [.diepctl (diepctl ||| depctlStall)])

/-- `switch (bRequest)`. `diepctl` is what `DIEPCTL` reads. -/
def request (diepctl : BitVec 32) (p : SetupPacket) (s : Status w) : Status w × List Write :=
  match standardRequest p.bRequest with
  | .setAddress =>
    let addr := (p.wValue &&& 0xFF#16).setWidth 32
    ({ s with ep0State := .init }, [.dcfg (1#32 <<< 18 ||| addr <<< 4 ||| s.speed.code <<< 0)])
  | .setDescriptor => (s, [])
  | .setConfiguration =>
    ({ s with curConfig := p.wValue.setWidth 8, ep0State := .init }, [])
  | .getConfiguration =>
    ({ s with ep0State := .init },
      [.dieptsiz (tsiz 1), .diepctl epenCnakEp08, .fifo (s.curConfig.setWidth 32)])
  | .getDescriptor => getDescriptor diepctl p s
  | .clearFeature => (s, [])
  | .setFeature => (s, [])
  | .getStatus => ({ s with ep0State := .getStatus }, [])
  | .getInterface => ({ s with ep0State := .getInterface }, [])
  | .setInterface =>
    ({ s with
        curInterface := p.wValue.setWidth 8
        curSetting := p.wValue.setWidth 8
        ep0State := .init }, [])
  | .synchFrame => ({ s with ep0State := .init }, [])
  | .other => (s, [])

/-- The end of `nx_usb_ep0_int_hndlr`. -/
def clearNak (s : Status w) : List Write :=
  [.dieptsiz (tsiz s.ctrlMaxPktsize),
    .diepctl (if s.speed = .high then 1#32 <<< 26 ||| 0#32 <<< 11 ||| 0#32 <<< 0
      else 1#32 <<< 26 ||| 0#32 <<< 11 ||| 3#32 <<< 0)]

/-- The words that `nx_usb_ep0_int_hndlr` leaves in the receive FIFO, the status, and the stores.
An empty FIFO reads 0. -/
def ep0IntHndlr (diepctl : BitVec 32) (rx : List (BitVec 32)) (s : Status w) :
    List (BitVec 32) × Status w × List Write :=
  let (rx, s, ws) :=
    if s.ep0State = .init then
      (rx.drop 2, request diepctl (setupPacket (rx.getD 0 0) (rx.getD 1 0)) s)
    else (rx, s, [])
  (rx, s, ws ++ clearNak s)

/-- `nx_usb_transfer_ep0`. -/
def transferEp0 (mem : Mem w) (s : Status w) : Status w × List Write :=
  match s.ep0State with
  | .init => (s, [.dieptsiz (tsiz 0), .diepctl epenCnakEp08])
  | .getDscpt =>
    let diepctl := .diepctl (if s.speed = .high then epenCnakEp064 else epenCnakEp08)
    if s.currentFifoSize ≥ s.remainSize then
      ({ s with ep0State := .init },
        diepctl :: .dieptsiz (tsiz s.remainSize) :: writeInFifo mem s.currentPtr s.remainSize)
    else
      ({ s with
          remainSize := s.remainSize - s.currentFifoSize
          currentPtr := s.currentPtr + BitVec.ofNat w s.currentFifoSize },
        diepctl :: .dieptsiz (tsiz s.currentFifoSize) ::
          writeInFifo mem s.currentPtr s.currentFifoSize)
  | .getInterface =>
    ({ s with ep0State := .init },
      [.dieptsiz (tsiz 1), .diepctl epenCnakEp08, .fifo (s.curInterface.setWidth 32)])
  | .getConfig =>
    ({ s with ep0State := .init },
      [.dieptsiz (tsiz 1), .diepctl epenCnakEp08, .fifo (s.curConfig.setWidth 32)])
  | .getStatus =>
    ({ s with ep0State := .init }, [.dieptsiz (tsiz 1), .diepctl epenCnakEp08, .fifo 0])

/-- Where the four descriptors lie. -/
structure Descriptors (w : ℕ) where
  deviceHS : BitVec w
  deviceFS : BitVec w
  configHS : BitVec w
  configFS : BitVec w

/-- `(status & 0x6) >> 1`, if it is `USB_HIGH` or `USB_FULL`. -/
def enumSpeed (dsts : BitVec 32) : Option Speed :=
  match ((dsts &&& 0x6#32) >>> 1).toNat with
  | 0 => some .high
  | 1 => some .full
  | _ => none

/-- `nx_usb_set_init`, as far as endpoint 0 goes; `none` is `CFALSE`. A vendor and product ID that
`ECID[3]` has replace those of the device descriptor. -/
def setInit (ds : Descriptors w) (dsts ecid : BitVec 32) (mem : Mem w) (s : Status w) :
    Option (Mem w × Status w) :=
  (enumSpeed dsts).map fun speed =>
    let s := match speed with
      | .high => { s with
          speed, ctrlMaxPktsize := 64, deviceDescriptor := ds.deviceHS
          configDescriptor := ds.configHS }
      | .full => { s with
          speed, ctrlMaxPktsize := 8, deviceDescriptor := ds.deviceFS
          configDescriptor := ds.configFS }
    let mem :=
      if ecid.extractLsb' 0 16 ≠ 0 ∧ ecid.extractLsb' 16 16 ≠ 0 then
        write mem (s.deviceDescriptor + BitVec.ofNat w 8)
          [ecid.extractLsb' 16 8, ecid.extractLsb' 24 8, ecid.extractLsb' 0 8,
            ecid.extractLsb' 8 8]
      else mem
    (mem, s)

/-! ## Enumerated -/

/-- An enumeration has set the packet size. -/
def Status.Enumerated (s : Status w) : Prop := s.ctrlMaxPktsize = s.speed.maxPktSizeEp0

theorem setInit_enumerated {ds : Descriptors w} {dsts ecid : BitVec 32} {mem mem' : Mem w}
    {s s' : Status w} (h : setInit ds dsts ecid mem s = some (mem', s')) : s'.Enumerated := by
  obtain ⟨speed, -, heq⟩ := Option.map_eq_some_iff.1 h
  obtain ⟨-, rfl⟩ := Prod.mk.inj heq
  cases speed <;> rfl

theorem getDescriptor_enumerated {s : Status w} (hs : s.Enumerated) (diepctl : BitVec 32)
    (p : SetupPacket) : (getDescriptor diepctl p s).1.Enumerated := by
  unfold getDescriptor
  cases descriptorType p.wValue <;> exact hs

theorem request_enumerated {s : Status w} (hs : s.Enumerated) (diepctl : BitVec 32)
    (p : SetupPacket) : (request diepctl p s).1.Enumerated := by
  unfold request
  cases standardRequest p.bRequest with
  | getDescriptor => exact getDescriptor_enumerated hs diepctl p
  | _ => exact hs

theorem ep0IntHndlr_enumerated {s : Status w} (hs : s.Enumerated) (diepctl : BitVec 32)
    (rx : List (BitVec 32)) : (ep0IntHndlr diepctl rx s).2.1.Enumerated := by
  rw [ep0IntHndlr]
  split_ifs
  · exact request_enumerated hs diepctl _
  · exact hs

theorem transferEp0_enumerated {s : Status w} (hs : s.Enumerated) (mem : Mem w) :
    (transferEp0 mem s).1.Enumerated := by
  rw [transferEp0]
  split
  case h_2 => split_ifs <;> exact hs
  all_goals exact hs

end Gec6818Bl1.Usb.Control
