import Gec6818Bl1.Usb.Receive
import Gec6818Bl1.Lib.Lts

/-!
# The USB controller's interrupts

`iUSBBOOT` goes round calling `nx_udc_int_hndlr`, one interrupt status at a time. Two of its
branches reach the download: the end of an enumeration starts the header again (`usbSetInit`), and
a packet in the receive FIFO goes to `intBulkout`. A bus reset, a setup packet and the endpoint
interrupts change registers and the state of endpoint 0 only, none of which the download reads.

A run of the loop is a run of `step` (`Lts`), which stops when `bDownLoading` is `CFALSE`. Without
enumerations it is `receive` over the packets (`run_eq_receive`).
-/

namespace Gec6818Bl1.Usb

open ByteMem

/-- What one call of `nx_udc_int_hndlr` reads. -/
structure UdcInt where
  /-- `GCSR.GINTSTS`. -/
  gintsts : BitVec 32
  /-- `DCSR.DSTS`, after an enumeration. -/
  dsts : BitVec 32
  /-- `GCSR.GRXSTSP`, if the receive FIFO is not empty. -/
  grxstsp : BitVec 32
  /-- The words of `EPFifo[BULK_OUT_EP]`, in the order they are read. -/
  fifo : ℕ → BitVec 32

/-- `INT_ENUMDONE`. -/
def UdcInt.enumDone (e : UdcInt) : Bool := e.gintsts.getLsbD 13

/-- `INT_RX_FIFO_NOT_EMPTY`. -/
def UdcInt.rxFifoNotEmpty (e : UdcInt) : Bool := e.gintsts.getLsbD 4

/-- `(status & 0x6) >> 1` is `USB_HIGH` or `USB_FULL`. -/
def UdcInt.speedKnown (e : UdcInt) : Bool :=
  (e.dsts &&& 0x6) >>> 1 == 0 || (e.dsts &&& 0x6) >>> 1 == 1

def UdcInt.fifoCntByte (e : UdcInt) : ℕ := ((e.grxstsp &&& 0x7ff0) >>> 4).toNat

theorem UdcInt.fifoCntByte_le (e : UdcInt) : e.fifoCntByte ≤ 0x7FF := by
  rw [fifoCntByte, BitVec.toNat_ushiftRight, BitVec.toNat_and, Nat.shiftRight_eq_div_pow]
  have := Nat.and_le_right (n := e.grxstsp.toNat) (m := (0x7ff0 : BitVec 32).toNat)
  exact Nat.div_le_of_le_mul (this.trans (by decide))

/-- `OUT_PKT_RECEIVED` on a bulk OUT endpoint, with a byte count that is not 0. -/
def UdcInt.outPacket (e : UdcInt) : Bool :=
  e.grxstsp &&& 0x1E0000 == 0x2 <<< 17 && e.grxstsp &&& 2 != 0 && e.fifoCntByte != 0

theorem UdcInt.fifoCntByte_pos {e : UdcInt} (h : e.outPacket = true) : 0 < e.fifoCntByte := by
  simp only [outPacket, Bool.and_eq_true, bne_iff_ne, ne_eq] at h
  exact Nat.pos_of_ne_zero h.2

/-- The packet that `nx_usb_pkt_receive` hands on, if there is one. -/
def UdcInt.packet (e : UdcInt) : Option Packet :=
  if h : e.outPacket = true then
    some {
      count := e.fifoCntByte
      words := (List.range ((e.fifoCntByte + 3) / 4)).map e.fifo
      count_pos := e.fifoCntByte_pos h
      count_le := e.fifoCntByte_le
      length_words := by simp }
  else none

variable {w : ℕ} (pTBI : BitVec w)

/-- `nx_usb_set_init`: the header starts again, before the speed is looked at. -/
def usbSetInit (e : UdcInt) (s : UsbState w) : Bool × UsbState w :=
  (e.speedKnown, { s with bHeaderReceived := false, iRxHeaderSize := 0 })

def usbPktReceive (e : UdcInt) (s : UsbState w) : UsbState w :=
  match e.packet with
  | some p => intBulkout pTBI p s
  | none => s

/-- `nx_udc_int_hndlr`. An enumeration at an unknown speed ends the call. -/
def udcIntHndlr (e : UdcInt) (s : UsbState w) : UsbState w :=
  let (result, s) := if e.enumDone then usbSetInit e s else (true, s)
  if !result then s else
  if e.rxFifoNotEmpty then usbPktReceive pTBI e s else s

/-- Once round `while (bDownLoading)`. -/
def step (s : UsbState w) (e : UdcInt) : Option (UsbState w) :=
  if s.bDownLoading then some (udcIntHndlr pTBI e s) else none

/-! ## One interrupt -/

/-- The packet that reaches `intBulkout` in this call. -/
def UdcInt.delivers (e : UdcInt) : Option Packet :=
  if (e.enumDone && !e.speedKnown) || !e.rxFifoNotEmpty then none else e.packet

/-- The header phase, begun again. -/
def restart (s : UsbState w) : UsbState w := { s with bHeaderReceived := false, iRxHeaderSize := 0 }

/-- A call is an enumeration, if there was one, and then a packet, if there is one. -/
theorem udcIntHndlr_eq (e : UdcInt) (s : UsbState w) :
    udcIntHndlr pTBI e s =
      match e.delivers with
      | some p => intBulkout pTBI p (if e.enumDone then restart s else s)
      | none => if e.enumDone then restart s else s := by
  unfold udcIntHndlr usbSetInit usbPktReceive UdcInt.delivers restart
  cases e.enumDone <;> cases e.speedKnown <;> cases e.rxFifoNotEmpty <;> cases e.packet <;> rfl

variable {pTBI}

theorem step_eq_some {s s' : UsbState w} {e : UdcInt} :
    step pTBI s e = some s' ↔ s.bDownLoading = true ∧ udcIntHndlr pTBI e s = s' := by
  simp [step]

/-- Without an enumeration, and with a packet. -/
theorem udcIntHndlr_packet {e : UdcInt} {p : Packet} (h : e.enumDone = false)
    (hp : e.delivers = some p) (s : UsbState w) : udcIntHndlr pTBI e s = intBulkout pTBI p s := by
  rw [udcIntHndlr_eq, hp, h]
  rfl

/-- Without either. -/
theorem udcIntHndlr_idle {e : UdcInt} (h : e.enumDone = false) (hp : e.delivers = none)
    (s : UsbState w) : udcIntHndlr pTBI e s = s := by
  rw [udcIntHndlr_eq, hp, h]
  rfl

/-- A run without enumerations receives its packets, in their order. -/
theorem run_eq_receive {es : List UdcInt} {s s' : UsbState w} (hes : ∀ e ∈ es, e.enumDone = false)
    (h : Lts.run (step pTBI) s es = some s') :
    receive pTBI (es.filterMap UdcInt.delivers) s = s' := by
  induction es generalizing s with
  | nil =>
    obtain rfl : s = s' := Option.some.inj h
    rfl
  | cons e es ih =>
    obtain ⟨he, hrest⟩ := List.forall_mem_cons.1 hes
    obtain ⟨s₁, hstep, hrun⟩ := Lts.run_cons h
    obtain ⟨hdown, rfl⟩ := step_eq_some.1 hstep
    cases hp : e.delivers with
    | none =>
      rw [udcIntHndlr_idle he hp] at hrun
      rw [List.filterMap_cons_none hp]
      exact ih hrest hrun
    | some p =>
      rw [udcIntHndlr_packet he hp] at hrun
      rw [List.filterMap_cons_some hp, receive_cons hdown]
      exact ih hrest hrun

end Gec6818Bl1.Usb
