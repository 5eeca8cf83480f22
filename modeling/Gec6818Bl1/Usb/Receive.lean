import Gec6818Bl1.Boot.Crc
import Gec6818Bl1.Boot.Layout

/-!
# Receiving an image over USB

The bulk OUT endpoint of `iUSBBOOT.c`: a packet is read out of the FIFO to where the next bytes
belong, first into `*pTBI` until `512` bytes have come, and from then on to the header's load
address. The FIFO gives words, so a packet whose size is not a multiple of 4 stores up to three
bytes more than it has.

The controller's registers are left out: a packet is the byte count that `GRXSTSP` reports and the
words that the FIFO then yields. `stores` is a record of where they went.
-/

namespace Gec6818Bl1

open ByteMem

namespace Usb

/-- A bulk OUT packet that is not empty. -/
structure Packet where
  /-- `fifo_cnt_byte`, 11 bits of `GRXSTSP`. -/
  count : ℕ
  words : List (BitVec 32)
  count_pos : 0 < count
  count_le : count ≤ 0x7FF
  length_words : words.length = (count + 3) / 4

def Packet.bytes (p : Packet) : List Byte := (wordBytes p.words).take p.count

/-- The bytes of the packets, one after the other. -/
def stream (ps : List Packet) : List Byte := ps.flatMap Packet.bytes

/-- A store of `nx_usb_read_out_fifo`. -/
structure UsbStore (w : ℕ) where
  headerReceived : Bool
  /-- The words of a packet; the other store is that of the running CRC. -/
  ofPacket : Bool
  addr : BitVec w
  len : ℕ

/-- `USBBOOTSTATUS`, `g_fcs` and the memory. -/
structure UsbState (w : ℕ) where
  bDownLoading : Bool
  bHeaderReceived : Bool
  rxBuffAddr : BitVec w
  /-- An `S32`. -/
  iRxSize : BitVec 32
  iRxHeaderSize : ℕ
  fcs : BitVec 32
  mem : Mem w
  stores : List (UsbStore w)

variable {w : ℕ} (pTBI : BitVec w)

/-- `&g_TBI->DBI.SDMMCBI.CRC32`. -/
def crcWord : BitVec w := pTBI + BitVec.ofNat w 0x58

/-- `nx_usb_read_out_fifo`: the packet to `buf`, and the CRC of all words since the header into the
header. -/
def readOutFifo (buf : BitVec w) (p : Packet) (s : UsbState w) : UsbState w :=
  let fcs := if s.bHeaderReceived then p.words.foldl igetFcs s.fcs else s.fcs
  { s with
    fcs
    mem := write (write s.mem buf (wordBytes p.words)) (crcWord pTBI) (leBytes fcs)
    stores := s.stores ++
      [⟨s.bHeaderReceived, true, buf, 4 * p.words.length⟩,
        ⟨s.bHeaderReceived, false, crcWord pTBI, 4⟩] }

/-- The packet to `&pdwBuffer[iRxHeaderSize / 4]`. -/
def readHeader (p : Packet) (s : UsbState w) : UsbState w :=
  readOutFifo pTBI (pTBI + BitVec.ofNat w (4 * (s.iRxHeaderSize / 4))) p s

/-- `nx_usb_int_bulkout` while the header is being received. -/
def receiveHeader (p : Packet) (s : UsbState w) : UsbState w :=
  let s := readHeader pTBI p s
  let s :=
    if p.count % 4 = 0 then { s with iRxHeaderSize := s.iRxHeaderSize + p.count } else s
  if 512 ≤ s.iRxHeaderSize then
    if SecondBootInfo.signature s.mem pTBI = headerId then
      { s with
        bHeaderReceived := true
        rxBuffAddr := (SecondBootInfo.loadaddr s.mem pTBI).setWidth w
        iRxSize := SecondBootInfo.loadsize s.mem pTBI }
    else { s with iRxHeaderSize := 0 }
  else s

/-- `nx_usb_int_bulkout` behind the header. -/
def receivePayload (p : Packet) (s : UsbState w) : UsbState w :=
  let s := readOutFifo pTBI s.rxBuffAddr p s
  let s := { s with
    rxBuffAddr := s.rxBuffAddr + BitVec.ofNat w p.count
    iRxSize := s.iRxSize - BitVec.ofNat 32 p.count }
  if s.iRxSize.toInt ≤ 0 then { s with bDownLoading := false, bHeaderReceived := false } else s

def intBulkout (p : Packet) (s : UsbState w) : UsbState w :=
  if s.bHeaderReceived then receivePayload pTBI p s else receiveHeader pTBI p s

/-- `while (bDownLoading)`, over the packets in the order they come. -/
def receive : List Packet → UsbState w → UsbState w
  | [], s => s
  | p :: ps, s => if s.bDownLoading then receive ps (intBulkout pTBI p s) else s

/-- Where `iUSBBOOT` starts; the buffer address and size are set before they are read.
`bHeaderReceived` and `iRxHeaderSize` are not set in the source before `INT_ENUMDONE`, which gives
them these values and comes before the first packet. -/
def startUsb (mem : Mem w) : UsbState w where
  bDownLoading := true
  bHeaderReceived := false
  rxBuffAddr := 0
  iRxSize := 0
  iRxHeaderSize := 0
  fcs := 0
  mem := mem
  stores := []

section Packets

@[simp] theorem stream_nil : stream [] = [] := rfl

@[simp] theorem stream_cons (p : Packet) (ps : List Packet) :
    stream (p :: ps) = p.bytes ++ stream ps := rfl

theorem stream_append (ps qs : List Packet) : stream (ps ++ qs) = stream ps ++ stream qs :=
  List.flatMap_append

theorem Packet.count_le_length (p : Packet) : p.count ≤ (wordBytes p.words).length := by
  rw [length_wordBytes, p.length_words]
  omega

@[simp] theorem Packet.length_bytes (p : Packet) : p.bytes.length = p.count :=
  List.length_take_of_le p.count_le_length

/-- A packet of whole words has no padding. -/
theorem Packet.wordBytes_eq {p : Packet} (h : 4 ∣ p.count) : wordBytes p.words = p.bytes := by
  refine (List.take_of_length_le ?_).symm
  rw [length_wordBytes, p.length_words]
  omega

end Packets

variable {pTBI}

/-- Nothing comes after the download. -/
theorem receive_of_done {s : UsbState w} (h : s.bDownLoading = false) (ps : List Packet) :
    receive pTBI ps s = s := by
  cases ps with
  | nil => rfl
  | cons p ps => rw [receive, h]; rfl

theorem receive_cons {s : UsbState w} (h : s.bDownLoading = true) (p : Packet)
    (ps : List Packet) : receive pTBI (p :: ps) s = receive pTBI ps (intBulkout pTBI p s) := by
  rw [receive, h]; rfl

theorem receive_append (ps qs : List Packet) (s : UsbState w) :
    receive pTBI (ps ++ qs) s = receive pTBI qs (receive pTBI ps s) := by
  induction ps generalizing s with
  | nil => rfl
  | cons p ps ih =>
    cases h : s.bDownLoading with
    | false => rw [receive_of_done h, receive_of_done h, receive_of_done h]
    | true => rw [List.cons_append, receive_cons h, receive_cons h, ih]

theorem intBulkout_of_header {s : UsbState w} (h : s.bHeaderReceived = false) (p : Packet) :
    intBulkout pTBI p s = receiveHeader pTBI p s := by
  rw [intBulkout, h]; rfl

theorem intBulkout_of_payload {s : UsbState w} (h : s.bHeaderReceived = true) (p : Packet) :
    intBulkout pTBI p s = receivePayload pTBI p s := by
  rw [intBulkout, h]; rfl

end Usb

end Gec6818Bl1
