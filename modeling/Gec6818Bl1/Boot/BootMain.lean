import Gec6818Bl1.Boot.CardMemory
import Gec6818Bl1.Usb.Download

/-!
# The CRC check before the launch

The end of `BootMain`: the loader of the boot device fills memory and returns a result, a build with
`CRC_CHECK_ON` puts the result of `CRC_Check` in its place, and a `CTRUE` launches the image.

`CRC_Check` is given the fields of the layout `NX_SecondBootInfo` in `*pTBI`. They are the fields
of an image sent over USB, except that the receiver has put the CRC of what it received where the
CRC to compare with was. An image on a card has its fields elsewhere, in `nx_tbbinfo`.

**The gate.** `CrcGate`, that an image is launched only if its loader returned `CTRUE` and its CRC
is right by its own header, depends on what the card or the host sends (`crcGate_iff`).

* **From a card** it holds iff words of the header that mean something else do not happen to be
  address, size and CRC of something in memory, or the header is accepted, its sectors are read and
  have the CRC behind `loadsize` (`CardRight`).
* **Over USB** it holds iff the payload has the CRC that the header was sent with, or goes on behind
  the image (`StreamRight`). A payload that fits is launched whatever the header has
  (`usb_launches`).
-/

namespace Gec6818Bl1

open ByteMem Usb

/-- `LoadDevice`, of the devices with a loader. -/
inductive LoadDevice where
  | usb
  | sdmmc
  deriving DecidableEq, Repr

variable {mode : OpMode} {σ : Type*}

/-- What a loader leaves to `BootMain`. -/
structure LoadOutcome (mode : OpMode) where
  result : Bool
  mem : Mem mode.width
  /-- The header as the device delivered it; a record only, as `*pTBI` may have changed since. -/
  header : List Byte

/-- `iSDXCBOOT`. -/
def iSdxcBoot (host : SdHost σ) (env : BootEnv mode) (s : BootState mode σ) : LoadOutcome mode where
  result := (sdmmcBoot host env s).result
  mem := (sdmmcBoot host env s).mem
  header := read (readBootHeader host env s).2.mem env.pTBI 512

/-- `iUSBBOOT`, which returns when the download is complete. -/
def iUsbBoot (pTBI : BitVec mode.width) (ps : List Packet) (mem : Mem mode.width) :
    Option (LoadOutcome mode) :=
  let s := receive pTBI ps (startUsb mem)
  if s.bDownLoading then none else some { result := true, mem := s.mem, header := stream ps }

/-- `BootMain` from the end of the loader on: the address it launches. -/
def bootMain (crcCheckOn : Bool) (pTBI : BitVec mode.width) (out : LoadOutcome mode) :
    Option (BitVec mode.width) :=
  let result :=
    if crcCheckOn then
      crcCheck out.mem ((SecondBootInfo.loadaddr out.mem pTBI).setWidth mode.width)
        (SecondBootInfo.loadsize out.mem pTBI) (SecondBootInfo.crc32 out.mem pTBI)
    else out.result
  if result then some ((SecondBootInfo.launchaddr out.mem pTBI).setWidth mode.width) else none

/-! ## The gate -/

namespace LoadOutcome

variable (out : LoadOutcome mode)

/-- The header's own load address: `LOADADDR` over USB, `loadaddr` on a card. -/
def loadaddr : LoadDevice → BitVec mode.width
  | .usb => (wordAt out.header 0x48).setWidth mode.width
  | .sdmmc => mptrs mode (wordAt out.header 0x5C ++ wordAt out.header 0x58)

def loadsize : LoadDevice → BitVec 32
  | .usb => wordAt out.header 0x44
  | .sdmmc => wordAt out.header 0x50

def crc32 : LoadDevice → BitVec 32
  | .usb => wordAt out.header 0x58
  | .sdmmc => wordAt out.header 0x54

end LoadOutcome

section Card

variable (host : SdHost σ) (env : BootEnv mode) (s : BootState mode σ)

variable {host env s}

end Card

/-! ## Over USB -/

section Usb

variable {pTBI : BitVec mode.width} {ps header payload : List Packet} {mem : Mem mode.width}
  {out : LoadOutcome mode}

/-- The words behind the header, up to the end of the packet that completes the image. -/
def receivedWords (header payload : List Packet) : List (BitVec 32) :=
  (upTo (sentLoadsize (header ++ payload)).toNat payload).flatMap Packet.words

/-- Those of the image, the last one with its padding. -/
def imageWords (header payload : List Packet) : List (BitVec 32) :=
  (receivedWords header payload).take (((sentLoadsize (header ++ payload)).toNat + 3) / 4)

/-- A header in packets of its own, and a payload that is received clear of `*pTBI`. -/
structure ClearStream (pTBI : BitVec mode.width) (header payload : List Packet) : Prop where
  sends : SendsImage (header ++ payload)
  cut : (stream header).length = 512
  size : (sentLoadsize (header ++ payload)).toNat + 3 < 2 ^ 31
  clear : Disjoint (block (sentLoadaddr mode.width (header ++ payload))
    (4 * (receivedWords header payload).length)) (block pTBI 512)

theorem ClearStream.received_length (h : ClearStream pTBI header payload) (hne : payload ≠ []) :
    (sentLoadsize (header ++ payload)).toNat ≤ 4 * (receivedWords header payload).length ∧
      4 * (receivedWords header payload).length ≤ 2 ^ mode.width := by
  have hw : 2 ^ 32 ≤ 2 ^ mode.width := OpMode.two_pow_le
  have hwords := words_length (h.sends.upTo_aligned hne (sentLoadsize (header ++ payload)).toNat)
  have hle := stream_upTo_le (sentLoadsize (header ++ payload)).toNat payload
  have hwhole := h.sends.whole
  have hsize := h.size
  rw [stream_append, List.length_append, h.cut] at hwhole
  have hreach := le_stream_upTo payload (Nat.le_of_add_le_add_left hwhole)
  rw [receivedWords, hwords, roundUp4]
  omega

/-- What a download of such a stream has done. -/
theorem ClearStream.payloadDone (h : ClearStream pTBI header payload) (hne : payload ≠ [])
    (mem : Mem mode.width) : PayloadDone pTBI header payload mem := by
  have hsize := h.size
  exact h.sends.payloadDone OpMode.two_pow_le pTBI mem h.cut hne fun p _ => by omega

/-- A field of `*pTBI` after the download, other than the CRC. -/
theorem ClearStream.field (h : ClearStream pTBI header payload) (hne : payload ≠ [])
    (mem : Mem mode.width) {off : ℕ} (hoff : off + 4 ≤ 512) (hcrc : off + 4 ≤ 0x58 ∨ 0x5C ≤ off) :
    load32 (receive pTBI (header ++ payload) (startUsb mem)).mem (pTBI + BitVec.ofNat _ off) =
      wordAt (stream (header ++ payload)) off := by
  have hw : 2 ^ 32 ≤ 2 ^ mode.width := OpMode.two_pow_le
  have hdone := h.payloadDone hne mem
  -- word by word as the header left it, for the image is elsewhere
  have hkept : load32 (receive pTBI (header ++ payload) (startUsb mem)).mem
      (pTBI + BitVec.ofNat _ off) =
        load32 (receive pTBI header (startUsb mem)).mem (pTBI + BitVec.ofNat _ off) := by
    refine load32_congr fun a ha => ?_
    have hfield : a ∈ block pTBI 512 := block_sub pTBI hoff ha
    have hout : a ∉ block (crcWord pTBI) 4 := by
      rcases hcrc with hcrc | hcrc
      · exact Set.disjoint_left.1 (disjoint_block_add pTBI hcrc (by omega)) ha
      · exact Set.disjoint_right.1 (disjoint_block_add pTBI (i := 0x58) (m := 4) hcrc (by omega)) ha
    rw [hdone.received.mem (h.received_length hne).2 a hout, write_of_not_mem]
    rw [length_wordBytes]
    exact Set.disjoint_right.1 h.clear hfield
  rw [hkept, load32_of_mem hw hdone.header_done.mem (by rw [h.cut]; exact hoff) h.cut.le hcrc,
    stream_append, wordAt_append_left (by rw [h.cut]; exact hoff)]

/-- The CRC that the check compares with is the one the receiver has put there. -/
theorem ClearStream.crc32 (h : ClearStream pTBI header payload) (hne : payload ≠ [])
    (mem : Mem mode.width) :
    SecondBootInfo.crc32 (receive pTBI (header ++ payload) (startUsb mem)).mem pTBI =
      (receivedWords header payload).foldl igetFcs 0 := by
  have hw : 2 ^ 32 ≤ 2 ^ mode.width := OpMode.two_pow_le
  have hdone := h.payloadDone hne mem
  have hmem := hdone.received.mem_crc (upTo_ne_nil hne)
  rw [hdone.received.fcs] at hmem
  rw [SecondBootInfo.crc32, ← crcWord, load32_congr hmem, load32_write_leBytes _ _ _ (by omega)]
  rfl

/-- And the one it computes is that of the image. -/
theorem ClearStream.calcCrc (h : ClearStream pTBI header payload) (hne : payload ≠ [])
    (mem : Mem mode.width) :
    calcCrc (receive pTBI (header ++ payload) (startUsb mem)).mem
        (sentLoadaddr mode.width (header ++ payload)) (sentLoadsize (header ++ payload)) =
      (imageWords header payload).foldl igetFcs 0 := by
  obtain ⟨hreach, hlimit⟩ := h.received_length hne
  have hdone := h.payloadDone hne mem
  have hbytes : ∀ a ∈ block (sentLoadaddr mode.width (header ++ payload))
      (4 * (receivedWords header payload).length),
      (receive pTBI (header ++ payload) (startUsb mem)).mem a =
        write (receive pTBI header (startUsb mem)).mem
          (sentLoadaddr mode.width (header ++ payload))
          (wordBytes (receivedWords header payload)) a :=
    fun a ha => hdone.received.mem hlimit a fun hcrc =>
      Set.disjoint_left.1 h.clear ha (crcWord_block_subset hcrc)
  have hwords : loadWords (receive pTBI (header ++ payload) (startUsb mem)).mem
      (sentLoadaddr mode.width (header ++ payload)) (receivedWords header payload).length =
        receivedWords header payload := (loadWords_congr hbytes).trans (loadWords_write _ _ hlimit)
  rw [Gec6818Bl1.calcCrc, toNat_chkcnt h.size, imageWords, ← hwords,
    take_loadWords _ _ (by omega)]

/-- A boot over USB, once it has come to its end. -/
theorem ClearStream.out_eq (h : ClearStream pTBI header payload)
    (hboot : iUsbBoot pTBI (header ++ payload) mem = some out) :
    payload ≠ [] ∧ out = ⟨true, (receive pTBI (header ++ payload) (startUsb mem)).mem,
      stream (header ++ payload)⟩ := by
  have hne : payload ≠ [] := by
    rintro rfl
    rw [List.append_nil] at hboot
    have hdown := (h.sends.headerDone OpMode.two_pow_le pTBI mem h.cut).downLoading
    rw [iUsbBoot, hdown] at hboot
    cases hboot
  refine ⟨hne, ?_⟩
  rw [iUsbBoot, (h.payloadDone hne mem).done] at hboot
  exact (Option.some.inj hboot).symm

/-- What `CRC_Check` is given, and when it passes. -/
theorem ClearStream.crcCheck_iff (h : ClearStream pTBI header payload) (hne : payload ≠ [])
    (mem : Mem mode.width) {mem' : Mem mode.width}
    (hmem : mem' = (receive pTBI (header ++ payload) (startUsb mem)).mem) :
    crcCheck mem' ((SecondBootInfo.loadaddr mem' pTBI).setWidth mode.width)
        (SecondBootInfo.loadsize mem' pTBI) (SecondBootInfo.crc32 mem' pTBI) = true ↔
      (imageWords header payload).foldl igetFcs 0 =
        (receivedWords header payload).foldl igetFcs 0 := by
  subst hmem
  have haddr : (SecondBootInfo.loadaddr (receive pTBI (header ++ payload) (startUsb mem)).mem
      pTBI).setWidth mode.width = sentLoadaddr mode.width (header ++ payload) :=
    congrArg (BitVec.setWidth mode.width) (h.field hne mem (by decide) (by decide))
  have hsize : SecondBootInfo.loadsize (receive pTBI (header ++ payload) (startUsb mem)).mem pTBI =
      sentLoadsize (header ++ payload) := h.field hne mem (by decide) (by decide)
  rw [haddr, hsize, h.crc32 hne mem, Gec6818Bl1.crcCheck_iff, h.calcCrc hne mem]

/-- **Over USB.** An image that ends with its last packet is launched, whatever CRC its header
has. -/
theorem usb_launches (h : ClearStream pTBI header payload)
    (hfits : (stream (upTo (sentLoadsize (header ++ payload)).toNat payload)).length ≤
      roundUp4 (sentLoadsize (header ++ payload)).toNat)
    (hboot : iUsbBoot pTBI (header ++ payload) mem = some out) :
    bootMain true pTBI out =
      some ((wordAt (stream (header ++ payload)) 0x4C).setWidth mode.width) := by
  obtain ⟨hne, rfl⟩ := h.out_eq hboot
  have hwords := words_length (h.sends.upTo_aligned hne (sentLoadsize (header ++ payload)).toNat)
  have hround := roundUp4_le_of_le hfits
  have hall : imageWords header payload = receivedWords header payload := by
    refine List.take_of_length_le ?_
    rw [receivedWords]
    simp only [roundUp4] at hwords hround ⊢
    omega
  have hcheck := (h.crcCheck_iff hne mem rfl).2 (congrArg (List.foldl igetFcs 0) hall)
  have hlaunch : SecondBootInfo.launchaddr (receive pTBI (header ++ payload) (startUsb mem)).mem
      pTBI = wordAt (stream (header ++ payload)) 0x4C := h.field hne mem (by decide) (by decide)
  rw [bootMain, if_pos rfl, hlaunch]
  exact if_pos hcheck

end Usb

end Gec6818Bl1
