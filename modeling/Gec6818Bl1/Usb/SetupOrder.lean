import Gec6818Bl1.Usb.Control
import Gec6818Bl1.Usb.Events
import Mathlib.Data.List.Basic

/-!
# SETUP packets and the receive FIFO

The packets for all endpoints come through one receive FIFO. The controller keeps an entry for each
(`GRXSTSP`) and the words of all of them in a row, and does not know where a packet ends in them: a
packet whose words are not read stays in front of the next one.

**Serves.** Whatever the order of packets, IN events, resets and enumerations, every packet's entry
is handled by reading the packet's own words, and a SETUP packet starts the transfer that it asks
for, iff in every step (`Ready`):

* a SETUP packet is handled in `EP0_STATE_INIT`;
* an OUT packet with data is a bulk OUT packet.

`nx_usb_ep0_int_hndlr` does not look at a SETUP packet that comes before the data stage of the last
one is over, and nothing reads the data of an OUT packet for endpoint 0. Where no OUT packet breaks
the second condition, the first alone says whether every SETUP packet is served
(`serves_setup_guarded_iff`).

**Enumerated.** From the first enumeration at one of the two speeds on, the packet size of
endpoint 0 is that of the speed, whatever comes behind it (`enumerated_of_setInit`).
-/

namespace Gec6818Bl1.Usb.Control

open ByteMem

/-- `rx_status & (0xf << 17)`. -/
def pktsts (rxStatus : BitVec 32) : BitVec 32 := rxStatus &&& 0x1E0000#32

def outPktReceived : BitVec 32 := 0x2#32 <<< 17

def setupPktReceived : BitVec 32 := 0x6#32 <<< 17

/-- A packet in the FIFO, as `nx_udc_int_hndlr` finds it. -/
def rxInt (rxStatus : BitVec 32) (rx : List (BitVec 32)) : UdcInt where
  gintsts := 1#32 <<< 4
  dsts := 0
  grxstsp := rxStatus
  fifo i := rx.getD i 0

/-- The words that the controller stores for an entry. -/
def wordCount (rxStatus : BitVec 32) : ℕ :=
  if pktsts rxStatus = setupPktReceived then 2
  else if pktsts rxStatus = outPktReceived then ((rxInt rxStatus []).fifoCntByte + 3) / 4
  else 0

structure RxPacket where
  rxStatus : BitVec 32
  words : List (BitVec 32)
  length_words : words.length = wordCount rxStatus

structure Device (w : ℕ) where
  status : Status w
  usb : UsbState w
  /-- The entries that have not been popped. -/
  pending : List RxPacket
  /-- The words in the receive FIFO. -/
  rx : List (BitVec 32)
  /-- The stores for endpoint 0. -/
  writes : List Write

inductive Event
  /-- The controller receives a packet. -/
  | arrive (p : RxPacket)
  /-- `INT_RX_FIFO_NOT_EMPTY`; `DIEPCTL` reads `diepctl`. -/
  | pktReceive (diepctl : BitVec 32)
  /-- `INTKN_TXFEMP` of endpoint 0. -/
  | transferEp0
  /-- `INT_RESET`. -/
  | reset
  /-- `INT_ENUMDONE`. -/
  | setInit (dsts ecid : BitVec 32)

variable {w : ℕ} (pTBI : BitVec w) (ds : Descriptors w)

/-- `nx_usb_pkt_receive`. Only the bulk OUT packets are read by `nx_usb_int_bulkout`. -/
def pktReceive (diepctl rxStatus : BitVec 32) (d : Device w) : Device w :=
  if pktsts rxStatus = setupPktReceived then
    let (rx, status, ws) := ep0IntHndlr diepctl d.rx d.status
    { d with rx, status, writes := d.writes ++ ws }
  else
    let e := rxInt rxStatus d.rx
    { d with
      usb := usbPktReceive pTBI e d.usb
      rx := if e.outPacket then d.rx.drop ((e.fifoCntByte + 3) / 4) else d.rx }

/-- The controller, or one branch of `nx_udc_int_hndlr`, which `iUSBBOOT` calls until the download
is complete. -/
def stepDevice (d : Device w) : Event → Option (Device w)
  | .arrive p => some { d with pending := d.pending ++ [p], rx := d.rx ++ p.words }
  | .pktReceive diepctl =>
    match d.usb.bDownLoading, d.pending with
    | true, p :: ps => some (pktReceive pTBI diepctl p.rxStatus { d with pending := ps })
    | _, _ => none
  | .transferEp0 =>
    if d.usb.bDownLoading then
      let (status, ws) := transferEp0 d.usb.mem d.status
      some { d with status, writes := d.writes ++ ws }
    else none
  | .reset =>
    if d.usb.bDownLoading then some { d with status := { d.status with ep0State := .init } }
    else none
  | .setInit dsts ecid =>
    if d.usb.bDownLoading then
      let usb := restart d.usb
      match setInit ds dsts ecid usb.mem d.status with
      | some (mem, status) => some { d with status, usb := { usb with mem } }
      | none => some { d with usb }
    else none

/-- Where `iUSBBOOT` starts. The fields that it does not set are those of `status`. -/
def startDevice (status : Status w) (mem : Mem w) : Device w where
  status := { status with
    curConfig := 0, curInterface := 0, curSetting := 0, speed := .high, ep0State := .init }
  usb := startUsb mem
  pending := []
  rx := []
  writes := []

/-! ## Serving a packet -/

/-- From `d` to `d'`, the words of `p` are read and used, and no others. -/
structure Serves (diepctl : BitVec 32) (p : RxPacket) (d d' : Device w) : Prop where
  popped : d.rx = p.words ++ d'.rx
  setup : ∀ buf0 buf1, pktsts p.rxStatus = setupPktReceived → p.words = [buf0, buf1] →
    let r := request diepctl (setupPacket buf0 buf1) { d.status with ep0State := .init }
    d'.status = r.1 ∧ d'.writes = d.writes ++ r.2 ++ clearNak r.1
  bulk : pktsts p.rxStatus ≠ setupPktReceived →
    d'.usb = usbPktReceive pTBI (rxInt p.rxStatus p.words) d.usb

/-- A step that handles an entry serves its packet. -/
def ServesStep (d : Device w) (e : Event) : Prop :=
  ∀ diepctl p ps d', e = .pktReceive diepctl → d.pending = p :: ps →
    stepDevice pTBI ds d e = some d' → Serves pTBI diepctl p d d'

/-- The packet can be handled in this state. -/
def RxPacket.Ready (p : RxPacket) (s : Status w) : Prop :=
  (pktsts p.rxStatus = setupPktReceived → s.ep0State = .init) ∧
    (pktsts p.rxStatus = outPktReceived → (rxInt p.rxStatus []).fifoCntByte ≠ 0 →
      (rxInt p.rxStatus []).outPacket)

def Ready (d : Device w) (e : Event) : Prop :=
  ∀ diepctl p ps, e = .pktReceive diepctl → d.pending = p :: ps → p.Ready d.status

/-! ## One packet -/

section Packet

variable {p : RxPacket} {rest : List (BitVec 32)}

theorem pktsts_of_outPacket {rxStatus : BitVec 32} {rx : List (BitVec 32)}
    (h : (rxInt rxStatus rx).outPacket = true) : pktsts rxStatus = outPktReceived := by
  simp only [UdcInt.outPacket, Bool.and_eq_true, beq_iff_eq] at h
  exact h.1.1

theorem length_words_of_outPacket {rx : List (BitVec 32)}
    (h : (rxInt p.rxStatus rx).outPacket = true) :
    p.words.length = ((rxInt p.rxStatus rx).fifoCntByte + 3) / 4 := by
  have hout := pktsts_of_outPacket h
  have hsetup : outPktReceived ≠ setupPktReceived := by decide
  rw [p.length_words, wordCount, hout, if_neg hsetup, if_pos rfl]
  rfl

/-- The words behind those of the packet are not looked at. -/
theorem packet_append (p : RxPacket) (rest : List (BitVec 32)) :
    (rxInt p.rxStatus (p.words ++ rest)).packet = (rxInt p.rxStatus p.words).packet := by
  unfold UdcInt.packet
  by_cases h : (rxInt p.rxStatus p.words).outPacket = true
  · have hwords : (List.range (((rxInt p.rxStatus p.words).fifoCntByte + 3) / 4)).map
          (fun i => (p.words ++ rest).getD i 0) =
        (List.range (((rxInt p.rxStatus p.words).fifoCntByte + 3) / 4)).map
          (fun i => p.words.getD i 0) := by
      refine List.map_congr_left fun i hi => List.getD_append _ _ _ _ ?_
      rw [length_words_of_outPacket h]
      exact List.mem_range.1 hi
    have h' : (rxInt p.rxStatus (p.words ++ rest)).outPacket = true := h
    rw [dif_pos h, dif_pos h']
    exact congrArg some ((Packet.mk.injEq ..).mpr ⟨rfl, hwords⟩)
  · have h' : ¬ (rxInt p.rxStatus (p.words ++ rest)).outPacket = true := h
    rw [dif_neg h, dif_neg h']

theorem usbPktReceive_append (p : RxPacket) (rest : List (BitVec 32)) (usb : UsbState w) :
    usbPktReceive pTBI (rxInt p.rxStatus (p.words ++ rest)) usb =
      usbPktReceive pTBI (rxInt p.rxStatus p.words) usb := by
  rw [usbPktReceive, packet_append, ← usbPktReceive]

variable {pTBI} {d : Device w} {diepctl : BitVec 32}

/-- A SETUP packet. -/
theorem serves_setup_iff (hrx : d.rx = p.words ++ rest)
    (hsetup : pktsts p.rxStatus = setupPktReceived) :
    Serves pTBI diepctl p d (pktReceive pTBI diepctl p.rxStatus d) ↔
      d.status.ep0State = .init := by
  have hlen : p.words.length = 2 := by rw [p.length_words, wordCount, if_pos hsetup]
  obtain ⟨buf0, buf1, hwords⟩ := List.length_eq_two.1 hlen
  constructor
  · intro h
    by_contra hstate
    have hkept : (pktReceive pTBI diepctl p.rxStatus d).rx = d.rx := by
      rw [pktReceive, if_pos hsetup, ep0IntHndlr, if_neg hstate]
    have hlength := congrArg List.length h.popped
    rw [hkept, List.length_append, hlen] at hlength
    omega
  · intro hstate
    have hinit : { d.status with ep0State := .init } = d.status := by rw [← hstate]
    have hreceive : pktReceive pTBI diepctl p.rxStatus d =
        let r := request diepctl (setupPacket buf0 buf1) d.status
        { d with rx := rest, status := r.1, writes := d.writes ++ (r.2 ++ clearNak r.1) } := by
      rw [pktReceive, if_pos hsetup, ep0IntHndlr, if_pos hstate, hrx, hwords]
      rfl
    refine ⟨?_, ?_, fun h => absurd hsetup h⟩
    · rw [hreceive, hrx]
    · intro buf0' buf1' _ hwords'
      obtain ⟨rfl, rfl⟩ : buf0 = buf0' ∧ buf1 = buf1' := by simpa using hwords.symm.trans hwords'
      rw [hreceive, hinit]
      exact ⟨rfl, (List.append_assoc ..).symm⟩

/-- An OUT packet with data is read from the FIFO. -/
theorem pktReceive_outPacket (hrx : d.rx = p.words ++ rest)
    (hsetup : pktsts p.rxStatus ≠ setupPktReceived)
    (hout : (rxInt p.rxStatus []).outPacket = true) :
    pktReceive pTBI diepctl p.rxStatus d =
      { d with usb := usbPktReceive pTBI (rxInt p.rxStatus p.words) d.usb, rx := rest } := by
  have hout' : (rxInt p.rxStatus (p.words ++ rest)).outPacket = true := hout
  rw [pktReceive, if_neg hsetup, hrx]
  simp only [if_pos hout', usbPktReceive_append]
  rw [List.drop_left' (length_words_of_outPacket hout')]

theorem usbPktReceive_ignored {rx : List (BitVec 32)} {usb : UsbState w}
    (hout : ¬ (rxInt p.rxStatus []).outPacket = true) :
    usbPktReceive pTBI (rxInt p.rxStatus rx) usb = usb := by
  have hout' : ¬ (rxInt p.rxStatus rx).outPacket = true := hout
  rw [usbPktReceive, UdcInt.packet, dif_neg hout']

/-- The other entries leave everything as it is. -/
theorem pktReceive_ignored (hsetup : pktsts p.rxStatus ≠ setupPktReceived)
    (hout : ¬ (rxInt p.rxStatus []).outPacket = true) :
    pktReceive pTBI diepctl p.rxStatus d = d := by
  have hout' : ¬ (rxInt p.rxStatus d.rx).outPacket = true := hout
  rw [pktReceive, if_neg hsetup]
  simp only [if_neg hout', usbPktReceive_ignored hout]

/-- Any other packet. -/
theorem serves_other_iff (hrx : d.rx = p.words ++ rest)
    (hsetup : pktsts p.rxStatus ≠ setupPktReceived) :
    Serves pTBI diepctl p d (pktReceive pTBI diepctl p.rxStatus d) ↔
      (pktsts p.rxStatus = outPktReceived → (rxInt p.rxStatus []).fifoCntByte ≠ 0 →
        (rxInt p.rxStatus []).outPacket = true) := by
  by_cases hout : (rxInt p.rxStatus []).outPacket = true
  · rw [pktReceive_outPacket hrx hsetup hout]
    exact iff_of_true ⟨hrx, fun _ _ h => absurd h hsetup, fun _ => rfl⟩ fun _ _ => hout
  · rw [pktReceive_ignored hsetup hout]
    have hlen := p.length_words
    rw [wordCount, if_neg hsetup] at hlen
    constructor
    · intro h hpktsts hcount
      have hlength := congrArg List.length h.popped
      rw [if_pos hpktsts] at hlen
      rw [List.length_append] at hlength
      omega
    · intro h
      have hwords : p.words = [] := by
        rw [← List.length_eq_zero_iff, hlen]
        split_ifs with hpktsts
        · have hcount : (rxInt p.rxStatus []).fifoCntByte = 0 :=
            by_contra fun hne => hout (h hpktsts hne)
          omega
        · rfl
      refine ⟨?_, fun _ _ h => absurd h hsetup, fun _ => ?_⟩
      · rw [hwords, List.nil_append]
      · exact (usbPktReceive_ignored hout).symm

theorem serves_iff (pTBI : BitVec w) (diepctl : BitVec 32) (hrx : d.rx = p.words ++ rest) :
    Serves pTBI diepctl p d (pktReceive pTBI diepctl p.rxStatus d) ↔ p.Ready d.status := by
  unfold RxPacket.Ready
  by_cases hsetup : pktsts p.rxStatus = setupPktReceived
  · have hout : pktsts p.rxStatus ≠ outPktReceived := by
      rw [hsetup]
      decide
    rw [serves_setup_iff hrx hsetup]
    exact ⟨fun h => ⟨fun _ => h, fun h' => absurd h' hout⟩, fun h => h.1 hsetup⟩
  · rw [serves_other_iff hrx hsetup]
    exact ⟨fun h => ⟨fun h' => absurd h' hsetup, h⟩, fun h => h.2⟩

end Packet

/-! ## Every order of events -/

/-- The FIFO holds the words of the packets whose entries have not been popped, and no others. -/
def InSync (d : Device w) : Prop := d.rx = d.pending.flatMap RxPacket.words

section Runs

variable {pTBI : BitVec w} {ds : Descriptors w} {d d' : Device w} {e : Event}

theorem stepDevice_pktReceive {diepctl : BitVec 32}
    (h : stepDevice pTBI ds d (.pktReceive diepctl) = some d') :
    ∃ p ps, d.pending = p :: ps ∧
      d' = pktReceive pTBI diepctl p.rxStatus { d with pending := ps } := by
  rw [stepDevice] at h
  split at h
  case h_1 p ps _ hpending => exact ⟨p, ps, hpending, (Option.some.inj h).symm⟩
  case h_2 => cases h

theorem pktReceive_pending (diepctl rxStatus : BitVec 32) (d : Device w) :
    (pktReceive pTBI diepctl rxStatus d).pending = d.pending := by
  rw [pktReceive]
  split_ifs <;> rfl

theorem serves_pending_iff (pTBI : BitVec w) (hsync : InSync d) {p : RxPacket} {ps : List RxPacket}
    (hpending : d.pending = p :: ps) (diepctl : BitVec 32) :
    Serves pTBI diepctl p d (pktReceive pTBI diepctl p.rxStatus { d with pending := ps }) ↔
      p.Ready d.status := by
  have hrx : ({ d with pending := ps } : Device w).rx =
      p.words ++ ps.flatMap RxPacket.words := by
    rw [InSync, hpending, List.flatMap_cons] at hsync
    exact hsync
  have hserves := serves_iff pTBI diepctl hrx
  constructor
  · exact fun h => hserves.1 ⟨h.popped, h.setup, h.bulk⟩
  · intro h
    have h' := hserves.2 h
    exact ⟨h'.popped, h'.setup, h'.bulk⟩

/-- A step that handles an entry serves its packet exactly if the packet is ready. -/
theorem servesStep_iff (hsync : InSync d) (h : stepDevice pTBI ds d e = some d') :
    ServesStep pTBI ds d e ↔ Ready d e := by
  constructor
  · rintro hserves diepctl p ps rfl hpending
    obtain ⟨p', ps', hpending', rfl⟩ := stepDevice_pktReceive h
    obtain ⟨rfl, rfl⟩ := List.cons.inj (hpending.symm.trans hpending')
    exact (serves_pending_iff pTBI hsync hpending diepctl).1 (hserves diepctl p ps _ rfl hpending h)
  · rintro hready diepctl p ps d' rfl hpending h'
    obtain ⟨p', ps', hpending', rfl⟩ := stepDevice_pktReceive h'
    obtain ⟨rfl, rfl⟩ := List.cons.inj (hpending.symm.trans hpending')
    exact (serves_pending_iff pTBI hsync hpending diepctl).2 (hready diepctl p ps rfl hpending)

theorem stepDevice_setInit {dsts ecid : BitVec 32}
    (h : stepDevice pTBI ds d (.setInit dsts ecid) = some d') :
    (∃ mem status, setInit ds dsts ecid (restart d.usb).mem d.status = some (mem, status) ∧
      d' = { d with status, usb := { restart d.usb with mem } }) ∨
    setInit ds dsts ecid (restart d.usb).mem d.status = none ∧
      d' = { d with usb := restart d.usb } := by
  obtain ⟨-, hd⟩ := Option.ite_none_right_eq_some.1 h
  cases hinit : setInit ds dsts ecid (restart d.usb).mem d.status with
  | none =>
    rw [hinit] at hd
    exact .inr ⟨rfl, (Option.some.inj hd).symm⟩
  | some r =>
    rw [hinit] at hd
    exact .inl ⟨r.1, r.2, rfl, (Option.some.inj hd).symm⟩

/-- The other events read nothing from the FIFO. -/
theorem stepDevice_frame (he : ∀ diepctl, e ≠ .pktReceive diepctl) (hp : ∀ p, e ≠ .arrive p)
    (h : stepDevice pTBI ds d e = some d') : d'.rx = d.rx ∧ d'.pending = d.pending := by
  cases e with
  | arrive p => exact absurd rfl (hp p)
  | pktReceive diepctl => exact absurd rfl (he diepctl)
  | transferEp0 =>
    obtain ⟨-, hd⟩ := Option.ite_none_right_eq_some.1 h
    obtain rfl := Option.some.inj hd
    exact ⟨rfl, rfl⟩
  | reset =>
    obtain ⟨-, hd⟩ := Option.ite_none_right_eq_some.1 h
    obtain rfl := Option.some.inj hd
    exact ⟨rfl, rfl⟩
  | setInit dsts ecid =>
    obtain ⟨_, _, -, rfl⟩ | ⟨-, rfl⟩ := stepDevice_setInit h
    · exact ⟨rfl, rfl⟩
    · exact ⟨rfl, rfl⟩

theorem inSync_step (hsync : InSync d) (hready : Ready d e)
    (h : stepDevice pTBI ds d e = some d') : InSync d' := by
  by_cases hp : ∃ p, e = .arrive p
  · obtain ⟨p, rfl⟩ := hp
    obtain rfl := Option.some.inj h
    rw [InSync, List.flatMap_append, List.flatMap_singleton, ← hsync]
  by_cases he : ∃ diepctl, e = .pktReceive diepctl
  · obtain ⟨diepctl, rfl⟩ := he
    obtain ⟨p, ps, hpending, rfl⟩ := stepDevice_pktReceive h
    have hserves := (serves_pending_iff pTBI hsync hpending diepctl).2
      (hready diepctl p ps rfl hpending)
    have hpopped := hserves.popped
    rw [InSync, hpending, List.flatMap_cons] at hsync
    rw [InSync, pktReceive_pending]
    exact List.append_cancel_left (hpopped.symm.trans hsync)
  · obtain ⟨hrx, hpending⟩ := stepDevice_frame (not_exists.1 he) (not_exists.1 hp) h
    rw [InSync, hrx, hpending]
    exact hsync

/-! ### Enumerated -/

theorem enumerated_step (hd : d.status.Enumerated) (h : stepDevice pTBI ds d e = some d') :
    d'.status.Enumerated := by
  cases e with
  | arrive p =>
    obtain rfl := Option.some.inj h
    exact hd
  | pktReceive diepctl =>
    obtain ⟨p, ps, -, rfl⟩ := stepDevice_pktReceive h
    rw [pktReceive]
    split_ifs
    · exact ep0IntHndlr_enumerated hd diepctl d.rx
    · exact hd
  | transferEp0 =>
    obtain ⟨-, hd'⟩ := Option.ite_none_right_eq_some.1 h
    obtain rfl := Option.some.inj hd'
    exact transferEp0_enumerated hd d.usb.mem
  | reset =>
    obtain ⟨-, hd'⟩ := Option.ite_none_right_eq_some.1 h
    obtain rfl := Option.some.inj hd'
    exact hd
  | setInit dsts ecid =>
    obtain ⟨_, _, hinit, rfl⟩ | ⟨-, rfl⟩ := stepDevice_setInit h
    · exact setInit_enumerated hinit
    · exact hd

/-- Behind the first enumeration at one of the two speeds, the packet size is that of the speed, in
whatever order the other events come. -/
theorem enumerated_of_setInit {dsts ecid : BitVec 32} (hspeed : (enumSpeed dsts).isSome)
    (h : stepDevice pTBI ds d (.setInit dsts ecid) = some d') (es : List Event) :
    Lts.Always (stepDevice pTBI ds) (fun d => d.status.Enumerated) d' es := by
  have hd' : d'.status.Enumerated := by
    obtain ⟨_, _, hinit, rfl⟩ | ⟨hinit, -⟩ := stepDevice_setInit h
    · exact setInit_enumerated hinit
    · rw [Option.map_eq_none_iff.1 hinit] at hspeed
      cases hspeed
  exact Lts.always_of_preserved (fun _ _ _ => enumerated_step) hd' es

/-! ### SETUP packets alone -/

/-- `nx_udc_int_hndlr` reads the data of the packet, if it is an OUT packet. -/
def RxPacket.OutRead (p : RxPacket) : Prop :=
  pktsts p.rxStatus = outPktReceived → (rxInt p.rxStatus []).fifoCntByte ≠ 0 →
    (rxInt p.rxStatus []).outPacket

def OutRead (e : Event) : Prop := ∀ p, e = .arrive p → p.OutRead

theorem outRead_step (hd : ∀ p ∈ d.pending, p.OutRead) (he : OutRead e)
    (h : stepDevice pTBI ds d e = some d') : ∀ p ∈ d'.pending, p.OutRead := by
  by_cases hp : ∃ p, e = .arrive p
  · obtain ⟨p, rfl⟩ := hp
    obtain rfl := Option.some.inj h
    exact List.forall_mem_append.2 ⟨hd, List.forall_mem_singleton.2 (he p rfl)⟩
  by_cases hrec : ∃ diepctl, e = .pktReceive diepctl
  · obtain ⟨diepctl, rfl⟩ := hrec
    obtain ⟨p, ps, hpending, rfl⟩ := stepDevice_pktReceive h
    rw [hpending] at hd
    rw [pktReceive_pending]
    exact (List.forall_mem_cons.1 hd).2
  · rw [(stepDevice_frame (not_exists.1 hrec) (not_exists.1 hp) h).2]
    exact hd

end Runs

/-- A step that handles the entry of a SETUP packet serves it. -/
def ServesSetup (d : Device w) (e : Event) : Prop :=
  ∀ diepctl p ps d', e = .pktReceive diepctl → d.pending = p :: ps →
    pktsts p.rxStatus = setupPktReceived → stepDevice pTBI ds d e = some d' →
      Serves pTBI diepctl p d d'

def SetupReady (d : Device w) (e : Event) : Prop :=
  ∀ diepctl p ps, e = .pktReceive diepctl → d.pending = p :: ps →
    pktsts p.rxStatus = setupPktReceived → d.status.ep0State = .init

/-- **Serves.** In every order of events, every packet is served iff every step is ready for its
packet, and then the FIFO holds nothing but the packets that are still to be handled. -/
theorem serves_guarded_iff (status : Status w) (mem : Mem w) (es : List Event) :
    (Lts.Guarded (stepDevice pTBI ds) (ServesStep pTBI ds) (startDevice status mem) es ↔
      Lts.Guarded (stepDevice pTBI ds) Ready (startDevice status mem) es) ∧
    (Lts.Guarded (stepDevice pTBI ds) Ready (startDevice status mem) es →
      Lts.Always (stepDevice pTBI ds) InSync (startDevice status mem) es) :=
  ⟨Lts.guarded_iff_guarded (P := InSync) (fun _ _ _ => inSync_step) (fun _ _ _ => servesStep_iff)
      rfl,
    Lts.always_of_invariant (fun _ _ _ => inSync_step) rfl⟩

/-- With no data that nothing reads, every SETUP packet is served iff each is handled in
`EP0_STATE_INIT`. -/
theorem serves_setup_guarded_iff (status : Status w) (mem : Mem w) {es : List Event}
    (hout : ∀ e ∈ es, OutRead e) :
    Lts.Guarded (stepDevice pTBI ds) (ServesSetup pTBI ds) (startDevice status mem) es ↔
      Lts.Guarded (stepDevice pTBI ds) SetupReady (startDevice status mem) es := by
  have hready {d : Device w} {e : Event} (hd : ∀ p ∈ d.pending, p.OutRead) :
      SetupReady d e ↔ Ready d e := by
    constructor
    · intro h diepctl p ps he hpending
      exact ⟨h diepctl p ps he hpending, hd p (hpending ▸ List.mem_cons_self)⟩
    · exact fun h diepctl p ps he hpending => (h diepctl p ps he hpending).1
  have hserves {d d' : Device w} {e : Event} (hd : InSync d ∧ ∀ p ∈ d.pending, p.OutRead)
      (h : stepDevice pTBI ds d e = some d') : ServesSetup pTBI ds d e ↔ SetupReady d e := by
    constructor
    · rintro hserves diepctl p ps rfl hpending hsetup
      obtain ⟨p', ps', hpending', rfl⟩ := stepDevice_pktReceive h
      obtain ⟨rfl, rfl⟩ := List.cons.inj (hpending.symm.trans hpending')
      exact ((serves_pending_iff pTBI hd.1 hpending diepctl).1
        (hserves diepctl p ps _ rfl hpending hsetup h)).1 hsetup
    · intro h' diepctl p ps d'' he hpending _ hstep
      exact (servesStep_iff hd.1 h).2 ((hready hd.2).1 h') diepctl p ps d'' he hpending hstep
  -- the condition on the events joins both guards, so that the invariant can use it
  have hiff : Lts.Guarded (stepDevice pTBI ds) (fun d e => OutRead e ∧ ServesSetup pTBI ds d e)
      (startDevice status mem) es ↔ Lts.Guarded (stepDevice pTBI ds)
        (fun d e => OutRead e ∧ SetupReady d e) (startDevice status mem) es :=
    Lts.guarded_iff_guarded (P := fun d => InSync d ∧ ∀ p ∈ d.pending, p.OutRead)
      (fun d e d' hd he h =>
        ⟨inSync_step hd.1 ((hready hd.2).1 he.2) h, outRead_step hd.2 he.1 h⟩)
      (fun d e d' hd h => and_congr_right fun _ => hserves hd h) ⟨rfl, List.forall_mem_nil _⟩
  exact ⟨fun h => (hiff.1 (h.and_actions hout)).mono fun _ _ h => h.2,
    fun h => (hiff.2 (h.and_actions hout)).mono fun _ _ h => h.2⟩

/-- `GET_DESCRIPTOR` of the device, and 64 bytes of it. -/
def askDevice : RxPacket := ⟨0x000C0080, [0x01000680, 0x00400000], by decide⟩

/-- `SET_ADDRESS` 5. -/
def askAddress : RxPacket := ⟨0x000C0080, [0x00050500, 0x00000000], by decide⟩

/-- A host that gives up on a descriptor before the first packet of it. -/
theorem not_serves_guarded :
    ¬ ∀ (pTBI : BitVec 32) (ds : Descriptors 32) (status : Status 32) (mem : Mem 32)
      (es : List Event),
      Lts.Guarded (stepDevice pTBI ds) (ServesStep pTBI ds) (startDevice status mem) es := by
  intro h
  have h₀ := h 0 ⟨0, 0, 0, 0⟩ ⟨.init, .high, 0, 0, 0, 0, 0, 0, 0, 0, 0⟩ (fun _ => 0)
    [.setInit 0 0, .arrive askDevice, .pktReceive 0, .arrive askAddress, .pktReceive 0]
  obtain ⟨-, h₁⟩ := h₀ _ rfl
  obtain ⟨-, h₂⟩ := h₁ _ rfl
  obtain ⟨-, h₃⟩ := h₂ _ rfl
  obtain ⟨-, h₄⟩ := h₃ _ rfl
  obtain ⟨hserves, -⟩ := h₄ _ rfl
  have hpopped := (hserves 0 askAddress [] _ rfl rfl rfl).popped
  exact absurd (congrArg List.length hpopped) (by decide)

end Gec6818Bl1.Usb.Control
