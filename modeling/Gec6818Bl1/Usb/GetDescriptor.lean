import Gec6818Bl1.Usb.Control

/-!
# The data stage of GET_DESCRIPTOR

What a data stage is does not depend on the driver: `dataStage` cuts a list of bytes into packets of
the endpoint's size. `nx_usb_transfer_ep0` sends it over several calls, and the host decides when
they come.

**GET_DESCRIPTOR.** The packets that follow the request are the data stage of the part of the
descriptor that the host asked for, and the last of them ends the transfer
(`getDescriptor_streams`).
-/

namespace Gec6818Bl1.Usb.Control

open ByteMem

/-! ## Data stages -/

section DataStage

variable {α : Type*} {m : ℕ} {xs : List α}

/-- Packets of `m`, and then what is left, which may be a whole packet too but no more than one.
Nothing to send is one empty packet. -/
def dataStage (m : ℕ) (xs : List α) : List (List α) :=
  if 0 < m ∧ m < xs.length then xs.take m :: dataStage m (xs.drop m) else [xs]
termination_by xs.length
decreasing_by simp only [List.length_drop]; omega

theorem dataStage_of_le (h : xs.length ≤ m) : dataStage m xs = [xs] := by
  rw [dataStage, if_neg (by omega)]

theorem dataStage_of_lt (hm : 0 < m) (h : m < xs.length) :
    dataStage m xs = xs.take m :: dataStage m (xs.drop m) := by
  rw [dataStage, if_pos ⟨hm, h⟩]

theorem flatten_dataStage (m : ℕ) (xs : List α) : (dataStage m xs).flatten = xs := by
  induction xs using dataStage.induct (m := m) with
  | case1 xs h ih => rw [dataStage_of_lt h.1 h.2, List.flatten_cons, ih, List.take_append_drop]
  | case2 xs h => rw [dataStage, if_neg h, List.flatten_singleton]

theorem length_le_of_mem_dataStage (hm : 0 < m) {ys : List α} (h : ys ∈ dataStage m xs) :
    ys.length ≤ m := by
  induction xs using dataStage.induct (m := m) with
  | case1 xs hlt ih =>
    rw [dataStage_of_lt hlt.1 hlt.2] at h
    rcases List.mem_cons.1 h with rfl | h
    · exact List.length_take_le _ _
    · exact ih h
  | case2 xs hle =>
    rw [dataStage, if_neg hle] at h
    obtain rfl := List.mem_singleton.1 h
    omega

end DataStage

/-! ## Packets -/

/-- The transfer size in a value of `DIEPTSIZ`, below the packet count. -/
def xferSize (v : BitVec 32) : ℕ := v.toNat % 2 ^ 19

theorem xferSize_tsiz {n : ℕ} (h : n < 2 ^ 19) : xferSize (tsiz n) = n := by
  have hor : (tsiz n).toNat = 2 ^ 19 * 1 + n := by
    rw [Nat.two_pow_add_eq_or_of_lt h, tsiz, BitVec.toNat_or, BitVec.toNat_ofNat,
      Nat.mod_eq_of_lt (h.trans (by decide))]
    rfl
  rw [xferSize, hor, Nat.mul_add_mod, Nat.mod_eq_of_lt h]

structure InPacket where
  size : ℕ
  words : List (BitVec 32)

def InPacket.bytes (p : InPacket) : List Byte := (wordBytes p.words).take p.size

/-- The size that is programmed after a store. -/
def programmed (size : ℕ) : Write → ℕ
  | .dieptsiz v => xferSize v
  | _ => size

def fifoWord : Write → Option (BitVec 32)
  | .fifo v => some v
  | _ => none

/-- What the stores of one call send. -/
def inPacket (ws : List Write) : InPacket := ⟨ws.foldl programmed 0, ws.filterMap fifoWord⟩

variable {w : ℕ} {mem : Mem w} {s : Status w}

/-- The state and the packets after `n` calls. -/
def inEvents (mem : Mem w) : ℕ → Status w → Status w × List InPacket
  | 0, s => (s, [])
  | n + 1, s =>
    let (s, ws) := transferEp0 mem s
    let (s, ps) := inEvents mem n s
    (s, inPacket ws :: ps)

theorem inEvents_succ (mem : Mem w) (n : ℕ) (s : Status w) :
    inEvents mem (n + 1) s =
      ((inEvents mem n (transferEp0 mem s).1).1,
        inPacket (transferEp0 mem s).2 :: (inEvents mem n (transferEp0 mem s).1).2) := rfl

theorem foldl_programmed_fifo (xs : List (BitVec 32)) (size : ℕ) :
    (xs.map Write.fifo).foldl programmed size = size := by
  induction xs with
  | nil => rfl
  | cons x xs ih => exact ih

theorem filterMap_fifoWord_fifo (xs : List (BitVec 32)) :
    (xs.map Write.fifo).filterMap fifoWord = xs := by
  induction xs with
  | nil => rfl
  | cons x xs ih => exact congrArg (x :: ·) ih

theorem inPacket_writeInFifo (v : BitVec 32) {n : ℕ} (hn : n < 2 ^ 19) (p : BitVec w) :
    inPacket (.diepctl v :: .dieptsiz (tsiz n) :: writeInFifo mem p n) =
      ⟨n, loadWords mem p ((n + 3) / 4)⟩ := by
  unfold inPacket writeInFifo
  rw [List.foldl_cons, List.foldl_cons, foldl_programmed_fifo, List.filterMap_cons_none rfl,
    List.filterMap_cons_none rfl, filterMap_fifoWord_fifo, programmed, xferSize_tsiz hn]

/-- Whole words are read, and cut off at the size. -/
theorem bytes_loadWords (mem : Mem w) (p : BitVec w) (n : ℕ) :
    InPacket.bytes ⟨n, loadWords mem p ((n + 3) / 4)⟩ = read mem p n := by
  have hwords : n ≤ 4 * ((n + 3) / 4) := by omega
  rw [InPacket.bytes, wordBytes_loadWords, take_read, Nat.min_eq_left hwords]

/-! ## The calls of one transfer -/

/-- `n` calls send the data stage of `xs` in packets of at most `m` bytes, and no fewer end the
transfer. -/
structure Streams (mem : Mem w) (m : ℕ) (xs : List Byte) (n : ℕ) (s : Status w) : Prop where
  stage : (inEvents mem n s).2.map InPacket.bytes = dataStage m xs
  whole : ∀ p ∈ (inEvents mem n s).2, p.bytes.length = p.size
  streaming : ∀ k < n, (inEvents mem k s).1.ep0State = .getDscpt
  done : (inEvents mem n s).1.ep0State = .init

/-- The descriptor has `Remain_size` bytes left, from `Current_ptr` on. -/
structure Sending (m : ℕ) (s : Status w) : Prop where
  state : s.ep0State = .getDscpt
  size : s.currentFifoSize = m
  pos : 0 < m
  small : m < 2 ^ 19

def rest (mem : Mem w) (s : Status w) : List Byte := read mem s.currentPtr s.remainSize

theorem streams_last {m : ℕ} (hs : Sending m s) (h : s.remainSize ≤ m) :
    Streams mem m (rest mem s) 1 s := by
  have hsize : s.currentFifoSize ≥ s.remainSize := hs.size ▸ h
  have hevents : inEvents mem 1 s =
      ({ s with ep0State := .init },
        [⟨s.remainSize, loadWords mem s.currentPtr ((s.remainSize + 3) / 4)⟩]) := by
    rw [inEvents_succ, inEvents, transferEp0, hs.state]
    simp only [if_pos hsize, inPacket_writeInFifo _ (h.trans_lt hs.small)]
  refine ⟨?_, ?_, ?_, ?_⟩
  · rw [hevents, dataStage_of_le (by rw [rest, length_read]; exact h), List.map_singleton,
      bytes_loadWords]
    rfl
  · rw [hevents, List.forall_mem_singleton, bytes_loadWords, length_read]
  · intro k hk
    obtain rfl : k = 0 := by omega
    exact hs.state
  · rw [hevents]

/-- After a full packet the pointer and the size are those of what is left. -/
theorem transferEp0_full (mem : Mem w) {m : ℕ} (hs : Sending m s) (h : m < s.remainSize) :
    Sending m (transferEp0 mem s).1 ∧
      (transferEp0 mem s).1.remainSize = s.remainSize - m ∧
      rest mem (transferEp0 mem s).1 = (rest mem s).drop m ∧
      inPacket (transferEp0 mem s).2 = ⟨m, loadWords mem s.currentPtr ((m + 3) / 4)⟩ := by
  have hsize : ¬ s.currentFifoSize ≥ s.remainSize := by
    rw [hs.size]
    omega
  have hread : read mem s.currentPtr s.remainSize =
      read mem s.currentPtr m ++ read mem (s.currentPtr + BitVec.ofNat w m) (s.remainSize - m) := by
    rw [← read_add, Nat.add_sub_cancel' h.le]
  rw [transferEp0, hs.state]
  simp only [if_neg hsize]
  refine ⟨⟨rfl, hs.size, hs.pos, hs.small⟩, ?_, ?_, ?_⟩
  · rw [hs.size]
  · rw [rest, rest, hread, List.drop_left' (length_read ..)]
    simp only [hs.size]
  · rw [hs.size, inPacket_writeInFifo _ hs.small]

/-- One full packet, and the rest of the transfer. -/
theorem streams_next {m n : ℕ} (hs : Sending m s) (h : m < s.remainSize)
    (hnext : Streams mem m (rest mem (transferEp0 mem s).1) n (transferEp0 mem s).1) :
    Streams mem m (rest mem s) (n + 1) s := by
  obtain ⟨-, -, hrest, hpacket⟩ := transferEp0_full mem hs h
  have hevents (k : ℕ) : inEvents mem (k + 1) s =
      ((inEvents mem k (transferEp0 mem s).1).1,
        ⟨m, loadWords mem s.currentPtr ((m + 3) / 4)⟩ ::
          (inEvents mem k (transferEp0 mem s).1).2) := by
    rw [inEvents_succ, hpacket]
  have htake : (rest mem s).take m = read mem s.currentPtr m := by
    rw [rest, take_read, Nat.min_eq_left h.le]
  have hlen : m < (rest mem s).length := by
    rw [rest, length_read]
    exact h
  refine ⟨?_, ?_, ?_, ?_⟩
  · rw [hevents, List.map_cons, hnext.stage, bytes_loadWords, hrest,
      dataStage_of_lt hs.pos hlen, htake]
  · rw [hevents, List.forall_mem_cons, bytes_loadWords, length_read]
    exact ⟨rfl, hnext.whole⟩
  · intro k hk
    cases k with
    | zero => exact hs.state
    | succ k =>
      rw [hevents]
      exact hnext.streaming k (by omega)
  · rw [hevents]
    exact hnext.done

/-- However much is left, some number of calls sends it. -/
theorem exists_streams (mem : Mem w) {m : ℕ} (hs : Sending m s) :
    ∃ n, Streams mem m (rest mem s) n s := by
  induction h : s.remainSize using Nat.strong_induction_on generalizing s with
  | _ r ih =>
    by_cases hlast : s.remainSize ≤ m
    · exact ⟨1, streams_last hs hlast⟩
    · obtain ⟨hsending, hremain, -⟩ := transferEp0_full mem hs (not_le.1 hlast)
      have hpos := hs.pos
      obtain ⟨n, hn⟩ := ih _ (by omega) hsending rfl
      exact ⟨n + 1, streams_next hs (not_le.1 hlast) hn⟩

/-! ## The request -/

/-- The descriptor of a type. -/
def descriptor (mem : Mem w) (s : Status w) : DescriptorType → Option (List Byte)
  | .device => some (read mem s.deviceDescriptor deviceDescriptorSize)
  | .configuration => some (read mem s.configDescriptor configDescriptorSize)
  | .other => none

theorem Status.Enumerated.maxPktsize {s : Status w} (h : s.Enumerated) :
    0 < s.ctrlMaxPktsize ∧ s.ctrlMaxPktsize < 2 ^ 19 := by
  rw [h]
  cases s.speed <;> decide

/-- What the request leaves for the calls to send. -/
theorem getDescriptor_sending {p : SetupPacket} {bytes : List Byte} (hs : s.Enumerated)
    (hbytes : descriptor mem s (descriptorType p.wValue) = some bytes) (diepctl : BitVec 32) :
    Sending s.ctrlMaxPktsize (getDescriptor diepctl p s).1 ∧
      rest mem (getDescriptor diepctl p s).1 = bytes.take p.wLength.toNat := by
  have hread (d : BitVec w) (n size : ℕ) :
      read mem d (if n > size then size else n) = (read mem d size).take n := by
    rw [take_read]
    congr 1
    split_ifs <;> omega
  obtain ⟨hpos, hsmall⟩ := hs.maxPktsize
  unfold getDescriptor rest
  cases htype : descriptorType p.wValue with
  | other =>
    rw [htype] at hbytes
    cases hbytes
  | device =>
    rw [htype] at hbytes
    obtain rfl := Option.some.inj hbytes
    exact ⟨⟨rfl, rfl, hpos, hsmall⟩, hread _ _ _⟩
  | configuration =>
    rw [htype] at hbytes
    obtain rfl := Option.some.inj hbytes
    exact ⟨⟨rfl, rfl, hpos, hsmall⟩, hread _ _ _⟩

/-- **GET_DESCRIPTOR.** The packets are no larger than the endpoint's, they hold the first bytes of
the descriptor, as many as the host wants and there are, and the transfer ends with the last one. -/
theorem getDescriptor_streams (hs : s.Enumerated) (hinit : s.ep0State = .init)
    {buf0 buf1 : BitVec 32} {bytes : List Byte}
    (hreq : standardRequest (setupPacket buf0 buf1).bRequest = .getDescriptor)
    (hbytes : descriptor mem s (descriptorType (setupPacket buf0 buf1).wValue) = some bytes)
    (diepctl : BitVec 32) (rx : List (BitVec 32)) :
    ∃ n, let s' := (ep0IntHndlr diepctl (buf0 :: buf1 :: rx) s).2.1
      let packets := (inEvents mem n s').2
      (∀ p ∈ packets, p.size ≤ s.ctrlMaxPktsize ∧ p.bytes.length = p.size) ∧
      packets.flatMap InPacket.bytes = bytes.take (setupPacket buf0 buf1).wLength.toNat ∧
      (∀ k < n, (inEvents mem k s').1.ep0State = .getDscpt) ∧
      (inEvents mem n s').1.ep0State = .init := by
  have hs' : (ep0IntHndlr diepctl (buf0 :: buf1 :: rx) s).2.1 =
      (getDescriptor diepctl (setupPacket buf0 buf1) s).1 := by
    rw [ep0IntHndlr, if_pos hinit, request]
    simp only [List.getD_cons_zero, List.getD_cons_succ, hreq]
  obtain ⟨hsending, hrest⟩ := getDescriptor_sending hs hbytes diepctl
  obtain ⟨n, hn⟩ := exists_streams mem hsending
  refine ⟨n, ?_⟩
  rw [hs']
  refine ⟨fun p hp => ⟨?_, hn.whole p hp⟩, ?_, hn.streaming, hn.done⟩
  · have hmem : p.bytes ∈ dataStage s.ctrlMaxPktsize _ := hn.stage ▸ List.mem_map_of_mem hp
    rw [← hn.whole p hp]
    exact length_le_of_mem_dataStage hsending.pos hmem
  · rw [List.flatMap_def, hn.stage, flatten_dataStage, hrest]

/-- At full speed, 64 bytes of a device descriptor at 0. -/
theorem getDescriptor_streams_device :
    let s : Status 32 :=
      ⟨.init, .full, 8, 0, 0, 0, 0, 0, 0, 0, 0x100⟩
    let s' := (ep0IntHndlr 0 [0x01000680, 0x00400000] s).2.1
    ∃ n, let packets := (inEvents (fun a => a.setWidth 8) n s').2
      (∀ p ∈ packets, p.size ≤ 8 ∧ p.bytes.length = p.size) ∧
      packets.flatMap InPacket.bytes = (read (fun a : BitVec 32 => a.setWidth 8) 0 18).take 64 ∧
      (∀ k < n, (inEvents (fun a => a.setWidth 8) k s').1.ep0State = .getDscpt) ∧
      (inEvents (fun a => a.setWidth 8) n s').1.ep0State = .init :=
  getDescriptor_streams (s := ⟨.init, .full, 8, 0, 0, 0, 0, 0, 0, 0, 0x100⟩) rfl rfl rfl rfl 0 []

end Gec6818Bl1.Usb.Control
