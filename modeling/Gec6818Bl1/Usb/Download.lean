import Gec6818Bl1.Usb.Receive
import Mathlib.Data.List.GetD

/-!
# Where a download goes

The header and the payload come in one stream of bytes, cut into packets by the host. The receiver
changes from one to the other only between two packets, stores a packet whole wherever it belongs,
and counts what is left in an `S32`. So it matters how the stream is cut.

**Downloads.** Whatever was in memory before, the stores stay inside the header and the
image, and a finished download holds the payload, iff `CutsWell`:

* a packet ends where the header ends;
* the first packet to reach the end of the image does not go beyond its last word, which also means
  that an empty image has no payload;
* the image is shorter than `2 ^ 31` bytes behind the first packet;
* the image does not cover the word of the running CRC with other bytes than that.
-/

namespace Gec6818Bl1.Usb

open ByteMem

/-! ## The image that is sent -/

def sentLoadsize (ps : List Packet) : BitVec 32 := wordAt (stream ps) 0x44

def sentLoadaddr (w : ℕ) (ps : List Packet) : BitVec w := (wordAt (stream ps) 0x48).setWidth w

/-- An `NSIH` header and at least `LOADSIZE` bytes behind it, in packets that are whole words but
for the last one. -/
structure SendsImage (ps : List Packet) : Prop where
  aligned : ∀ p ∈ ps.dropLast, 4 ∣ p.count
  signature : wordAt (stream ps) 0x1FC = headerId
  whole : 512 + (sentLoadsize ps).toNat ≤ (stream ps).length

/-- `LOADSIZE` rounded up to 4. -/
def roundUp4 (n : ℕ) : ℕ := (n + 3) / 4 * 4

variable {w : ℕ}

/-- What a download into the memory `mem` should do. -/
structure Downloads (pTBI : BitVec w) (ps : List Packet) (mem : Mem w) : Prop where
  header_inside : ∀ r ∈ (receive pTBI ps (startUsb mem)).stores, r.headerReceived = false →
    offset pTBI r.addr + r.len ≤ 512
  payload_inside : ∀ r ∈ (receive pTBI ps (startUsb mem)).stores, r.headerReceived = true →
    r.ofPacket = true →
      offset (sentLoadaddr w ps) r.addr + r.len ≤ roundUp4 (sentLoadsize ps).toNat
  placed : (receive pTBI ps (startUsb mem)).bDownLoading = false →
    ∀ k < (sentLoadsize ps).toNat,
      (receive pTBI ps (startUsb mem)).mem (sentLoadaddr w ps + BitVec.ofNat w k) =
        (stream ps).getD (512 + k) 0

/-- The packets up to the first that reaches `left` bytes. -/
def upTo (left : ℕ) : List Packet → List Packet
  | [] => []
  | p :: ps => if left ≤ p.count then [p] else p :: upTo (left - p.count) ps

/-- The CRC of all words of the packets. -/
def runningFcs (ps : List Packet) : BitVec 32 := (ps.flatMap Packet.words).foldl igetFcs 0

/-- The payload is cut so that the image is received, and nothing else. -/
structure PayloadCutsWell (pTBI base : BitVec w) (loadsize : ℕ) (payload : List Packet) : Prop where
  fits : (stream (upTo loadsize payload)).length ≤ roundUp4 loadsize
  counted : ∀ p ∈ payload.head?, loadsize < 2 ^ 31 + p.count
  crc_kept : ∀ k < loadsize, base + BitVec.ofNat w k ∈ block (crcWord pTBI) 4 →
    (stream payload).getD k 0 =
      (leBytes (runningFcs (upTo loadsize payload))).getD
        (offset (crcWord pTBI) (base + BitVec.ofNat w k)) 0

def CutsWell (pTBI : BitVec w) (ps : List Packet) : Prop :=
  ∃ header payload, ps = header ++ payload ∧ (stream header).length = 512 ∧
    (payload = [] ∨
      PayloadCutsWell pTBI (sentLoadaddr w ps) (sentLoadsize ps).toNat payload)

/-! ## One packet -/

variable {pTBI : BitVec w} {s : UsbState w} {p : Packet}

theorem crcWord_block_subset : block (crcWord pTBI) 4 ⊆ block pTBI 512 :=
  block_sub pTBI (by decide)

theorem readOutFifo_mem_of_not_mem (buf : BitVec w) {a : BitVec w}
    (ha : a ∉ block (crcWord pTBI) 4) :
    (readOutFifo pTBI buf p s).mem a = write s.mem buf (wordBytes p.words) a :=
  write_of_not_mem _ ha

/-- The store of the CRC comes last. -/
theorem readOutFifo_mem_of_mem (buf : BitVec w) (m : Mem w) {a : BitVec w}
    (ha : a ∈ block (crcWord pTBI) 4) :
    (readOutFifo pTBI buf p s).mem a =
      write m (crcWord pTBI) (leBytes (readOutFifo pTBI buf p s).fcs) a :=
  write_of_mem _ m ha

theorem receiveHeader_stores (p : Packet) (s : UsbState w) :
    (receiveHeader pTBI p s).stores = (readHeader pTBI p s).stores := by
  simp only [receiveHeader]
  split_ifs <;> rfl

theorem receivePayload_stores (p : Packet) (s : UsbState w) :
    (receivePayload pTBI p s).stores = (readOutFifo pTBI s.rxBuffAddr p s).stores := by
  simp only [receivePayload]
  split_ifs <;> rfl

/-- Stores stay recorded. -/
theorem stores_subset (ps : List Packet) (s : UsbState w) :
    s.stores ⊆ (receive pTBI ps s).stores := by
  induction ps generalizing s with
  | nil => exact List.Subset.refl _
  | cons p ps ih =>
    cases h : s.bDownLoading with
    | false => rw [receive_of_done h]; exact List.Subset.refl _
    | true =>
      rw [receive_cons h]
      refine List.Subset.trans ?_ (ih _)
      cases hh : s.bHeaderReceived with
      | false =>
        rw [intBulkout_of_header hh, receiveHeader_stores]
        exact List.subset_append_left _ _
      | true =>
        rw [intBulkout_of_payload hh, receivePayload_stores]
        exact List.subset_append_left _ _

/-! ## The header -/

/-- The bytes `bs` have been received, and the header is not complete. -/
structure HeaderPhase (pTBI : BitVec w) (mem : Mem w) (bs : List Byte) (s : UsbState w) : Prop where
  downLoading : s.bDownLoading = true
  headerReceived : s.bHeaderReceived = false
  size : s.iRxHeaderSize = bs.length
  aligned : 4 ∣ bs.length
  short : bs.length < 512
  fcs : s.fcs = 0
  mem : ∀ a ∉ block (crcWord pTBI) 4, s.mem a = write mem pTBI bs a
  inside : ∀ r ∈ s.stores, r.headerReceived = false ∧ offset pTBI r.addr + r.len ≤ 512

/-- The header is complete. -/
structure HeaderDone (pTBI : BitVec w) (mem : Mem w) (bs : List Byte) (s : UsbState w) : Prop where
  downLoading : s.bDownLoading = true
  headerReceived : s.bHeaderReceived = true
  buffer : s.rxBuffAddr = (wordAt bs 0x48).setWidth w
  left : s.iRxSize = wordAt bs 0x44
  fcs : s.fcs = 0
  mem : ∀ a ∉ block (crcWord pTBI) 4, s.mem a = write mem pTBI bs a
  inside : ∀ r ∈ s.stores, r.headerReceived = false ∧ offset pTBI r.addr + r.len ≤ 512

theorem startUsb_headerPhase (pTBI : BitVec w) (mem : Mem w) :
    HeaderPhase pTBI mem [] (startUsb mem) where
  downLoading := rfl
  headerReceived := rfl
  size := rfl
  aligned := dvd_zero 4
  short := by decide
  fcs := rfl
  mem a _ := by rw [write_nil]; rfl
  inside := nofun

section Header

variable {mem : Mem w} {bs : List Byte} (hw : 2 ^ 32 ≤ 2 ^ w)

theorem HeaderPhase.buffer (h : HeaderPhase pTBI mem bs s) :
    pTBI + BitVec.ofNat w (4 * (s.iRxHeaderSize / 4)) = pTBI + BitVec.ofNat w bs.length := by
  rw [h.size, Nat.mul_div_cancel' h.aligned]

include hw in
theorem HeaderPhase.mem_append (h : HeaderPhase pTBI mem bs s) (hp : 4 ∣ p.count)
    (hfit : bs.length + p.count ≤ 512) {a : BitVec w} (ha : a ∉ block (crcWord pTBI) 4) :
    (readHeader pTBI p s).mem a = write mem pTBI (bs ++ p.bytes) a := by
  rw [readHeader, readOutFifo_mem_of_not_mem _ ha, h.buffer, write_congr (h.mem a ha),
    Packet.wordBytes_eq hp, write_append _ _ (by rw [Packet.length_bytes]; omega)]

include hw in
theorem HeaderPhase.inside_append (h : HeaderPhase pTBI mem bs s) (hp : 4 ∣ p.count)
    (hfit : bs.length + p.count ≤ 512) :
    ∀ r ∈ (readHeader pTBI p s).stores,
      r.headerReceived = false ∧ offset pTBI r.addr + r.len ≤ 512 := by
  intro r hr
  simp only [readHeader, readOutFifo, List.mem_append, List.mem_cons, List.not_mem_nil,
    or_false] at hr
  obtain hr | rfl | rfl := hr
  · exact h.inside r hr
  · refine ⟨h.headerReceived, ?_⟩
    simp only [h.buffer]
    rw [offset_add_ofNat pTBI (by omega), ← length_wordBytes, Packet.wordBytes_eq hp,
      Packet.length_bytes]
    exact hfit
  · refine ⟨h.headerReceived, ?_⟩
    simp only [crcWord]
    rw [offset_add_ofNat pTBI (by omega)]
    decide

include hw in
theorem HeaderPhase.step (h : HeaderPhase pTBI mem bs s) (hp : 4 ∣ p.count)
    (hfit : bs.length + p.count < 512) :
    HeaderPhase pTBI mem (bs ++ p.bytes) (receiveHeader pTBI p s) := by
  have hsize : (readHeader pTBI p s).iRxHeaderSize + p.count = bs.length + p.count :=
    congrArg (· + p.count) h.size
  simp only [receiveHeader]
  rw [if_pos (Nat.mod_eq_zero_of_dvd hp)]
  simp only [hsize]
  rw [if_neg (by omega)]
  constructor
  · exact h.downLoading
  · exact h.headerReceived
  · rw [List.length_append, Packet.length_bytes]
  · rw [List.length_append, Packet.length_bytes]
    exact Nat.dvd_add h.aligned hp
  · rwa [List.length_append, Packet.length_bytes]
  · simp only [readHeader, readOutFifo, h.headerReceived, Bool.false_eq_true, if_false, h.fcs]
  · exact fun a ha => h.mem_append hw hp hfit.le ha
  · exact h.inside_append hw hp hfit.le

/-- A field of the header, once its bytes are there. -/
theorem load32_of_mem {m : Mem w} {off : ℕ} (hw : 2 ^ 32 ≤ 2 ^ w)
    (hm : ∀ a ∉ block (crcWord pTBI) 4, m a = write mem pTBI bs a) (hoff : off + 4 ≤ bs.length)
    (hbs : bs.length ≤ 512) (hcrc : off + 4 ≤ 0x58 ∨ 0x5C ≤ off) :
    load32 m (pTBI + BitVec.ofNat w off) = wordAt bs off := by
  have hbyte (k : ℕ) (hk : k < 4) : m (pTBI + BitVec.ofNat w (off + k)) = bs.getD (off + k) 0 := by
    rw [hm _ ?_, write_add _ _ (by omega) (by omega), List.getD_eq_getElem _ _ (by omega)]
    rw [crcWord, mem_block]
    rcases hcrc with hcrc | hcrc
    · rw [offset_add_of_lt (by omega) (by rw [offset_add_ofNat pTBI (by omega)]; omega),
        offset_add_ofNat pTBI (by omega)]
      omega
    · rw [offset_add_of_le (by rw [offset_add_ofNat pTBI (by omega)]; omega),
        offset_add_ofNat pTBI (by omega)]
      omega
  have h0 := hbyte 0 (by decide)
  rw [Nat.add_zero] at h0
  simp only [load32, ofNat_add, wordAt, h0, hbyte 1 (by decide), hbyte 2 (by decide),
    hbyte 3 (by decide)]

include hw in
theorem HeaderPhase.last (h : HeaderPhase pTBI mem bs s) (hp : 4 ∣ p.count)
    (hfit : bs.length + p.count = 512)
    (hsig : wordAt (bs ++ p.bytes) 0x1FC = headerId) :
    HeaderDone pTBI mem (bs ++ p.bytes) (receiveHeader pTBI p s) := by
  have hlen : (bs ++ p.bytes).length = 512 := by rw [List.length_append, Packet.length_bytes, hfit]
  have hmem : ∀ a ∉ block (crcWord pTBI) 4,
      (readHeader pTBI p s).mem a = write mem pTBI (bs ++ p.bytes) a :=
    fun a ha => h.mem_append hw hp hfit.le ha
  have hsize : (readHeader pTBI p s).iRxHeaderSize + p.count = 512 :=
    (congrArg (· + p.count) h.size).trans hfit
  have hfield {off : ℕ} (hoff : off + 4 ≤ 512) (hcrc : off + 4 ≤ 0x58 ∨ 0x5C ≤ off) :=
    load32_of_mem hw hmem (hlen.symm ▸ hoff) hlen.le hcrc
  simp only [receiveHeader]
  rw [if_pos (Nat.mod_eq_zero_of_dvd hp)]
  have hsignature : SecondBootInfo.signature (readHeader pTBI p s).mem pTBI = headerId :=
    (hfield (by decide) (by decide)).trans hsig
  simp only [hsize, le_refl, if_true, hsignature]
  constructor
  · exact h.downLoading
  · rfl
  · exact congrArg (BitVec.setWidth w) (hfield (by decide) (by decide))
  · exact hfield (by decide) (by decide)
  · simp only [readHeader, readOutFifo, h.headerReceived, Bool.false_eq_true, if_false, h.fcs]
  · exact hmem
  · exact h.inside_append hw hp hfit.le

include hw in
/-- A packet over the end of the header is stored over the end of `*pTBI`. -/
theorem HeaderPhase.overrun (h : HeaderPhase pTBI mem bs s) (hover : 512 < bs.length + p.count) :
    ∃ r ∈ (receiveHeader pTBI p s).stores, r.headerReceived = false ∧
      512 < offset pTBI r.addr + r.len := by
  refine ⟨⟨s.bHeaderReceived, true, pTBI + BitVec.ofNat w (4 * (s.iRxHeaderSize / 4)),
    4 * p.words.length⟩, ?_, h.headerReceived, ?_⟩
  · rw [receiveHeader_stores]
    exact List.mem_append_right _ List.mem_cons_self
  · simp only [h.buffer]
    rw [offset_add_ofNat pTBI (by have := h.short; omega), ← length_wordBytes]
    exact lt_of_lt_of_le hover (Nat.add_le_add_left p.count_le_length _)

include hw in
/-- Whole words up to the header's end, over several packets. -/
theorem HeaderPhase.run {ps : List Packet} (h : HeaderPhase pTBI mem bs s)
    (hps : ∀ p ∈ ps, 4 ∣ p.count) (hfit : bs.length + (stream ps).length = 512)
    (hsig : wordAt (bs ++ stream ps) 0x1FC = headerId) :
    HeaderDone pTBI mem (bs ++ stream ps) (receive pTBI ps s) := by
  induction ps generalizing bs s with
  | nil =>
    have hshort := h.short
    rw [stream_nil, List.length_nil] at hfit
    omega
  | cons p ps ih =>
    obtain ⟨hp, hrest⟩ := List.forall_mem_cons.1 hps
    rw [stream_cons, List.length_append, Packet.length_bytes] at hfit
    rw [stream_cons, ← List.append_assoc] at hsig ⊢
    rw [receive_cons h.downLoading, intBulkout_of_header h.headerReceived]
    rcases Nat.lt_or_ge (bs.length + p.count) 512 with hlt | hge
    · refine ih (h.step hw hp hlt) hrest ?_ hsig
      rw [List.length_append, Packet.length_bytes, Nat.add_assoc]
      exact hfit
    · -- nothing is left of the header, and so no packet either
      cases ps with
      | nil =>
        rw [stream_nil, List.append_nil] at hsig ⊢
        exact h.last hw hp (by simpa using hfit) hsig
      | cons q qs =>
        have hq := q.count_pos
        rw [stream_cons, List.length_append, Packet.length_bytes] at hfit
        omega

include hw in
/-- If no packet ends at the header's end, one goes over it. -/
theorem HeaderPhase.run_overrun {ps : List Packet} (h : HeaderPhase pTBI mem bs s)
    (hps : ∀ p ∈ ps.dropLast, 4 ∣ p.count) (hlong : 512 ≤ bs.length + (stream ps).length)
    (hcut : ∀ header payload, ps = header ++ payload → bs.length + (stream header).length ≠ 512) :
    ∃ r ∈ (receive pTBI ps s).stores, r.headerReceived = false ∧
      512 < offset pTBI r.addr + r.len := by
  induction ps generalizing bs s with
  | nil =>
    have hshort := h.short
    rw [stream_nil, List.length_nil] at hlong
    omega
  | cons p ps ih =>
    rw [stream_cons, List.length_append, Packet.length_bytes] at hlong
    rw [receive_cons h.downLoading, intBulkout_of_header h.headerReceived]
    rcases Nat.lt_trichotomy (bs.length + p.count) 512 with hlt | heq | hgt
    · cases ps with
      | nil =>
        rw [stream_nil, List.length_nil] at hlong
        omega
      | cons q qs =>
        rw [List.dropLast_cons_cons] at hps
        obtain ⟨hp, hrest⟩ := List.forall_mem_cons.1 hps
        refine ih (h.step hw hp hlt) hrest ?_ fun header payload hsplit => ?_
        · rw [List.length_append, Packet.length_bytes, Nat.add_assoc]
          exact hlong
        · have hne := hcut (p :: header) payload (by rw [hsplit, List.cons_append])
          rwa [stream_cons, List.length_append, ← Nat.add_assoc, ← List.length_append] at hne
    · exact absurd heq (by simpa using hcut [p] ps rfl)
    · obtain ⟨r, hr, hheader, hlt⟩ := h.overrun hw hgt
      exact ⟨r, stores_subset ps _ hr, hheader, hlt⟩

end Header

/-! ## The payload -/

/-- The stores for the packets `ps`, when `d` bytes of the payload came before them. -/
def payloadStores (pTBI base : BitVec w) (d : ℕ) : List Packet → List (UsbStore w)
  | [] => []
  | p :: ps =>
    ⟨true, true, base + BitVec.ofNat w d, 4 * p.words.length⟩ :: ⟨true, false, crcWord pTBI, 4⟩ ::
      payloadStores pTBI base (d + p.count) ps

theorem payloadStores_concat (pTBI base : BitVec w) (d : ℕ) (ps : List Packet) (p : Packet) :
    payloadStores pTBI base d (ps ++ [p]) =
      payloadStores pTBI base d ps ++ payloadStores pTBI base (d + (stream ps).length) [p] := by
  induction ps generalizing d with
  | nil => rfl
  | cons q ps ih =>
    simp only [List.cons_append, payloadStores, ih, stream_cons, List.length_append,
      Packet.length_bytes, Nat.add_assoc]

/-- The packets `qs` of the payload have been received, since the state `s₁`. -/
structure Received (pTBI base : BitVec w) (loadsize : BitVec 32) (s₁ : UsbState w)
    (qs : List Packet) (s : UsbState w) : Prop where
  buffer : s.rxBuffAddr = base + BitVec.ofNat w (stream qs).length
  left : s.iRxSize = loadsize - BitVec.ofNat 32 (stream qs).length
  fcs : s.fcs = runningFcs qs
  mem : 4 * (qs.flatMap Packet.words).length ≤ 2 ^ w → ∀ a ∉ block (crcWord pTBI) 4,
    s.mem a = write s₁.mem base (wordBytes (qs.flatMap Packet.words)) a
  mem_crc : qs ≠ [] → ∀ a ∈ block (crcWord pTBI) 4,
    s.mem a = write s₁.mem (crcWord pTBI) (leBytes s.fcs) a
  stores : s.stores = s₁.stores ++ payloadStores pTBI base 0 qs

theorem HeaderDone.received {mem : Mem w} {bs : List Byte} (h : HeaderDone pTBI mem bs s) :
    Received pTBI ((wordAt bs 0x48).setWidth w) (wordAt bs 0x44) s [] s where
  buffer := by rw [h.buffer, stream_nil, List.length_nil, BitVec.add_zero]
  left := by rw [h.left, stream_nil, List.length_nil, BitVec.sub_zero]
  fcs := h.fcs
  mem _ a _ := by rw [List.flatMap_nil, wordBytes, List.flatMap_nil, write_nil]
  mem_crc h := absurd rfl h
  stores := (List.append_nil _).symm

/-- Packets of whole words have no padding between them. -/
theorem wordBytes_words {qs : List Packet} (h : ∀ q ∈ qs, 4 ∣ q.count) :
    wordBytes (qs.flatMap Packet.words) = stream qs := by
  induction qs with
  | nil => rfl
  | cons q qs ih =>
    obtain ⟨hq, hrest⟩ := List.forall_mem_cons.1 h
    rw [List.flatMap_cons, wordBytes_append, Packet.wordBytes_eq hq, ih hrest, stream_cons]

section Payload

variable {base : BitVec w} {loadsize : BitVec 32} {s₁ : UsbState w} {qs : List Packet}

theorem receivePayload_fields (pTBI : BitVec w) (p : Packet) (s : UsbState w) :
    (receivePayload pTBI p s).rxBuffAddr = s.rxBuffAddr + BitVec.ofNat w p.count ∧
      (receivePayload pTBI p s).iRxSize = s.iRxSize - BitVec.ofNat 32 p.count ∧
      (receivePayload pTBI p s).fcs = (readOutFifo pTBI s.rxBuffAddr p s).fcs ∧
      (receivePayload pTBI p s).mem = (readOutFifo pTBI s.rxBuffAddr p s).mem := by
  simp only [receivePayload]
  split_ifs <;> exact ⟨rfl, rfl, rfl, rfl⟩

theorem Received.step (h : Received pTBI base loadsize s₁ qs s) (hheader : s.bHeaderReceived = true)
    (hqs : ∀ q ∈ qs, 4 ∣ q.count) (p : Packet) :
    Received pTBI base loadsize s₁ (qs ++ [p]) (receivePayload pTBI p s) := by
  obtain ⟨hbuffer, hleft, hfcs, hmem⟩ := receivePayload_fields pTBI p s
  have hlen : (stream (qs ++ [p])).length = (stream qs).length + p.count := by
    rw [stream_append, List.length_append, stream_cons, stream_nil, List.append_nil,
      Packet.length_bytes]
  have hwords : (qs ++ [p]).flatMap Packet.words = qs.flatMap Packet.words ++ p.words := by
    rw [List.flatMap_append, List.flatMap_singleton]
  constructor
  · rw [hbuffer, h.buffer, ofNat_add, hlen]
  · rw [hleft, h.left, hlen, BitVec.ofNat_add, BitVec.sub_sub]
  · rw [hfcs, readOutFifo, hheader, if_pos rfl, h.fcs, runningFcs, runningFcs, hwords,
      List.foldl_append]
  · intro hfit a ha
    rw [hwords, List.length_append] at hfit
    have hstream := wordBytes_words hqs
    have hlength : 4 * (qs.flatMap Packet.words).length = (stream qs).length := by
      rw [← hstream, length_wordBytes]
    rw [hmem, readOutFifo_mem_of_not_mem _ ha, write_congr (h.mem (by omega) a ha), h.buffer,
      hwords, wordBytes_append, ← hstream, write_append]
    simp only [length_wordBytes]
    omega
  · intro _ a ha
    rw [hmem, hfcs, readOutFifo_mem_of_mem _ s₁.mem ha]
  · rw [receivePayload_stores, readOutFifo, h.stores, payloadStores_concat, Nat.zero_add, hheader,
      h.buffer, List.append_assoc]
    rfl

/-- What the signed test of `iRxSize` says, for a count that is at most one packet too large. -/
theorem left_nonpos_iff (loadsize : BitVec 32) {d : ℕ} (hd : d ≤ loadsize.toNat + 0x7FF) :
    (loadsize - BitVec.ofNat 32 d).toInt ≤ 0 ↔
      loadsize.toNat ≤ d ∨ 2 ^ 31 + d ≤ loadsize.toNat := by
  have hlt := loadsize.isLt
  rw [BitVec.toInt_eq_toNat_cond, BitVec.toNat_sub, BitVec.toNat_ofNat]
  rcases Nat.lt_or_ge d (2 ^ 32) with hsmall | hlarge
  · rw [Nat.mod_eq_of_lt hsmall]
    rcases Nat.lt_or_ge loadsize.toNat d with hneg | hpos
    · rw [Nat.mod_eq_of_lt (by omega)]
      split_ifs <;> omega
    · rw [show 2 ^ 32 - d + loadsize.toNat = loadsize.toNat - d + 2 ^ 32 from by omega,
        Nat.add_mod_right, Nat.mod_eq_of_lt (by omega)]
      split_ifs <;> omega
  · rw [show d % 2 ^ 32 = d - 2 ^ 32 from by omega,
      show 2 ^ 32 - (d - 2 ^ 32) + loadsize.toNat = loadsize.toNat - (d - 2 ^ 32) + 2 ^ 32 from
        by omega, Nat.add_mod_right, Nat.mod_eq_of_lt (by omega)]
    split_ifs <;> omega

theorem receivePayload_done_iff (h : Received pTBI base loadsize s₁ qs s)
    (hdown : s.bDownLoading = true) (hle : (stream qs).length ≤ loadsize.toNat) (p : Packet) :
    (receivePayload pTBI p s).bDownLoading = false ↔
      loadsize.toNat ≤ (stream qs).length + p.count ∨
        2 ^ 31 + ((stream qs).length + p.count) ≤ loadsize.toNat := by
  have hleft : s.iRxSize - BitVec.ofNat 32 p.count =
      loadsize - BitVec.ofNat 32 ((stream qs).length + p.count) := by
    rw [h.left, BitVec.ofNat_add, BitVec.sub_sub]
  have hcount := p.count_le
  have hnonpos := left_nonpos_iff loadsize (d := (stream qs).length + p.count) (by omega)
  rw [← hnonpos, ← hleft]
  simp only [receivePayload]
  split_ifs with hneg
  · exact iff_of_true rfl hneg
  · refine iff_of_false ?_ hneg
    intro hfalse
    exact Bool.noConfusion (hdown.symm.trans hfalse)

theorem receivePayload_headerReceived (hheader : s.bHeaderReceived = true)
    (h : (receivePayload pTBI p s).bDownLoading = true) :
    (receivePayload pTBI p s).bHeaderReceived = true := by
  simp only [receivePayload] at h ⊢
  split_ifs at h ⊢
  exact hheader

/-- The download of a payload that is long enough ends with the first packet that reaches the
end of the image. -/
theorem Received.run {ps : List Packet} (h : Received pTBI base loadsize s₁ qs s)
    (hdown : s.bDownLoading = true) (hheader : s.bHeaderReceived = true)
    (hqs : ∀ q ∈ qs, 4 ∣ q.count) (hps : ∀ p ∈ ps.dropLast, 4 ∣ p.count) (hne : ps ≠ [])
    (hle : (stream qs).length ≤ loadsize.toNat)
    (hcounted : ∀ p ∈ ps.head?, loadsize.toNat < 2 ^ 31 + ((stream qs).length + p.count))
    (hwhole : loadsize.toNat ≤ (stream qs).length + (stream ps).length) :
    Received pTBI base loadsize s₁ (qs ++ upTo (loadsize.toNat - (stream qs).length) ps)
        (receive pTBI ps s) ∧
      (receive pTBI ps s).bDownLoading = false := by
  induction ps generalizing qs s with
  | nil => exact absurd rfl hne
  | cons p ps ih =>
    have hstep := h.step hheader hqs p
    have hcount := hcounted p rfl
    have hdone := receivePayload_done_iff h hdown hle p
    have hlen : (stream (qs ++ [p])).length = (stream qs).length + p.count := by
      rw [stream_append, List.length_append, stream_cons, stream_nil, List.append_nil,
        Packet.length_bytes]
    rw [receive_cons hdown, intBulkout_of_payload hheader, upTo]
    by_cases hreach : loadsize.toNat - (stream qs).length ≤ p.count
    · have hfalse := hdone.2 (Or.inl (by omega))
      rw [if_pos hreach, receive_of_done hfalse]
      exact ⟨hstep, hfalse⟩
    · have htrue : (receivePayload pTBI p s).bDownLoading = true := by
        rw [← Bool.not_eq_false]
        intro hfalse
        have := hdone.1 hfalse
        omega
      rw [stream_cons, List.length_append, Packet.length_bytes] at hwhole
      cases ps with
      | nil =>
        rw [stream_nil, List.length_nil] at hwhole
        omega
      | cons p' ps =>
        rw [List.dropLast_cons_cons] at hps
        obtain ⟨hp, hrest⟩ := List.forall_mem_cons.1 hps
        have hqs' : ∀ q ∈ qs ++ [p], 4 ∣ q.count := by
          intro q hq
          obtain hq | hq := List.mem_append.1 hq
          · exact hqs q hq
          · rwa [List.mem_singleton.1 hq]
        have hrun := ih hstep htrue (receivePayload_headerReceived hheader htrue) hqs' hrest
          (List.cons_ne_nil _ _) (by omega) (fun q _ => by omega) (by omega)
        rw [hlen, List.append_assoc, List.singleton_append, ← Nat.sub_sub] at hrun
        rw [if_neg hreach]
        exact hrun

end Payload

/-! ## Cuts -/

section Cuts

variable {ps : List Packet} {n : ℕ}

theorem exists_upTo_append (n : ℕ) (ps : List Packet) : ∃ rest, ps = upTo n ps ++ rest := by
  induction ps generalizing n with
  | nil => exact ⟨[], rfl⟩
  | cons p ps ih =>
    rw [upTo]
    by_cases hn : n ≤ p.count
    · rw [if_pos hn]
      exact ⟨ps, rfl⟩
    · obtain ⟨rest, hrest⟩ := ih (n - p.count)
      rw [if_neg hn]
      exact ⟨rest, congrArg (p :: ·) hrest⟩

theorem upTo_ne_nil (h : ps ≠ []) : upTo n ps ≠ [] := by
  cases ps with
  | nil => exact absurd rfl h
  | cons p ps =>
    rw [upTo]
    split_ifs <;> exact List.cons_ne_nil _ _

/-- Before the last of these packets the end is not reached. -/
theorem stream_lt_of_upTo {pre : List Packet} {last : Packet} (h : upTo n ps = pre ++ [last]) :
    pre = [] ∨ (stream pre).length < n := by
  induction ps generalizing n pre with
  | nil => exact absurd h (List.append_ne_nil_of_right_ne_nil _ (List.cons_ne_nil _ _)).symm
  | cons p ps ih =>
    rw [upTo] at h
    by_cases hn : n ≤ p.count
    · rw [if_pos hn] at h
      cases pre with
      | nil => exact Or.inl rfl
      | cons q pre =>
        have hnil := (List.cons.inj h).2
        exact absurd hnil (List.append_ne_nil_of_right_ne_nil _ (List.cons_ne_nil _ _)).symm
    · rw [if_neg hn] at h
      cases pre with
      | nil => exact Or.inl rfl
      | cons q pre =>
        obtain ⟨rfl, htail⟩ := List.cons.inj h
        refine Or.inr ?_
        rw [stream_cons, List.length_append, Packet.length_bytes]
        rcases ih htail with rfl | hlt
        · rw [stream_nil, List.length_nil]
          omega
        · omega

theorem le_stream_upTo (ps : List Packet) (h : n ≤ (stream ps).length) :
    n ≤ (stream (upTo n ps)).length := by
  induction ps generalizing n with
  | nil => exact h
  | cons p ps ih =>
    rw [stream_cons, List.length_append, Packet.length_bytes] at h
    rw [upTo]
    by_cases hn : n ≤ p.count
    · rw [if_pos hn, stream_cons, List.length_append, Packet.length_bytes]
      omega
    · have := ih (n := n - p.count) (by omega)
      rw [if_neg hn, stream_cons, List.length_append, Packet.length_bytes]
      omega

/-- The packet that reaches the end goes less than its own size beyond it. -/
theorem stream_upTo_le (n : ℕ) (ps : List Packet) : (stream (upTo n ps)).length ≤ n + 0x7FF := by
  induction ps generalizing n with
  | nil => exact Nat.zero_le _
  | cons p ps ih =>
    have hcount := p.count_le
    rw [upTo]
    split_ifs with hn
    · rw [stream_cons, stream_nil, List.append_nil, Packet.length_bytes]
      omega
    · have hrest := ih (n - p.count)
      rw [stream_cons, List.length_append, Packet.length_bytes]
      omega

/-- The words of a stream, when only the last packet may end within one. -/
theorem words_length (h : ∀ p ∈ ps.dropLast, 4 ∣ p.count) :
    4 * (ps.flatMap Packet.words).length = roundUp4 (stream ps).length := by
  induction ps with
  | nil => rfl
  | cons p ps ih =>
    have hwords := p.length_words
    cases ps with
    | nil =>
      simp only [List.flatMap_singleton, stream_cons, stream_nil, List.append_nil,
        Packet.length_bytes, roundUp4]
      omega
    | cons q qs =>
      rw [List.dropLast_cons_cons] at h
      obtain ⟨hp, hrest⟩ := List.forall_mem_cons.1 h
      have := ih hrest
      rw [List.flatMap_cons, List.length_append, stream_cons, List.length_append,
        Packet.length_bytes]
      simp only [roundUp4] at this ⊢
      omega

/-- The padding comes last. -/
theorem take_wordBytes (h : ∀ p ∈ ps.dropLast, 4 ∣ p.count) :
    (wordBytes (ps.flatMap Packet.words)).take (stream ps).length = stream ps := by
  induction ps with
  | nil => rfl
  | cons p ps ih =>
    cases ps with
    | nil =>
      simp only [List.flatMap_singleton, stream_cons, stream_nil, List.append_nil,
        Packet.length_bytes]
      rfl
    | cons q qs =>
      rw [List.dropLast_cons_cons] at h
      obtain ⟨hp, hrest⟩ := List.forall_mem_cons.1 h
      rw [List.flatMap_cons, wordBytes_append, Packet.wordBytes_eq hp, stream_cons,
        List.length_append, List.take_length_add_append, ih hrest]

/-- Packets that are whole words but for the last one, and together as well. -/
theorem forall_dvd_of_dropLast (h : ∀ p ∈ ps.dropLast, 4 ∣ p.count)
    (hlen : 4 ∣ (stream ps).length) : ∀ p ∈ ps, 4 ∣ p.count := by
  induction ps with
  | nil => exact nofun
  | cons p ps ih =>
    cases ps with
    | nil =>
      rw [stream_cons, stream_nil, List.append_nil, Packet.length_bytes] at hlen
      exact List.forall_mem_singleton.2 hlen
    | cons q qs =>
      rw [List.dropLast_cons_cons] at h
      obtain ⟨hp, hrest⟩ := List.forall_mem_cons.1 h
      rw [stream_cons, List.length_append, Packet.length_bytes] at hlen
      exact List.forall_mem_cons.2 ⟨hp, ih hrest ((Nat.dvd_add_right hp).1 hlen)⟩

theorem payloadStores_headerReceived (pTBI base : BitVec w) (d : ℕ) (ps : List Packet) :
    ∀ r ∈ payloadStores pTBI base d ps, r.headerReceived = true := by
  induction ps generalizing d with
  | nil => exact nofun
  | cons p ps ih =>
    exact List.forall_mem_cons.2 ⟨rfl, List.forall_mem_cons.2 ⟨rfl, ih _⟩⟩

/-- Whole words up to a limit that is one of whole words. -/
theorem payloadStores_inside {base : BitVec w} {d limit : ℕ}
    (hps : ∀ p ∈ ps.dropLast, 4 ∣ p.count) (hd : 4 ∣ d) (hlimit : 4 ∣ limit)
    (hw : limit ≤ 2 ^ w) (hfit : d + (stream ps).length ≤ limit) :
    ∀ r ∈ payloadStores pTBI base d ps, r.ofPacket = true →
      offset base r.addr + r.len ≤ limit := by
  induction ps generalizing d with
  | nil => exact nofun
  | cons p ps ih =>
    rw [stream_cons, List.length_append, Packet.length_bytes] at hfit
    have hcount := p.count_pos
    have hwords := p.length_words
    refine List.forall_mem_cons.2 ⟨fun _ => ?_, List.forall_mem_cons.2 ⟨nofun, ?_⟩⟩
    · rw [offset_add_ofNat base (by omega)]
      change d + 4 * p.words.length ≤ limit
      omega
    · cases ps with
      | nil => exact nofun
      | cons q qs =>
        rw [List.dropLast_cons_cons] at hps
        obtain ⟨hp, hrest⟩ := List.forall_mem_cons.1 hps
        exact ih hrest (Nat.dvd_add hd hp) (by omega)

end Cuts

/-! ## Downloads -/

section Downloads

variable {ps header payload : List Packet}

theorem roundUp4_le {n : ℕ} (h : n < 2 ^ 32) : roundUp4 n ≤ 2 ^ 32 := by
  rw [roundUp4]
  omega

theorem dvd_roundUp4 (n : ℕ) : 4 ∣ roundUp4 n := Nat.dvd_mul_left 4 _

theorem roundUp4_le_of_le {m n : ℕ} (h : m ≤ roundUp4 n) : roundUp4 m ≤ roundUp4 n := by
  simp only [roundUp4] at h ⊢
  omega

theorem dropLast_of_append (h : ∀ p ∈ (header ++ payload).dropLast, 4 ∣ p.count)
    (hne : payload ≠ []) : (∀ p ∈ header, 4 ∣ p.count) ∧ ∀ p ∈ payload.dropLast, 4 ∣ p.count := by
  rw [List.dropLast_append_of_ne_nil hne] at h
  exact ⟨fun p hp => h p (List.mem_append_left _ hp), fun p hp => h p (List.mem_append_right _ hp)⟩

variable {mem : Mem w} (hw : 2 ^ 32 ≤ 2 ^ w)

include hw in
/-- A stream cut behind the header. -/
theorem SendsImage.headerDone (h : SendsImage (header ++ payload)) (pTBI : BitVec w) (mem : Mem w)
    (hheader : (stream header).length = 512) :
    HeaderDone pTBI mem (stream header) (receive pTBI header (startUsb mem)) := by
  have hps : ∀ p ∈ header, 4 ∣ p.count := by
    cases payload with
    | nil =>
      have haligned := h.aligned
      rw [List.append_nil] at haligned
      exact forall_dvd_of_dropLast haligned (by rw [hheader]; decide)
    | cons p payload => exact (dropLast_of_append h.aligned (List.cons_ne_nil _ _)).1
  have hsig := h.signature
  rw [stream_append, wordAt_append_left (by rw [hheader])] at hsig
  exact (startUsb_headerPhase pTBI mem).run hw hps
    (by rw [List.length_nil, Nat.zero_add, hheader]) hsig

/-- What is received of the payload, from the header's end on. -/
structure PayloadDone (pTBI : BitVec w) (header payload : List Packet) (mem : Mem w) : Prop where
  header_done : HeaderDone pTBI mem (stream header) (receive pTBI header (startUsb mem))
  received : Received pTBI (sentLoadaddr w (header ++ payload)) (sentLoadsize (header ++ payload))
    (receive pTBI header (startUsb mem))
    (upTo (sentLoadsize (header ++ payload)).toNat payload)
    (receive pTBI (header ++ payload) (startUsb mem))
  done : (receive pTBI (header ++ payload) (startUsb mem)).bDownLoading = false

include hw in
theorem SendsImage.payloadDone (h : SendsImage (header ++ payload)) (pTBI : BitVec w) (mem : Mem w)
    (hheader : (stream header).length = 512) (hne : payload ≠ [])
    (hcounted : ∀ p ∈ payload.head?, (sentLoadsize (header ++ payload)).toNat < 2 ^ 31 + p.count) :
    PayloadDone pTBI header payload mem := by
  have hdone := h.headerDone hw pTBI mem hheader
  have hstart := hdone.received
  have hsize : wordAt (stream header) 0x44 = sentLoadsize (header ++ payload) := by
    rw [sentLoadsize, stream_append, wordAt_append_left (by rw [hheader]; decide)]
  have haddr : (wordAt (stream header) 0x48).setWidth w = sentLoadaddr w (header ++ payload) := by
    rw [sentLoadaddr, stream_append, wordAt_append_left (by rw [hheader]; decide)]
  rw [hsize, haddr] at hstart
  have hwhole := h.whole
  rw [stream_append, List.length_append, hheader] at hwhole
  obtain ⟨hreceived, hfalse⟩ := hstart.run hdone.downLoading hdone.headerReceived nofun
    (dropLast_of_append h.aligned hne).2 hne (Nat.zero_le _)
    (by simpa only [stream_nil, List.length_nil, Nat.zero_add] using hcounted)
    (by rw [stream_nil, List.length_nil]; omega)
  rw [← receive_append, stream_nil, List.length_nil, Nat.sub_zero, List.nil_append] at hreceived
  rw [← receive_append] at hfalse
  exact ⟨hdone, hreceived, hfalse⟩

/-- The packets received are whole words but for the last one. -/
theorem SendsImage.upTo_aligned (h : SendsImage (header ++ payload)) (hne : payload ≠ []) (n : ℕ) :
    ∀ p ∈ (upTo n payload).dropLast, 4 ∣ p.count := by
  obtain ⟨rest, hrest⟩ := exists_upTo_append n payload
  have hpayload := (dropLast_of_append h.aligned hne).2
  rw [hrest] at hpayload
  cases rest with
  | nil => rwa [List.append_nil] at hpayload
  | cons p rest =>
    intro q hq
    exact (dropLast_of_append hpayload (List.cons_ne_nil _ _)).1 q
      ((List.dropLast_sublist _).subset hq)

theorem getD_header_append (hheader : (stream header).length = 512) (k : ℕ) :
    (stream (header ++ payload)).getD (512 + k) 0 = (stream payload).getD k 0 := by
  rw [stream_append, List.getD_append_right _ _ _ _ (by omega), hheader, Nat.add_sub_cancel_left]

include hw in
/-- A byte of the image where the running CRC does not go. -/
theorem PayloadDone.mem_payload (h : PayloadDone pTBI header payload mem)
    (hsends : SendsImage (header ++ payload)) (hheader : (stream header).length = 512)
    (hne : payload ≠ [])
    (hfits : (stream (upTo (sentLoadsize (header ++ payload)).toNat payload)).length ≤
      roundUp4 (sentLoadsize (header ++ payload)).toNat) {k : ℕ}
    (hk : k < (sentLoadsize (header ++ payload)).toNat)
    (ha : sentLoadaddr w (header ++ payload) + BitVec.ofNat w k ∉ block (crcWord pTBI) 4) :
    (receive pTBI (header ++ payload) (startUsb mem)).mem
        (sentLoadaddr w (header ++ payload) + BitVec.ofNat w k) =
      (stream payload).getD k 0 := by
  have haligned := hsends.upTo_aligned hne (sentLoadsize (header ++ payload)).toNat
  have hwords := words_length haligned
  have hround := (roundUp4_le_of_le hfits).trans (roundUp4_le (BitVec.isLt _))
  have hwhole := hsends.whole
  rw [stream_append, List.length_append, hheader] at hwhole
  have hreach := le_stream_upTo payload (Nat.le_of_add_le_add_left hwhole)
  have hlen : (stream (upTo (sentLoadsize (header ++ payload)).toNat payload)).length ≤
      (wordBytes ((upTo (sentLoadsize (header ++ payload)).toNat payload).flatMap
        Packet.words)).length := by
    rw [length_wordBytes, hwords, roundUp4]
    omega
  obtain ⟨rest, hrest⟩ := exists_upTo_append (sentLoadsize (header ++ payload)).toNat payload
  rw [h.received.mem (by omega) _ ha, write_add _ _ (by omega) (by rw [length_wordBytes]; omega)]
  calc (wordBytes ((upTo (sentLoadsize (header ++ payload)).toNat payload).flatMap
          Packet.words))[k]
      = ((wordBytes ((upTo (sentLoadsize (header ++ payload)).toNat payload).flatMap
          Packet.words)).take
            (stream (upTo (sentLoadsize (header ++ payload)).toNat payload)).length).getD k 0 := by
        rw [List.getD_eq_getElem _ _ (by rw [List.length_take_of_le hlen]; omega),
          List.getElem_take]
    _ = (stream (upTo (sentLoadsize (header ++ payload)).toNat payload)).getD k 0 := by
        rw [take_wordBytes haligned]
    _ = (stream payload).getD k 0 := by
        conv_rhs => rw [hrest, stream_append]
        rw [List.getD_append _ _ _ _ (by omega)]

/-- A byte of the image where the running CRC goes. -/
theorem PayloadDone.mem_crc (h : PayloadDone pTBI header payload mem) (hne : payload ≠ [])
    {a : BitVec w} (ha : a ∈ block (crcWord pTBI) 4) :
    (receive pTBI (header ++ payload) (startUsb mem)).mem a =
      (leBytes (runningFcs (upTo (sentLoadsize (header ++ payload)).toNat payload))).getD
        (offset (crcWord pTBI) a) 0 := by
  have hlt : offset (crcWord pTBI) a <
      (leBytes (runningFcs (upTo (sentLoadsize (header ++ payload)).toNat payload))).length := ha
  rw [h.received.mem_crc (upTo_ne_nil hne) a ha, h.received.fcs, write_of_lt _ hlt,
    List.getD_eq_getElem _ _ hlt]

/-- A download that is cut well. -/
theorem downloads_of_cutsWell {mode : OpMode} {pTBI : BitVec mode.width} {ps : List Packet}
    (hsends : SendsImage ps) (hcuts : CutsWell pTBI ps) (mem : Mem mode.width) :
    Downloads pTBI ps mem := by
  obtain ⟨header, payload, rfl, hheader, hpayload⟩ := hcuts
  have hw : 2 ^ 32 ≤ 2 ^ mode.width := OpMode.two_pow_le
  have hdone := hsends.headerDone hw pTBI mem hheader
  by_cases hne : payload = []
  · -- the image is empty, and the receiver waits for it
    subst hne
    rw [List.append_nil]
    refine ⟨fun r hr _ => (hdone.inside r hr).2, fun r hr htrue => ?_, fun hfalse => ?_⟩
    · rw [(hdone.inside r hr).1] at htrue
      cases htrue
    · rw [hdone.downLoading] at hfalse
      cases hfalse
  · obtain hnil | hcut := hpayload
    · exact absurd hnil hne
    have h := hsends.payloadDone hw pTBI mem hheader hne hcut.counted
    refine ⟨fun r hr hfalse => ?_, fun r hr htrue hpacket => ?_, fun _ k hk => ?_⟩
    · rw [h.received.stores, List.mem_append] at hr
      obtain hr | hr := hr
      · exact (hdone.inside r hr).2
      · rw [payloadStores_headerReceived _ _ _ _ r hr] at hfalse
        cases hfalse
    · rw [h.received.stores, List.mem_append] at hr
      obtain hr | hr := hr
      · rw [(hdone.inside r hr).1] at htrue
        cases htrue
      · refine payloadStores_inside (hsends.upTo_aligned hne _) (dvd_zero 4) (dvd_roundUp4 _)
          ((roundUp4_le (BitVec.isLt _)).trans hw) ?_ r hr hpacket
        rw [Nat.zero_add]
        exact hcut.fits
    · rw [getD_header_append hheader]
      by_cases ha : sentLoadaddr mode.width (header ++ payload) + BitVec.ofNat _ k ∈
          block (crcWord pTBI) 4
      · rw [h.mem_crc hne ha, hcut.crc_kept k hk ha]
      · exact h.mem_payload hw hsends hheader hne hcut.fits hk ha

theorem offset_add_of_le_pow {p a : BitVec w} {k : ℕ} (h : offset p a + k < 2 ^ w) :
    offset p (a + BitVec.ofNat w k) = offset p a + k := by
  conv_lhs => rw [← add_offset p a, ofNat_add]
  exact offset_add_ofNat p h

/-- One of two addresses `512` bytes apart is outside the header. -/
theorem exists_outside (hw : 2 ^ 32 ≤ 2 ^ w) (pTBI base : BitVec w) (c : ℕ) :
    ∃ k, c ≤ k ∧ k ≤ c + 512 ∧ base + BitVec.ofNat w k ∉ block pTBI 512 := by
  by_cases h : base + BitVec.ofNat w c ∈ block pTBI 512
  · refine ⟨c + 512, by omega, le_refl _, ?_⟩
    rw [mem_block] at h
    rw [← ofNat_add, mem_block, offset_add_of_le_pow (by omega)]
    omega
  · exact ⟨c, le_refl _, by omega, h⟩

theorem not_ne_self (b : Byte) : ~~~b ≠ b := by
  revert b
  decide

/-- A packet that is shorter than the image is not the last, and so it is whole words. -/
theorem SendsImage.dvd_head {p : Packet} (hsends : SendsImage (header ++ p :: payload))
    (hheader : (stream header).length = 512)
    (hshort : p.count < (sentLoadsize (header ++ p :: payload)).toNat) : 4 ∣ p.count := by
  have hwhole := hsends.whole
  rw [stream_append, List.length_append, hheader, stream_cons, List.length_append,
    Packet.length_bytes] at hwhole
  have haligned := (dropLast_of_append hsends.aligned (List.cons_ne_nil p payload)).2
  cases payload with
  | nil =>
    rw [stream_nil, List.length_nil] at hwhole
    omega
  | cons q qs =>
    rw [List.dropLast_cons_cons] at haligned
    exact haligned p List.mem_cons_self

/-- An image that is too long for the `S32` is given up after its first packet. -/
theorem counted_of_downloads (hw : 2 ^ 32 ≤ 2 ^ w) (hsends : SendsImage (header ++ payload))
    (hheader : (stream header).length = 512)
    (h : ∀ mem, Downloads pTBI (header ++ payload) mem) :
    ∀ p ∈ payload.head?, (sentLoadsize (header ++ payload)).toNat < 2 ^ 31 + p.count := by
  intro p hp
  obtain ⟨ps, rfl⟩ : ∃ ps, payload = p :: ps := by
    cases payload with
    | nil => cases hp
    | cons q ps =>
      obtain rfl : q = p := Option.some.inj hp
      exact ⟨ps, rfl⟩
  by_contra hlong
  rw [Nat.not_lt] at hlong
  set base := sentLoadaddr w (header ++ p :: ps) with hbase
  set loadsize := sentLoadsize (header ++ p :: ps) with hloadsize
  obtain ⟨k, hk, hk', hout⟩ := exists_outside hw pTBI base p.count
  set mem : Mem w := fun _ => ~~~(stream (header ++ p :: ps)).getD (512 + k) 0 with hmem
  have hdone := hsends.headerDone hw pTBI mem hheader
  have hstart := hdone.received
  have hsize : wordAt (stream header) 0x44 = loadsize := by
    rw [hloadsize, sentLoadsize, stream_append, wordAt_append_left (by rw [hheader]; decide)]
  have haddr : (wordAt (stream header) 0x48).setWidth w = base := by
    rw [hbase, sentLoadaddr, stream_append, wordAt_append_left (by rw [hheader]; decide)]
  rw [hsize, haddr] at hstart
  have hcount := p.count_le
  have hlt := loadsize.isLt
  have hfalse := (receivePayload_done_iff hstart hdone.downLoading (Nat.zero_le _) p).2
    (Or.inr (by rw [stream_nil, List.length_nil]; omega))
  have hfinal : receive pTBI (header ++ p :: ps) (startUsb mem) =
      receivePayload pTBI p (receive pTBI header (startUsb mem)) := by
    rw [receive_append, receive_cons hdone.downLoading, intBulkout_of_payload hdone.headerReceived,
      receive_of_done hfalse]
  have hplaced := (h mem).placed (by rw [hfinal]; exact hfalse) k (by rw [← hloadsize]; omega)
  -- nothing was stored at that address, by either phase
  have hcrc : base + BitVec.ofNat w k ∉ block (crcWord pTBI) 4 :=
    fun hmem => hout (crcWord_block_subset hmem)
  have hp4 : 4 ∣ p.count := hsends.dvd_head hheader (by rw [← hloadsize]; omega)
  have hstep := hstart.step hdone.headerReceived nofun p
  have hwords : wordBytes ([p].flatMap Packet.words) = p.bytes := by
    rw [List.flatMap_singleton, Packet.wordBytes_eq hp4]
  have hlength : 4 * ([p].flatMap Packet.words).length = p.count := by
    rw [← length_wordBytes, hwords, Packet.length_bytes]
  have hkept : base + BitVec.ofNat w k ∉ block base p.bytes.length := by
    rw [mem_block, offset_add_ofNat base (by omega), Packet.length_bytes]
    omega
  rw [hfinal, hstep.mem (by rw [List.nil_append]; omega) _ hcrc, List.nil_append, hwords,
    write_of_not_mem _ hkept, hdone.mem _ hcrc, write_of_not_mem _ (by rwa [hheader])] at hplaced
  exact not_ne_self _ hplaced

/-- The last packet received is stored whole. -/
theorem fits_of_downloads (hw : 2 ^ 32 ≤ 2 ^ w) (hne : payload ≠ [])
    (hdone : PayloadDone pTBI header payload mem) (h : Downloads pTBI (header ++ payload) mem) :
    (stream (upTo (sentLoadsize (header ++ payload)).toNat payload)).length ≤
      roundUp4 (sentLoadsize (header ++ payload)).toNat := by
  set loadsize := sentLoadsize (header ++ payload)
  have hlt := loadsize.isLt
  obtain ⟨pre, last, hsplit⟩ : ∃ pre last, upTo loadsize.toNat payload = pre ++ [last] :=
    ⟨_, _, (List.dropLast_concat_getLast (upTo_ne_nil hne)).symm⟩
  have hstores := hdone.received.stores
  rw [hsplit, payloadStores_concat, Nat.zero_add] at hstores
  have hinside := h.payload_inside
    ⟨true, true, sentLoadaddr w (header ++ payload) + BitVec.ofNat w (stream pre).length,
      4 * last.words.length⟩
    (by rw [hstores]; exact List.mem_append_right _ (List.mem_append_right _ List.mem_cons_self))
    rfl rfl
  have hpre : (stream pre).length < 2 ^ w := by
    obtain rfl | hpre := stream_lt_of_upTo hsplit
    · rw [stream_nil, List.length_nil]
      omega
    · omega
  rw [offset_add_ofNat _ hpre] at hinside
  have hlast := last.count_le_length
  rw [length_wordBytes] at hlast
  rw [hsplit, stream_append, List.length_append, stream_cons, stream_nil, List.append_nil,
    Packet.length_bytes]
  exact (Nat.add_le_add_left hlast _).trans hinside

theorem cutsWell_of_downloads {mode : OpMode} {pTBI : BitVec mode.width} {ps : List Packet}
    (hsends : SendsImage ps) (h : ∀ mem, Downloads pTBI ps mem) : CutsWell pTBI ps := by
  have hw : 2 ^ 32 ≤ 2 ^ mode.width := OpMode.two_pow_le
  obtain ⟨header, payload, rfl, hheader⟩ :
      ∃ header payload, ps = header ++ payload ∧ (stream header).length = 512 := by
    by_contra hnone
    obtain ⟨r, hr, hfalse, hover⟩ := (startUsb_headerPhase pTBI fun _ => 0).run_overrun hw
      hsends.aligned (by have := hsends.whole; rw [List.length_nil]; omega)
      fun header payload hsplit hlen =>
        hnone ⟨header, payload, hsplit, by rwa [List.length_nil, Nat.zero_add] at hlen⟩
    exact absurd ((h fun _ => 0).header_inside r hr hfalse) (Nat.not_le.2 hover)
  refine ⟨header, payload, rfl, hheader, ?_⟩
  by_cases hne : payload = []
  · exact Or.inl hne
  have hcounted := counted_of_downloads hw hsends hheader h
  have hdone := hsends.payloadDone hw pTBI (fun _ => 0) hheader hne hcounted
  refine Or.inr ⟨fits_of_downloads hw hne hdone (h _), hcounted, fun k hk ha => ?_⟩
  rw [← hdone.mem_crc hne ha, (h _).placed hdone.done k hk, getD_header_append hheader]

/-- **Downloads.** Into whatever memory, a download goes where it should iff the stream is cut
well. -/
theorem downloads_iff_cutsWell {mode : OpMode} (pTBI : BitVec mode.width) {ps : List Packet}
    (hsends : SendsImage ps) : (∀ mem, Downloads pTBI ps mem) ↔ CutsWell pTBI ps :=
  ⟨cutsWell_of_downloads hsends, downloads_of_cutsWell hsends⟩

end Downloads

/-! ## Two downloads -/

/-- The words of an `NSIH` header. -/
def headerWords (loadsize loadaddr : BitVec 32) : List (BitVec 32) :=
  List.replicate 17 0 ++ [loadsize, loadaddr] ++ List.replicate 108 0 ++ [headerId]

/-- The header in a packet of its own, and an image of 5 bytes behind it. -/
def smallDownload : List Packet :=
  [{ count := 512, words := headerWords 5 0x43C00000, count_pos := by decide,
     count_le := by decide, length_words := rfl },
   { count := 5, words := [0x04030201, 0x00000005], count_pos := by decide, count_le := by decide,
     length_words := rfl }]

theorem smallDownload_sends : SendsImage smallDownload where
  aligned := by decide
  signature := by decide +kernel
  whole := by decide +kernel

theorem smallDownload_cutsWell :
    CutsWell (0xFFFFD000 : BitVec OpMode.aarch64.width) smallDownload := by
  have hsize : sentLoadsize smallDownload = 5 := by decide +kernel
  have haddr : sentLoadaddr OpMode.aarch64.width smallDownload = 0x43C00000 := by decide +kernel
  refine ⟨smallDownload.take 1, smallDownload.drop 1, rfl, by decide +kernel, Or.inr ?_⟩
  rw [hsize, haddr]
  refine ⟨by decide, fun p hp => ?_, fun k hk ha => ?_⟩
  · obtain rfl := Option.some.inj hp
    decide
  · have hout : ∀ k < 5, ¬ offset (crcWord (0xFFFFD000 : BitVec OpMode.aarch64.width))
        (0x43C00000 + BitVec.ofNat _ k) < 4 := by decide
    exact absurd ha (hout k hk)

theorem smallDownload_downloads :
    Downloads (0xFFFFD000 : BitVec OpMode.aarch64.width) smallDownload (fun _ => 0) :=
  (downloads_iff_cutsWell _ smallDownload_sends).2 smallDownload_cutsWell _

/-- The header and an image of 88 bytes in one packet. -/
def straddling : List Packet :=
  [{ count := 600, words := headerWords 88 0x43C00000 ++ List.replicate 22 0,
     count_pos := by decide, count_le := by decide, length_words := rfl }]

theorem straddling_not_downloads :
    SendsImage straddling ∧
      ¬ Downloads (0xFFFFD000 : BitVec OpMode.aarch64.width) straddling (fun _ => 0) := by
  refine ⟨⟨by decide, by decide +kernel, by decide +kernel⟩, fun h => ?_⟩
  have hcut : ∀ header payload, straddling = header ++ payload →
      ([] : List Byte).length + (stream header).length ≠ 512 := by
    intro header payload hsplit hlen
    cases header with
    | nil => exact absurd hlen (by decide)
    | cons p header =>
      obtain ⟨rfl, -⟩ := List.cons.inj hsplit
      rw [stream_cons, List.length_append, Packet.length_bytes, List.length_nil] at hlen
      change 0 + (600 + _) = 512 at hlen
      omega
  have hstart := startUsb_headerPhase (0xFFFFD000 : BitVec OpMode.aarch64.width) fun _ => 0
  obtain ⟨r, hr, hfalse, hover⟩ := hstart.run_overrun OpMode.two_pow_le (by decide)
    (by decide +kernel) hcut
  exact absurd (h.header_inside r hr hfalse) (Nat.not_le.2 hover)

end Gec6818Bl1.Usb
