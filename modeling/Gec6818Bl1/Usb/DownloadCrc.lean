import Gec6818Bl1.Usb.Download
import Gec6818Bl1.Usb.Events

/-!
# The CRC of a download

`nx_usb_read_out_fifo` adds every word behind the header to `g_fcs`, and stores it in the header
after each packet. An enumeration starts the header again, whatever has been received. It does not
set `g_fcs` back, nor does anything else.

**The CRC.** A download that is complete has a last header (`exists_lastHeader`): the one whose
payload followed without another enumeration. If the packets of that payload fit
(`PayloadFits`), what is left in the header is the CRC of the image iff `g_fcs` was 0 when the
header was accepted (`downloadCrc_iff`). Whether they fit or not, it is the CRC of all that was
received behind this header and earlier ones (`crc32_of_done`, `fcs_eq_payloadWords`).
-/

namespace Gec6818Bl1.Usb

open ByteMem

variable {w : ℕ}

/-- The header's CRC word is the CRC of the image, both by the header as it is in memory. -/
def CrcRight (pTBI : BitVec w) (s : UsbState w) : Prop :=
  SecondBootInfo.crc32 s.mem pTBI =
    calcCrc s.mem ((SecondBootInfo.loadaddr s.mem pTBI).setWidth w)
      (SecondBootInfo.loadsize s.mem pTBI)

instance (pTBI : BitVec w) (s : UsbState w) : Decidable (CrcRight pTBI s) :=
  inferInstanceAs (Decidable (_ = _))

/-- A packet of the payload, by what is still expected. -/
structure PayloadFits (pTBI : BitVec w) (s : UsbState w) (p : Packet) : Prop where
  /-- `__calc_crc` takes the size as an `int`, and adds 3. -/
  counted : s.iRxSize.toNat + 3 < 2 ^ 31
  /-- Whole words before the end of the image, and not beyond its last word. -/
  fits : (4 ∣ p.count ∧ p.count < s.iRxSize.toNat) ∨
    (s.iRxSize.toNat ≤ p.count ∧ p.count ≤ roundUp4 s.iRxSize.toNat)
  /-- `LOADSIZE`, `LOADADDR` and the CRC are not stored over. -/
  clear : ∀ a ∈ block s.rxBuffAddr (4 * p.words.length),
    a ∉ block (pTBI + BitVec.ofNat w 0x44) 8 ∧ a ∉ block (crcWord pTBI) 4

/-- The packet that an interrupt delivers fits. -/
def FitsAt (pTBI : BitVec w) (s : UsbState w) (e : UdcInt) : Prop :=
  ∀ p, e.delivers = some p → PayloadFits pTBI s p

/-- The interrupt `e` brings the rest of a header that is accepted. -/
def Accepts (pTBI : BitVec w) (s : UsbState w) (e : UdcInt) : Prop :=
  (s.bHeaderReceived = false ∨ e.enumDone = true) ∧
    (udcIntHndlr pTBI e s).bHeaderReceived = true

/-- The last header of the run `es`: it is accepted in `s₀`, and then `payload` comes without
another enumeration. -/
structure LastHeader (pTBI : BitVec w) (mem : Mem w) (es : List UdcInt) (s₀ : UsbState w)
    (e : UdcInt) (payload : List UdcInt) : Prop where
  split : ∃ before, es = before ++ e :: payload ∧
    Lts.run (step pTBI) (startUsb mem) before = some s₀
  accepts : Accepts pTBI s₀ e
  no_enum : ∀ e' ∈ payload, e'.enumDone = false

/-! ## The two phases -/

variable {pTBI : BitVec w} {s s' : UsbState w} {p : Packet} {e : UdcInt}

/-- A packet of a header does not end the download, and leaves the CRC alone. -/
theorem receiveHeader_kept (pTBI : BitVec w) (p : Packet) (h : s.bHeaderReceived = false) :
    (receiveHeader pTBI p s).bDownLoading = s.bDownLoading ∧
      (receiveHeader pTBI p s).fcs = s.fcs := by
  simp only [receiveHeader, readHeader, readOutFifo, h, Bool.false_eq_true, if_false]
  split_ifs <;> exact ⟨rfl, rfl⟩

/-- The buffer and the size of an accepted header are the ones in memory. -/
theorem receiveHeader_accepted (h : s.bHeaderReceived = false)
    (hacc : (receiveHeader pTBI p s).bHeaderReceived = true) :
    (receiveHeader pTBI p s).rxBuffAddr =
        (SecondBootInfo.loadaddr (receiveHeader pTBI p s).mem pTBI).setWidth w ∧
      (receiveHeader pTBI p s).iRxSize =
        SecondBootInfo.loadsize (receiveHeader pTBI p s).mem pTBI := by
  simp only [receiveHeader, readHeader, readOutFifo] at hacc ⊢
  split_ifs at hacc ⊢ <;>
    first | exact ⟨rfl, rfl⟩ | exact absurd (h.symm.trans hacc) Bool.false_ne_true

/-- The download is complete only after a packet of the payload. -/
theorem udcIntHndlr_done (hdown : s.bDownLoading = true)
    (h : (udcIntHndlr pTBI e s).bDownLoading = false) :
    s.bHeaderReceived = true ∧ e.enumDone = false := by
  rw [udcIntHndlr_eq] at h
  cases he : e.enumDone with
  | true =>
    rw [he] at h
    cases hp : e.delivers with
    | none =>
      rw [hp] at h
      exact absurd (hdown.symm.trans h) nofun
    | some p =>
      simp only [hp, if_true] at h
      rw [intBulkout_of_header (s := restart s) rfl, (receiveHeader_kept pTBI p rfl).1] at h
      exact absurd (hdown.symm.trans h) nofun
  | false =>
    simp only [he, Bool.false_eq_true, if_false] at h
    cases hh : s.bHeaderReceived with
    | true => exact ⟨rfl, rfl⟩
    | false =>
      cases hp : e.delivers with
      | none =>
        rw [hp] at h
        exact absurd (hdown.symm.trans h) nofun
      | some p =>
        simp only [hp] at h
        rw [intBulkout_of_header hh, (receiveHeader_kept pTBI p hh).1] at h
        exact absurd (hdown.symm.trans h) nofun

/-- Where a header is accepted, a packet ended it. -/
theorem Accepts.delivers (h : Accepts pTBI s e) :
    ∃ p s₁, e.delivers = some p ∧ s₁.bHeaderReceived = false ∧ s₁.fcs = s.fcs ∧
      s₁.bDownLoading = s.bDownLoading ∧ udcIntHndlr pTBI e s = receiveHeader pTBI p s₁ := by
  obtain ⟨hphase, hacc⟩ := h
  set s₁ := if e.enumDone then restart s else s with hs₁
  have hheader : s₁.bHeaderReceived = false := by
    rw [hs₁]
    cases he : e.enumDone with
    | true => rfl
    | false => exact hphase.resolve_right (by simp [he])
  have hkept : s₁.fcs = s.fcs ∧ s₁.bDownLoading = s.bDownLoading := by
    rw [hs₁]
    split_ifs <;> exact ⟨rfl, rfl⟩
  have heq := udcIntHndlr_eq pTBI e s
  rw [← hs₁] at heq
  cases hp : e.delivers with
  | none =>
    rw [heq, hp] at hacc
    exact absurd (hheader.symm.trans hacc) nofun
  | some p =>
    rw [hp] at heq
    exact ⟨p, s₁, rfl, hheader, hkept.1, hkept.2, heq.trans (intBulkout_of_header hheader p)⟩

/-! ## The payload and its CRC -/

/-- The words `ws` have been received behind the header, when `g_fcs` was `c` before them. -/
structure Receiving (pTBI : BitVec w) (base : BitVec w) (loadsize c : BitVec 32)
    (ws : List (BitVec 32)) (s : UsbState w) : Prop where
  downLoading : s.bDownLoading = true
  headerReceived : s.bHeaderReceived = true
  loadaddr_eq : (SecondBootInfo.loadaddr s.mem pTBI).setWidth w = base
  loadsize_eq : SecondBootInfo.loadsize s.mem pTBI = loadsize
  buffer : s.rxBuffAddr = base + BitVec.ofNat w (4 * ws.length)
  left : s.iRxSize.toNat + 4 * ws.length = loadsize.toNat
  counted : ws ≠ [] → loadsize.toNat + 3 < 2 ^ 31
  fcs : s.fcs = ws.foldl igetFcs c
  words : loadWords s.mem base ws.length = ws
  clear : ∀ a ∈ block base (4 * ws.length), a ∉ block (crcWord pTBI) 4

section Payload

variable {base : BitVec w} {loadsize c : BitVec 32} {ws : List (BitVec 32)}

theorem Accepts.receiving (h : Accepts pTBI s e) (hdown : s.bDownLoading = true) :
    Receiving pTBI (udcIntHndlr pTBI e s).rxBuffAddr (udcIntHndlr pTBI e s).iRxSize s.fcs []
      (udcIntHndlr pTBI e s) := by
  obtain ⟨p, s₁, -, hheader, hfcs, hdown₁, heq⟩ := h.delivers
  have hacc := h.2
  rw [heq] at hacc ⊢
  obtain ⟨haddr, hsize⟩ := receiveHeader_accepted hheader hacc
  obtain ⟨hdown', hfcs'⟩ := receiveHeader_kept pTBI p hheader
  constructor
  · rw [hdown', hdown₁, hdown]
  · exact hacc
  · exact haddr.symm
  · exact hsize.symm
  · exact (BitVec.add_zero _).symm
  · rfl
  · exact fun h => absurd rfl h
  · exact hfcs'.trans hfcs
  · rfl
  · intro a ha
    rw [List.length_nil, Nat.mul_zero, block_zero] at ha
    cases ha

variable (hw : 2 ^ 32 ≤ 2 ^ w)

theorem Receiving.loadsize_small (h : Receiving pTBI base loadsize c ws s)
    (hfits : PayloadFits pTBI s p) : loadsize.toNat + 3 < 2 ^ 31 := by
  by_cases hws : ws = []
  · have hleft := h.left
    rw [hws, List.length_nil, Nat.mul_zero, Nat.add_zero] at hleft
    rw [← hleft]
    exact hfits.counted
  · exact h.counted hws

/-- No packet that fits goes beyond the last word of the image. -/
theorem Receiving.words_le (h : Receiving pTBI base loadsize c ws s)
    (hfits : PayloadFits pTBI s p) :
    4 * (ws.length + p.words.length) ≤ loadsize.toNat + 3 := by
  have hleft := h.left
  have hwords := p.length_words
  have hfit := hfits.fits
  rw [roundUp4] at hfit
  omega

include hw in
/-- What a packet that fits stores: its words behind the others, and the CRC. -/
theorem Receiving.stored (h : Receiving pTBI base loadsize c ws s)
    (hfits : PayloadFits pTBI s p) :
    (receivePayload pTBI p s).fcs = (ws ++ p.words).foldl igetFcs c ∧
      SecondBootInfo.loadaddr (receivePayload pTBI p s).mem pTBI =
        SecondBootInfo.loadaddr s.mem pTBI ∧
      SecondBootInfo.loadsize (receivePayload pTBI p s).mem pTBI =
        SecondBootInfo.loadsize s.mem pTBI ∧
      SecondBootInfo.crc32 (receivePayload pTBI p s).mem pTBI =
        (receivePayload pTBI p s).fcs ∧
      loadWords (receivePayload pTBI p s).mem base (ws.length + p.words.length) =
        ws ++ p.words := by
  obtain ⟨-, -, hfcs, hmem⟩ := receivePayload_fields pTBI p s
  have hsmall := h.loadsize_small hfits
  have hle := h.words_le hfits
  have hout {a : BitVec w} (hcrc : a ∉ block (crcWord pTBI) 4) :
      (receivePayload pTBI p s).mem a = write s.mem s.rxBuffAddr (wordBytes p.words) a := by
    rw [hmem, readOutFifo_mem_of_not_mem _ hcrc]
  have hfield {a : BitVec w} (ha : a ∈ block (pTBI + BitVec.ofNat w 0x44) 8) :
      (receivePayload pTBI p s).mem a = s.mem a := by
    have hdis : Disjoint (block (pTBI + BitVec.ofNat w 0x44) 8) (block (crcWord pTBI) 4) :=
      disjoint_block_add pTBI (by decide) (le_trans (by decide) hw)
    rw [hout (Set.disjoint_left.1 hdis ha), write_of_not_mem]
    rw [length_wordBytes]
    exact fun hb => (hfits.clear a hb).1 ha
  have hsub : block (pTBI + BitVec.ofNat w 0x48) 4 ⊆ block (pTBI + BitVec.ofNat w 0x44) 8 := by
    have := block_sub (pTBI + BitVec.ofNat w 0x44) (k := 4) (m := 4) (n := 8) (le_refl _)
    rwa [ofNat_add] at this
  refine ⟨?_, load32_congr fun a ha => hfield (hsub ha),
    load32_congr fun a ha => hfield (block_mono (by decide) ha), ?_, ?_⟩
  · rw [hfcs, readOutFifo, h.headerReceived, if_pos rfl, h.fcs, List.foldl_append]
  · rw [hfcs, hmem]
    exact load32_write_leBytes _ _ _ (le_trans (by decide) hw)
  · have hfirst : loadWords (receivePayload pTBI p s).mem base ws.length = ws := by
      refine (loadWords_congr fun a ha => ?_).trans h.words
      rw [hout (h.clear a ha), write_of_not_mem]
      have hdis := disjoint_block_add base (i := 0) (m := 4 * ws.length) (j := 4 * ws.length)
        (n := (wordBytes p.words).length) (by omega) (by rw [length_wordBytes]; omega)
      rw [BitVec.add_zero, ← h.buffer] at hdis
      exact Set.disjoint_left.1 hdis ha
    have hlast : loadWords (receivePayload pTBI p s).mem s.rxBuffAddr p.words.length =
        p.words := by
      rw [loadWords_congr fun a ha => hout (hfits.clear a ha).2]
      exact loadWords_write _ _ (by omega)
    rw [loadWords_add, hfirst, ← h.buffer, hlast]

include hw in
/-- A packet before the end of the image. -/
theorem Receiving.step (h : Receiving pTBI base loadsize c ws s) (hfits : PayloadFits pTBI s p)
    (hp : 4 ∣ p.count) (hlt : p.count < s.iRxSize.toNat) :
    Receiving pTBI base loadsize c (ws ++ p.words) (receivePayload pTBI p s) := by
  obtain ⟨hfcs, haddr, hsize, -, hwords⟩ := h.stored hw hfits
  obtain ⟨hbuffer, hleft, -, -⟩ := receivePayload_fields pTBI p s
  have hsmall := hfits.counted
  have hlen : 4 * p.words.length = p.count := by
    have := p.length_words
    omega
  have htoNat : (s.iRxSize - BitVec.ofNat 32 p.count).toNat = s.iRxSize.toNat - p.count := by
    have hcount : (BitVec.ofNat 32 p.count).toNat = p.count := by
      rw [BitVec.toNat_ofNat, Nat.mod_eq_of_lt (by omega)]
    rw [BitVec.toNat_sub_of_le (BitVec.le_def.2 (by omega)), hcount]
  have hpos : ¬ (s.iRxSize - BitVec.ofNat 32 p.count).toInt ≤ 0 := by
    rw [left_nonpos_iff _ (by omega)]
    omega
  have hflags : (receivePayload pTBI p s).bDownLoading = s.bDownLoading ∧
      (receivePayload pTBI p s).bHeaderReceived = s.bHeaderReceived := by
    simp only [receivePayload, readOutFifo, hpos, if_false, and_self]
  constructor
  · rw [hflags.1, h.downLoading]
  · rw [hflags.2, h.headerReceived]
  · rw [haddr, h.loadaddr_eq]
  · rw [hsize, h.loadsize_eq]
  · rw [hbuffer, h.buffer, ofNat_add, List.length_append, Nat.mul_add, hlen]
  · have := h.left
    rw [hleft, htoNat, List.length_append, Nat.mul_add, hlen]
    omega
  · exact fun _ => h.loadsize_small hfits
  · exact hfcs
  · rw [List.length_append, hwords]
  · intro a ha
    rw [List.length_append, Nat.mul_add, block_add, ← h.buffer] at ha
    obtain ha | ha := ha
    · exact h.clear a ha
    · exact (hfits.clear a ha).2

include hw in
/-- The packet at the end of the image. -/
theorem Receiving.last (h : Receiving pTBI base loadsize c ws s) (hfits : PayloadFits pTBI s p)
    (hle : s.iRxSize.toNat ≤ p.count) (hround : p.count ≤ roundUp4 s.iRxSize.toNat) :
    (receivePayload pTBI p s).bDownLoading = false ∧
      (CrcRight pTBI (receivePayload pTBI p s) ↔ c = 0) := by
  obtain ⟨hfcs, haddr, hsize, hcrc, hwords⟩ := h.stored hw hfits
  have hsmall := h.loadsize_small hfits
  have hdone : (s.iRxSize - BitVec.ofNat 32 p.count).toInt ≤ 0 := by
    have hcount := p.count_le
    rw [left_nonpos_iff _ (by omega)]
    exact Or.inl hle
  refine ⟨?_, ?_⟩
  · simp only [receivePayload, readOutFifo, hdone, if_true]
  · have hcount : (loadsize.toNat + 3) / 4 = ws.length + p.words.length := by
      have hleft := h.left
      have hlen := p.length_words
      rw [roundUp4] at hround
      omega
    rw [CrcRight, hcrc, hfcs, haddr, hsize, h.loadaddr_eq, h.loadsize_eq, calcCrc,
      toNat_chkcnt hsmall, hcount, hwords]
    exact (foldl_igetFcs_injective (ws ++ p.words)).eq_iff

include hw in
/-- **The payload.** Packets that fit, up to the end of the download. -/
theorem Receiving.run {es : List UdcInt} (h : Receiving pTBI base loadsize c ws s)
    (hes : ∀ e ∈ es, e.enumDone = false) (hrun : Lts.run (Usb.step pTBI) s es = some s')
    (hfits : Lts.Guarded (Usb.step pTBI) (FitsAt pTBI) s es) (hdone : s'.bDownLoading = false) :
    CrcRight pTBI s' ↔ c = 0 := by
  induction es generalizing s ws with
  | nil =>
    obtain rfl : s = s' := Option.some.inj hrun
    exact absurd (h.downLoading.symm.trans hdone) nofun
  | cons e es ih =>
    obtain ⟨he, hrest⟩ := List.forall_mem_cons.1 hes
    obtain ⟨s₁, hstep, hrun⟩ := Lts.run_cons hrun
    obtain ⟨hfit, hguard⟩ := hfits s₁ hstep
    obtain ⟨-, rfl⟩ := step_eq_some.1 hstep
    cases hp : e.delivers with
    | none =>
      rw [udcIntHndlr_idle he hp] at hrun hguard
      exact ih h hrest hrun hguard
    | some p =>
      rw [udcIntHndlr_packet he hp, intBulkout_of_payload h.headerReceived] at hrun hguard
      obtain ⟨hp4, hlt⟩ | ⟨hle, hround⟩ := (hfit p hp).fits
      · exact ih (h.step hw (hfit p hp) hp4 hlt) hrest hrun hguard
      · obtain ⟨hfalse, hiff⟩ := h.last hw (hfit p hp) hle hround
        -- nothing is taken after the end
        cases es with
        | nil =>
          obtain rfl := Option.some.inj hrun
          exact hiff
        | cons e' es =>
          obtain ⟨s₂, hstep', -⟩ := Lts.run_cons hrun
          have hdown := (step_eq_some.1 hstep').1
          exact absurd (hdown.symm.trans hfalse) nofun

end Payload

/-! ## The last header -/

/-- A download that is complete had a header accepted, unless it began behind one. -/
theorem exists_accepts {es : List UdcInt} (hdown : s.bDownLoading = true)
    (hrun : Lts.run (step pTBI) s es = some s') (hdone : s'.bDownLoading = false) :
    (s.bHeaderReceived = true ∧ ∀ e ∈ es, e.enumDone = false) ∨
      ∃ before s₀ e payload, es = before ++ e :: payload ∧
        Lts.run (step pTBI) s before = some s₀ ∧ Accepts pTBI s₀ e ∧
        ∀ e' ∈ payload, e'.enumDone = false := by
  induction es generalizing s with
  | nil =>
    obtain rfl : s = s' := Option.some.inj hrun
    exact absurd (hdown.symm.trans hdone) nofun
  | cons e es ih =>
    obtain ⟨s₁, hstep, hrun⟩ := Lts.run_cons hrun
    have hs₁ := (step_eq_some.1 hstep).2
    cases hdown₁ : s₁.bDownLoading with
    | false =>
      rw [← hs₁] at hdown₁
      obtain ⟨hheader, he⟩ := udcIntHndlr_done hdown hdown₁
      refine Or.inl ⟨hheader, List.forall_mem_cons.2 ⟨he, ?_⟩⟩
      cases es with
      | nil => exact nofun
      | cons e' es =>
        obtain ⟨s₂, hstep', -⟩ := Lts.run_cons hrun
        rw [hs₁] at hdown₁
        exact absurd ((step_eq_some.1 hstep').1.symm.trans hdown₁) nofun
    | true =>
      obtain ⟨hheader, hes⟩ | ⟨before, s₀, e₀, payload, rfl, hbefore, hacc⟩ := ih hdown₁ hrun
      · by_cases hphase : s.bHeaderReceived = false ∨ e.enumDone = true
        · exact Or.inr ⟨[], s, e, es, rfl, rfl, ⟨hphase, by rw [hs₁]; exact hheader⟩, hes⟩
        · rw [not_or, Bool.not_eq_false, Bool.not_eq_true] at hphase
          exact Or.inl ⟨hphase.1, List.forall_mem_cons.2 ⟨hphase.2, hes⟩⟩
      · refine Or.inr ⟨e :: before, s₀, e₀, payload, rfl, ?_, hacc⟩
        rw [Lts.run, hstep]
        exact hbefore

/-- Every complete download has a last header. -/
theorem exists_lastHeader {mem : Mem w} {es : List UdcInt}
    (hrun : Lts.run (step pTBI) (startUsb mem) es = some s) (hdone : s.bDownLoading = false) :
    ∃ s₀ e payload, LastHeader pTBI mem es s₀ e payload := by
  obtain ⟨hheader, -⟩ | ⟨before, s₀, e, payload, hsplit, hbefore, hacc, hno⟩ :=
    exists_accepts rfl hrun hdone
  · cases hheader
  · exact ⟨s₀, e, payload, ⟨before, hsplit, hbefore⟩, hacc, hno⟩

/-! ## What is left in `g_fcs` -/

/-- The words received behind a header in the run `es`, whatever came of them. -/
def payloadWords (pTBI : BitVec w) : UsbState w → List UdcInt → List (BitVec 32)
  | _, [] => []
  | s, e :: es =>
    (if s.bHeaderReceived && !e.enumDone then (e.delivers.map Packet.words).getD [] else []) ++
      payloadWords pTBI (udcIntHndlr pTBI e s) es

theorem udcIntHndlr_fcs (e : UdcInt) (s : UsbState w) :
    (udcIntHndlr pTBI e s).fcs =
      (if s.bHeaderReceived && !e.enumDone then (e.delivers.map Packet.words).getD []
        else []).foldl igetFcs s.fcs := by
  rw [udcIntHndlr_eq]
  cases he : e.enumDone with
  | true =>
    cases hp : e.delivers with
    | none => simp [restart]
    | some p =>
      simp only [if_true, Bool.not_true, Bool.and_false, Bool.false_eq_true, if_false,
        List.foldl_nil]
      rw [intBulkout_of_header (s := restart s) rfl, (receiveHeader_kept pTBI p rfl).2]
      rfl
  | false =>
    cases hp : e.delivers with
    | none => simp
    | some p =>
      change (intBulkout pTBI p s).fcs = _
      cases hh : s.bHeaderReceived with
      | true =>
        rw [intBulkout_of_payload hh, (receivePayload_fields pTBI p s).2.2.1, readOutFifo, hh]
        rfl
      | false =>
        rw [intBulkout_of_header hh, (receiveHeader_kept pTBI p hh).2]
        rfl

/-- `g_fcs` is the CRC of every word received behind a header since the start. -/
theorem fcs_eq_payloadWords {es : List UdcInt} (hrun : Lts.run (step pTBI) s es = some s') :
    s'.fcs = (payloadWords pTBI s es).foldl igetFcs s.fcs := by
  induction es generalizing s with
  | nil =>
    obtain rfl : s = s' := Option.some.inj hrun
    rfl
  | cons e es ih =>
    obtain ⟨s₁, hstep, hrun⟩ := Lts.run_cons hrun
    obtain ⟨-, rfl⟩ := step_eq_some.1 hstep
    rw [ih hrun, payloadWords, List.foldl_append, udcIntHndlr_fcs]

/-- The CRC is stored last: at the end the header holds `g_fcs`, whatever the payload was. -/
theorem crc32_of_done (hw : 2 ^ 32 ≤ 2 ^ w) {es : List UdcInt} (hdown : s.bDownLoading = true)
    (hrun : Lts.run (step pTBI) s es = some s') (hdone : s'.bDownLoading = false) :
    SecondBootInfo.crc32 s'.mem pTBI = s'.fcs := by
  induction es generalizing s with
  | nil =>
    obtain rfl : s = s' := Option.some.inj hrun
    exact absurd (hdown.symm.trans hdone) nofun
  | cons e es ih =>
    obtain ⟨s₁, hstep, hrun⟩ := Lts.run_cons hrun
    cases hdown₁ : s₁.bDownLoading with
    | true => exact ih hdown₁ hrun
    | false =>
      obtain rfl : s₁ = s' := by
        cases es with
        | nil => exact Option.some.inj hrun
        | cons e' es =>
          obtain ⟨s₂, hstep', -⟩ := Lts.run_cons hrun
          exact absurd ((step_eq_some.1 hstep').1.symm.trans hdown₁) nofun
      obtain ⟨-, rfl⟩ := step_eq_some.1 hstep
      obtain ⟨hheader, he⟩ := udcIntHndlr_done hdown hdone
      cases hp : e.delivers with
      | none =>
        rw [udcIntHndlr_idle he hp] at hdone
        exact absurd (hdown.symm.trans hdone) nofun
      | some p =>
        obtain ⟨-, -, hfcs, hmem⟩ := receivePayload_fields pTBI p s
        rw [udcIntHndlr_packet he hp, intBulkout_of_payload hheader, hfcs, hmem]
        exact load32_write_leBytes _ _ _ (le_trans (by decide) hw)

/-- **The CRC of a download.** A complete download has a last header. If the packets of its
payload fit, the header ends up with the CRC of the image iff `g_fcs` was 0 when the header was
accepted. -/
theorem downloadCrc_iff {mode : OpMode} {pTBI : BitVec mode.width} {mem : Mem mode.width}
    {es : List UdcInt} {s : UsbState mode.width}
    (hrun : Lts.run (step pTBI) (startUsb mem) es = some s) (hdone : s.bDownLoading = false) :
    (∃ s₀ e payload, LastHeader pTBI mem es s₀ e payload) ∧
      ∀ s₀ e payload, LastHeader pTBI mem es s₀ e payload →
        Lts.Guarded (step pTBI) (FitsAt pTBI) (udcIntHndlr pTBI e s₀) payload →
          (CrcRight pTBI s ↔ s₀.fcs = 0) := by
  refine ⟨exists_lastHeader hrun hdone, fun s₀ e payload h hfits => ?_⟩
  obtain ⟨before, rfl, hbefore⟩ := h.split
  rw [Lts.run_append hbefore] at hrun
  obtain ⟨s₁, hstep, hrun⟩ := Lts.run_cons hrun
  obtain ⟨hdown, rfl⟩ := step_eq_some.1 hstep
  exact (h.accepts.receiving hdown).run OpMode.two_pow_le h.no_enum hrun hfits hdone

/-! ## A download that is begun twice -/

/-- The interrupt that delivers a packet. -/
def packetInt (p : Packet) : UdcInt where
  gintsts := 1 <<< 4
  dsts := 0
  grxstsp := 0x2 <<< 17 ||| BitVec.ofNat 32 p.count <<< 4 ||| 2
  fifo i := p.words.getD i 0

/-- An enumeration at high speed. -/
def enumInt : UdcInt := { gintsts := 1 <<< 13, dsts := 0, grxstsp := 0, fifo := fun _ => 0 }

def smallInts : List UdcInt := smallDownload.map packetInt

def smallStart : UsbState OpMode.aarch64.width := startUsb fun _ => 0

theorem smallInts_run :
    (Lts.run (step (0xFFFFD000 : BitVec OpMode.aarch64.width)) smallStart smallInts).isSome := by
  decide +kernel

/-- The header of `smallDownload`, accepted. -/
def smallAccepted : UsbState OpMode.aarch64.width :=
  udcIntHndlr 0xFFFFD000 (smallInts.headD enumInt) smallStart

theorem smallInts_lastHeader :
    LastHeader (0xFFFFD000 : BitVec OpMode.aarch64.width) (fun _ => 0) smallInts smallStart
      (smallInts.headD enumInt) smallInts.tail where
  split := ⟨[], rfl, rfl⟩
  accepts := ⟨Or.inl rfl, by decide +kernel⟩
  no_enum := by decide

theorem smallInts_fits :
    Lts.Guarded (step (0xFFFFD000 : BitVec OpMode.aarch64.width)) (FitsAt 0xFFFFD000)
      smallAccepted smallInts.tail := by
  have hsize : smallAccepted.iRxSize = 5 := by decide +kernel
  have haddr : smallAccepted.rxBuffAddr = 0x43C00000 := by decide +kernel
  refine fun s' _ => ⟨fun p hp => ?_, trivial⟩
  obtain rfl := Option.some.inj hp
  refine ⟨by rw [hsize]; decide, Or.inr ?_, fun a ha => ?_⟩
  · rw [hsize]
    decide
  · rw [haddr] at ha
    have hout : ∀ k < 8, 8 ≤ offset (0xFFFFD044 : BitVec OpMode.aarch64.width)
        (0x43C00000 + BitVec.ofNat _ k) ∧
        4 ≤ offset (0xFFFFD058 : BitVec OpMode.aarch64.width) (0x43C00000 + BitVec.ofNat _ k) := by
      decide
    rw [← add_offset 0x43C00000 a]
    obtain ⟨hfields, hcrc⟩ := hout _ ha
    exact ⟨Nat.not_lt.2 hfields, Nat.not_lt.2 hcrc⟩

theorem smallInts_crcRight :
    CrcRight (0xFFFFD000 : BitVec OpMode.aarch64.width)
      ((Lts.run (step 0xFFFFD000) smallStart smallInts).get smallInts_run) :=
  ((downloadCrc_iff (Option.some_get smallInts_run).symm (by decide +kernel)).2 _ _ _
    smallInts_lastHeader smallInts_fits).2 rfl

/-- The first word of the image. -/
def firstWord : Packet where
  count := 4
  words := [0x04030201]
  count_pos := by decide
  count_le := by decide
  length_words := rfl

/-- The header and a part of the image, an enumeration, and the whole download again. -/
def restartedInts : List UdcInt :=
  (smallDownload.take 1).map packetInt ++ [packetInt firstWord, enumInt] ++ smallInts

/-- The second download is complete, and the CRC in its header is wrong. -/
theorem restarted_not_crcRight :
    ∃ s, Lts.run (step (0xFFFFD000 : BitVec OpMode.aarch64.width)) smallStart restartedInts =
        some s ∧ s.bDownLoading = false ∧ ¬ CrcRight 0xFFFFD000 s := by
  have hrun : ((Lts.run (step (0xFFFFD000 : BitVec OpMode.aarch64.width)) smallStart
      restartedInts).any fun s => !s.bDownLoading && !decide (CrcRight 0xFFFFD000 s)) = true := by
    decide +kernel
  obtain ⟨s, hs, h⟩ := (Option.any_eq_true _ _).1 hrun
  rw [Bool.and_eq_true, Bool.not_eq_true', Bool.not_eq_true', decide_eq_false_iff_not] at h
  exact ⟨s, hs, h.1, h.2⟩

end Gec6818Bl1.Usb
