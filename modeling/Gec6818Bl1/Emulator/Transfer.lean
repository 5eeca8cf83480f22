import Gec6818Bl1.Emulator.Dwmmc

/-!
# What the emulator's controller does

The states that a guest can reach (`Ok`), and what a driver sees of the controller from there: which
interrupts are ever raised, what a write of `RINTSTS` clears and what it raises again, how the
words leave the FIFO, and what the commands of a read do to a card in the transfer state
(`execute_status`, `execute_read`).

The data is followed as the bytes that the FIFO has still to give (`rest`). They are all that
matters of it: `data` is cleared as its last word is read, and nothing is ever put in front.
-/

namespace Gec6818Bl1.Emulator

open ByteMem

namespace Dwmmc

/-! ## What stays true -/

/-- The interrupts the emulator raises. -/
def IrqBits (r : ℕ) : Prop :=
  ∀ i, r.testBit i = true → i = 2 ∨ i = 3 ∨ i = 5 ∨ i = 8 ∨ i = 14

theorem testBit_one_shiftLeft (k i : ℕ) : (1 <<< k).testBit i = decide (k = i) := by
  rw [Nat.one_shiftLeft, Nat.testBit_two_pow]

theorem irqBits_bit {k : ℕ} (h : k = 2 ∨ k = 3 ∨ k = 5 ∨ k = 8 ∨ k = 14) : IrqBits (1 <<< k) := by
  intro i hi
  rw [testBit_one_shiftLeft, decide_eq_true_eq] at hi
  rwa [← hi]

theorem IrqBits.lor {r r' : ℕ} (h : IrqBits r) (h' : IrqBits r') : IrqBits (r ||| r') := by
  intro i hi
  rw [Nat.testBit_or, Bool.or_eq_true] at hi
  obtain hi | hi := hi
  · exact h i hi
  · exact h' i hi

theorem IrqBits.ldiff {r : ℕ} (h : IrqBits r) (val : ℕ) : IrqBits (r.ldiff val) := by
  intro i hi
  rw [Nat.testBit_ldiff, Bool.and_eq_true] at hi
  exact h i hi.1

theorem IrqBits.not_raised {r : ℕ} (h : IrqBits r) {i : ℕ}
    (hi : ¬(i = 2 ∨ i = 3 ∨ i = 5 ∨ i = 8 ∨ i = 14)) : r.testBit i = false :=
  Bool.eq_false_iff.2 fun hr => hi (h i hr)

theorem irqBits_CD : IrqBits CD := irqBits_bit (by decide)
theorem irqBits_DTO : IrqBits DTO := irqBits_bit (by decide)
theorem irqBits_RXDR : IrqBits RXDR := irqBits_bit (by decide)
theorem irqBits_RTO : IrqBits RTO := irqBits_bit (by decide)
theorem irqBits_ACD : IrqBits ACD := irqBits_bit (by decide)

/-- The interrupts that the FIFO raises. -/
def dataIrqs (data : List Byte) (pos : ℕ) : ℕ :=
  (if (data.length - pos) / 4 > 0 then RXDR else 0) |||
    (if data ≠ [] ∧ (data.length - pos) / 4 ≤ fifoWords then DTO else 0)

theorem irqBits_dataIrqs (data : List Byte) (pos : ℕ) : IrqBits (dataIrqs data pos) := by
  have hzero : IrqBits 0 := by
    intro i hi
    rw [Nat.zero_testBit] at hi
    cases hi
  refine IrqBits.lor ?_ ?_
  · split_ifs
    exacts [irqBits_RXDR, hzero]
  · split_ifs
    exacts [irqBits_DTO, hzero]

theorem raise_if (s : Dwmmc) (p : Prop) [Decidable p] (irq : ℕ) :
    (if p then { s with rintsts := s.rintsts ||| irq } else s) =
      { s with rintsts := s.rintsts ||| if p then irq else 0 } := by
  split_ifs
  · rfl
  · rw [Nat.or_zero]

theorem updateDataIrqs_eq (s : Dwmmc) :
    s.updateDataIrqs = { s with rintsts := s.rintsts ||| dataIrqs s.data s.pos } := by
  rw [updateDataIrqs, raise_if, raise_if]
  simp only [Nat.or_assoc]
  rfl

/-- An invariant of every state a guest brings the controller to. -/
structure Ok (image : List Byte) (s : Dwmmc) : Prop where
  bits : IrqBits s.rintsts
  image : ∀ card, s.card = some card → card.image = image

variable {image : List Byte} {s s' : Dwmmc}

theorem ite_image {image : List Byte} {p : Prop} [Decidable p]
    {x y : Option (List ℕ) × Option CardData × SDCard} (hx : x.2.2.image = image)
    (hy : y.2.2.image = image) : (if p then x else y).2.2.image = image := by
  split_ifs
  exacts [hx, hy]

/-- No command changes the image. -/
theorem command_image (card : SDCard) (idx arg : ℕ) :
    (card.command idx arg).2.2.image = card.image := by
  rw [SDCard.command]
  refine ite_image ?_ ?_
  · show (if card.state = 0 then _ else _ : SDCard).image = card.image
    split_ifs <;> rfl
  · repeat' first | refine ite_image ?_ ?_ | rfl

theorem idmac_eq {data : List Byte} (h : s.idmac data = some s') :
    s'.card = s.card ∧ s'.rintsts = s.rintsts ||| DTO := by
  obtain ⟨ram, -, hs'⟩ := Option.bind_eq_some_iff.1 h
  obtain rfl := Option.some.inj hs'
  exact ⟨rfl, rfl⟩

theorem Ok.deliver {data : List Byte} (hs : Ok image s) (h : s.deliver data = some s') :
    Ok image s' := by
  rw [Dwmmc.deliver] at h
  split_ifs at h with hdma
  · obtain ⟨hcard, hrintsts⟩ := idmac_eq h
    refine ⟨?_, ?_⟩
    · rw [hrintsts]
      exact hs.bits.lor irqBits_DTO
    · rw [hcard]
      exact hs.image
  · obtain rfl := Option.some.inj h
    rw [updateDataIrqs_eq]
    exact ⟨hs.bits.lor (irqBits_dataIrqs _ _), hs.image⟩

theorem Ok.execute {cmd : ℕ} (hs : Ok image s) (h : s.execute cmd = some s') : Ok image s' := by
  by_cases hclock : cmd.testBit 21 = true
  · rw [Dwmmc.execute, if_pos hclock] at h
    obtain rfl := Option.some.inj h
    exact hs
  rw [Dwmmc.execute, if_neg hclock] at h
  cases hcard : s.card with
  | none =>
    simp only [hcard] at h
    obtain rfl := Option.some.inj h
    exact ⟨hs.bits.lor (irqBits_CD.lor irqBits_RTO), fun card hc => by cases hc⟩
  | some card =>
    have himage := hs.image card hcard
    simp only [hcard] at h
    have hcommand := command_image card (cmd &&& 0x3F) ((s.regs rCmdarg).getD 0)
    rcases hres : card.command (cmd &&& 0x3F) ((s.regs rCmdarg).getD 0) with
      ⟨_ | resp, _ | _ | _, card'⟩ <;> simp only [hres] at h hcommand
    case none.none | none.some.bytes | none.some.read =>
      obtain rfl := Option.some.inj h
      refine ⟨hs.bits.lor (irqBits_CD.lor irqBits_RTO), fun c hc => ?_⟩
      obtain rfl := Option.some.inj hc
      rw [hcommand, himage]
    case some.none =>
      obtain rfl := Option.some.inj h
      refine ⟨hs.bits.lor irqBits_CD, fun c hc => ?_⟩
      obtain rfl := Option.some.inj hc
      rw [hcommand, himage]
    case some.some.bytes bs =>
      refine Ok.deliver ⟨hs.bits.lor irqBits_CD, fun c hc => ?_⟩ h
      obtain rfl := Option.some.inj hc
      rw [hcommand, himage]
    case some.some.read =>
      refine Ok.deliver ⟨?_, fun c hc => ?_⟩ h
      · show IrqBits (if _ then _ else _)
        split_ifs
        · exact (hs.bits.lor irqBits_CD).lor irqBits_ACD
        · exact hs.bits.lor irqBits_CD
      · obtain rfl := Option.some.inj hc
        exact hcommand.trans himage

theorem Ok.step {a : GuestAction} (hs : Ok image s) (h : s.step a = some s') : Ok image s' := by
  cases a with
  | read off =>
    obtain rfl := Option.some.inj h
    simp only [Dwmmc.read, popData]
    split_ifs <;> exact ⟨hs.bits, hs.image⟩
  | compute ram =>
    obtain rfl := Option.some.inj h
    exact ⟨hs.bits, hs.image⟩
  | write off val =>
    rw [Dwmmc.step, write] at h
    split_ifs at h
    · obtain rfl := Option.some.inj h
      rw [updateDataIrqs_eq]
      exact ⟨(hs.bits.ldiff val).lor (irqBits_dataIrqs _ _), hs.image⟩
    · obtain rfl := Option.some.inj h
      simp only [writeCtrl]
      split_ifs <;> exact ⟨hs.bits, hs.image⟩
    · obtain rfl := Option.some.inj h
      exact hs
    · rw [writeCmd] at h
      split_ifs at h
      · refine Ok.execute ⟨?_, ?_⟩ h
        exacts [hs.bits, hs.image]
      · obtain rfl := Option.some.inj h
        exact ⟨hs.bits, hs.image⟩
    · obtain rfl := Option.some.inj h
      exact ⟨hs.bits, hs.image⟩

theorem Reachable.ok (h : Reachable image s) : Ok image s := by
  obtain ⟨ram, as, hrun⟩ := h
  refine Lts.run_invariant (fun _ _ _ hs hstep => Ok.step hs hstep) ⟨fun i hi => ?_, ?_⟩ hrun
  · rw [init, Nat.zero_testBit] at hi
    cases hi
  · intro card hcard
    obtain rfl := Option.some.inj hcard
    rfl

/-! ## The FIFO -/

/-- The bytes that the FIFO has still to give. -/
def rest (s : Dwmmc) : List Byte := s.data.drop s.pos

theorem remaining_eq (s : Dwmmc) : s.remaining = s.rest.length / 4 := by
  rw [remaining, rest, List.length_drop]

/-- Reading data leaves the card, the registers and the auto-stop bit alone. -/
structure Keeps (s s' : Dwmmc) : Prop where
  card : s'.card = s.card
  regs : s'.regs = s.regs
  acd : s'.rintsts.testBit 14 = s.rintsts.testBit 14

theorem Keeps.refl (s : Dwmmc) : Keeps s s := ⟨rfl, rfl, rfl⟩

theorem Keeps.trans {s₀ : Dwmmc} (h : Keeps s₀ s) (h' : Keeps s s') : Keeps s₀ s' :=
  ⟨h'.card.trans h.card, h'.regs.trans h.regs, h'.acd.trans h.acd⟩

/-- A word read from the FIFO is no longer in it. -/
theorem popData_rest (h : 4 ≤ s.rest.length) (hdvd : 4 ∣ s.rest.length) :
    leBytes (BitVec.ofNat 32 s.popData.1) ++ s.popData.2.rest = s.rest := by
  rw [rest, List.length_drop] at h hdvd
  have hle : s.pos + 4 ≤ s.data.length := by omega
  have hword : leBytes (BitVec.ofNat 32 (wordAt s.data s.pos).toNat) ++ s.data.drop (s.pos + 4) =
      s.rest := by
    rw [BitVec.ofNat_toNat, BitVec.setWidth_eq]
    exact leBytes_wordAt_append hle
  rw [popData, if_neg (Nat.not_lt.2 hle)]
  by_cases hlast : (s.data.length - (s.pos + 4)) / 4 = 0
  · -- the last word: the FIFO is cleared
    have hnil : s.data.drop (s.pos + 4) = [] := List.drop_eq_nil_of_le (by omega)
    rw [hnil] at hword
    show _ ++ rest (if (s.data.length - (s.pos + 4)) / 4 = 0 then _ else _) = _
    rw [if_pos hlast]
    exact hword
  · show _ ++ rest (if (s.data.length - (s.pos + 4)) / 4 = 0 then _ else _) = _
    rw [if_neg hlast]
    exact hword

theorem popData_keeps (s : Dwmmc) : Keeps s s.popData.2 := by
  simp only [popData]
  split_ifs <;> exact ⟨rfl, rfl, rfl⟩

theorem popData_rintsts (s : Dwmmc) : s.popData.2.rintsts = s.rintsts := by
  simp only [popData]
  split_ifs <;> rfl

/-- A write of `RINTSTS`: what is acknowledged and still the case is raised again. -/
def ack (s : Dwmmc) (val : ℕ) : Dwmmc := { s with rintsts := s.rintsts.ldiff val }.updateDataIrqs

theorem ack_eq (s : Dwmmc) (val : ℕ) :
    s.ack val = { s with rintsts := s.rintsts.ldiff val ||| dataIrqs s.data s.pos } :=
  updateDataIrqs_eq _

theorem dataIrqs_testBit (s : Dwmmc) {i : ℕ} (h3 : i ≠ 3) :
    (dataIrqs s.data s.pos).testBit i = (decide (i = 5) && decide (4 ≤ s.rest.length)) := by
  have hrest : (s.data.length - s.pos) / 4 > 0 ↔ 4 ≤ s.rest.length := by
    rw [rest, List.length_drop]
    omega
  have hdto (p : Prop) [Decidable p] : (if p then DTO else 0).testBit i = false := by
    split_ifs
    · rw [DTO, testBit_one_shiftLeft]
      exact decide_eq_false (Ne.symm h3)
    · exact Nat.zero_testBit i
  rw [dataIrqs, Nat.testBit_or, hdto, Bool.or_false]
  by_cases hr : 4 ≤ s.rest.length
  · rw [if_pos (hrest.2 hr), RXDR, testBit_one_shiftLeft, decide_eq_true hr, Bool.and_true,
      decide_eq_decide]
    exact eq_comm
  · rw [if_neg (fun h => hr (hrest.1 h)), Nat.zero_testBit, decide_eq_false hr, Bool.and_false]

theorem ack_rest (s : Dwmmc) (val : ℕ) : (s.ack val).rest = s.rest := by
  rw [ack_eq]
  rfl

theorem IrqBits.ack (h : IrqBits s.rintsts) (val : ℕ) : IrqBits (s.ack val).rintsts := by
  rw [ack_eq]
  exact (h.ldiff val).lor (irqBits_dataIrqs _ _)

theorem ack_card (s : Dwmmc) (val : ℕ) : (s.ack val).card = s.card := by
  rw [ack_eq]

theorem ack_regs (s : Dwmmc) (val : ℕ) : (s.ack val).regs = s.regs := by
  rw [ack_eq]

theorem ack_ram (s : Dwmmc) (val : ℕ) : (s.ack val).ram = s.ram := by
  rw [ack_eq]

theorem ack_testBit (s : Dwmmc) (val : ℕ) {i : ℕ} (h3 : i ≠ 3) :
    (s.ack val).rintsts.testBit i =
      ((s.rintsts.testBit i && !val.testBit i) ||
        (decide (i = 5) && decide (4 ≤ s.rest.length))) := by
  rw [ack_eq, ← dataIrqs_testBit s h3, ← Nat.testBit_ldiff, ← Nat.testBit_or]

theorem ack_keeps (s : Dwmmc) {val : ℕ} (hacd : val.testBit 14 = false) : Keeps s (s.ack val) := by
  refine ⟨ack_card s val, ack_regs s val, ?_⟩
  rw [ack_testBit s val (by decide), hacd]
  exact Bool.or_false _ |>.trans (Bool.and_true _)

/-- While there is a word in the FIFO, no write clears `RXDR`. -/
theorem ack_rxdr (h : 4 ≤ s.rest.length) (val : ℕ) : (s.ack val).rintsts.testBit 5 = true := by
  rw [ack_testBit s val (by decide), decide_eq_true h]
  exact Bool.or_true _

/-! ## A card in the transfer state -/

/-- The card with this image is in the transfer state. -/
def Holds (image : List Byte) (s : Dwmmc) : Prop :=
  ∃ card, s.card = some card ∧ card.state = 4 ∧ card.image = image

/-- It is, and the data of commands goes to the FIFO. -/
structure Idle (image : List Byte) (s : Dwmmc) : Prop where
  bits : IrqBits s.rintsts
  holds : Holds image s
  dma : s.dmaEnabled = false

theorem Reachable.idle (h : Reachable image s) (htransfer : s.inTransfer)
    (hdma : s.dmaEnabled = false) : Idle image s := by
  obtain ⟨card, hcard, hstate⟩ := htransfer
  exact ⟨h.ok.bits, ⟨card, hcard, hstate, h.ok.image card hcard⟩, hdma⟩

theorem dmaEnabled_congr (hctrl : s'.regs rCtrl = s.regs rCtrl)
    (hbmod : s'.regs rBmod = s.regs rBmod) : s'.dmaEnabled = s.dmaEnabled := by
  rw [dmaEnabled, dmaEnabled, hctrl, hbmod]

theorem Idle.keeps (h : Idle image s) (hkeeps : Keeps s s') (hbits : IrqBits s'.rintsts) :
    Idle image s' := by
  refine ⟨hbits, ?_, ?_⟩
  · rw [Holds, hkeeps.card]
    exact h.holds
  · rw [dmaEnabled, hkeeps.regs]
    exact h.dma

/-- What every command leaves that the card answers from the transfer state: the response `R1`
and `CD`. -/
structure Answered (image : List Byte) (s s' : Dwmmc) : Prop where
  holds : Holds image s'
  resp0 : s'.regs rResp0 = some 0x900
  regs : ∀ off, off ≠ rResp0 → off ≠ rIdsts → s'.regs off = s.regs off
  cd : s'.rintsts.testBit 2 = true
  rto : s'.rintsts.testBit 8 = s.rintsts.testBit 8
  bits : IrqBits s'.rintsts

theorem Answered.dmaEnabled (h : Answered image s s') : s'.dmaEnabled = s.dmaEnabled :=
  dmaEnabled_congr (h.regs _ (by decide) (by decide)) (h.regs _ (by decide) (by decide))

theorem Answered.idle (h : Answered image s s') (hs : Idle image s) : Idle image s' :=
  ⟨h.bits, h.holds, h.dmaEnabled.trans hs.dma⟩

/-- It stays so when the FIFO takes the data of the command. -/
theorem Answered.deliver (h : Answered image s s') (hdma : s.dmaEnabled = false)
    (data : List Byte) :
    ∃ s'', s'.deliver data = some s'' ∧ Answered image s s'' ∧ s''.rest = data ∧
      (4 ≤ data.length → s''.rintsts.testBit 5 = true) ∧
      s''.rintsts.testBit 14 = s'.rintsts.testBit 14 := by
  have hdma' : s'.dmaEnabled = false := h.dmaEnabled.trans hdma
  have hbit {i : ℕ} (hi : i ≠ 3) : (s'.rintsts ||| dataIrqs data 0).testBit i =
      (s'.rintsts.testBit i || (decide (i = 5) && decide (4 ≤ data.length))) := by
    rw [Nat.testBit_or, dataIrqs_testBit { s' with data, pos := 0 } hi]
    rfl
  refine ⟨{ s' with data, pos := 0, rintsts := s'.rintsts ||| dataIrqs data 0 }, ?_,
    ⟨h.holds, h.resp0, h.regs, ?_, ?_, h.bits.lor (irqBits_dataIrqs _ _)⟩, rfl, fun hdata => ?_, ?_⟩
  · rw [Dwmmc.deliver, hdma', updateDataIrqs_eq]
    rfl
  · exact (hbit (by decide)).trans (by rw [h.cd, Bool.true_or])
  · exact (hbit (by decide)).trans (by rw [h.rto]; exact Bool.or_false _)
  · exact (hbit (by decide)).trans (by rw [decide_eq_true hdata]; exact Bool.or_true _)
  · exact (hbit (by decide)).trans (Bool.or_false _)

theorem command_status {card : SDCard} (hstate : card.state = 4) (arg : ℕ) :
    card.command 13 arg =
      (some [0x900], if card.app then some (.bytes (List.replicate 64 0)) else none,
        { card with app := false }) := by
  cases happ : card.app with
  | false => simp [SDCard.command, SDCard.r1, happ, hstate]
  | true => simp [SDCard.command, SDCard.r1, happ, hstate]

theorem command_read {card : SDCard} (hstate : card.state = 4) {idx : ℕ}
    (hidx : idx = 17 ∨ idx = 18) (arg : ℕ) :
    card.command idx arg = (some [0x900], some .read, { card with app := false }) := by
  obtain rfl | rfl := hidx <;> simp [SDCard.command, SDCard.r1, hstate]

theorem answered {card : SDCard} (hs : IrqBits s.rintsts) (hstate : card.state = 4)
    (himage : card.image = image) :
    Answered image s { s with
      card := some { card with app := false }
      regs := storeResp s.regs 0 [0x900]
      rintsts := s.rintsts ||| CD } where
  holds := ⟨_, rfl, hstate, himage⟩
  resp0 := by
    show Function.update s.regs rResp0 (some 0x900) rResp0 = some 0x900
    rw [Function.update_self]
  regs off hoff _ := by
    show Function.update s.regs rResp0 (some 0x900) off = s.regs off
    rw [Function.update_of_ne hoff]
  cd := by
    rw [Nat.testBit_or, CD, testBit_one_shiftLeft]
    exact Bool.or_true _
  rto := by
    rw [Nat.testBit_or, CD, testBit_one_shiftLeft]
    exact Bool.or_false _
  bits := hs.lor irqBits_CD

/-- `SEND_STATUS`, and the `SD_STATUS` it is taken for after an `APP_CMD`. -/
theorem execute_status (hs : Idle image s) {cmd : ℕ} (hclock : ¬cmd.testBit 21 = true)
    (hidx : cmd &&& 0x3F = 13) : ∃ s', s.execute cmd = some s' ∧ Answered image s s' := by
  obtain ⟨card, hcard, hstate, himage⟩ := hs.holds
  have hanswered := answered hs.bits hstate himage
  cases happ : card.app with
  | false =>
    refine ⟨_, ?_, hanswered⟩
    rw [execute, if_neg hclock]
    simp only [hcard, hidx, command_status hstate, happ]
    rfl
  | true =>
    obtain ⟨s', hs', h, -⟩ := hanswered.deliver hs.dma (List.replicate 64 0)
    refine ⟨s', ?_, h⟩
    rw [execute, if_neg hclock]
    simp only [hcard, hidx, command_status hstate, happ]
    exact hs'

/-- The bytes that the card reads from its image. -/
theorem read_eq (card : SDCard) (offset length : ℕ) :
    card.read offset length =
      (List.range length).map fun i => card.image.getD (offset + i) 0 := by
  have hle : ((card.image.drop offset).take length).length ≤ length := List.length_take_le _ _
  refine List.ext_getElem ?_ fun i hi hi' => ?_
  · rw [SDCard.read, List.length_rightpad, Nat.max_eq_left hle, List.length_map, List.length_range]
  · rw [List.getElem_map, List.getElem_range]
    rw [List.length_map, List.length_range] at hi'
    simp only [SDCard.read, List.rightpad, List.getD_eq_getElem?_getD]
    by_cases hin : offset + i < card.image.length
    · have hlt : i < ((card.image.drop offset).take length).length := by
        rw [List.length_take, List.length_drop]
        omega
      rw [List.getElem?_eq_getElem hin, List.getElem_append_left hlt, List.getElem_take,
        List.getElem_drop, Option.getD_some]
    · have hge : ((card.image.drop offset).take length).length ≤ i := by
        rw [List.length_take, List.length_drop]
        omega
      rw [List.getElem?_eq_none (Nat.le_of_not_lt hin), List.getElem_append_right hge,
        List.getElem_replicate, Option.getD_none]

/-- A read raises the auto-stop bit with `CD`, if it is to stop by itself. -/
theorem answered_read {card : SDCard} (hs : IrqBits s.rintsts) (hstate : card.state = 4)
    (himage : card.image = image) (cmd : ℕ) :
    Answered image s { s with
      card := some { card with state := 4, app := false }
      regs := storeResp s.regs 0 [0x900]
      rintsts := if cmd.testBit 12 then s.rintsts ||| CD ||| ACD else s.rintsts ||| CD } := by
  have hanswered := answered hs hstate himage
  have hbit {i : ℕ} (hi : i ≠ 14) :
      (if cmd.testBit 12 then s.rintsts ||| CD ||| ACD else s.rintsts ||| CD).testBit i =
        (s.rintsts ||| CD).testBit i := by
    split_ifs
    · rw [Nat.testBit_or, ACD, testBit_one_shiftLeft, decide_eq_false hi.symm, Bool.or_false]
    · rfl
  refine ⟨⟨_, rfl, rfl, himage⟩, hanswered.resp0, hanswered.regs, (hbit (by decide)).trans
    hanswered.cd, (hbit (by decide)).trans hanswered.rto, ?_⟩
  show IrqBits (if _ then _ else _)
  split_ifs
  exacts [hanswered.bits.lor irqBits_ACD, hanswered.bits]

/-- A read command fills the FIFO from the image. -/
theorem execute_read (hs : Idle image s) {cmd : ℕ} (hclock : ¬cmd.testBit 21 = true)
    (hidx : cmd &&& 0x3F = 17 ∨ cmd &&& 0x3F = 18) {arg length : ℕ}
    (harg : s.regs rCmdarg = some arg) (hlength : s.regs rBytcnt = some length) :
    ∃ s', s.execute cmd = some s' ∧ Answered image s s' ∧
      s'.rest = (List.range length).map (fun i => image.getD (arg * 512 + i) 0) ∧
      (4 ≤ length → s'.rintsts.testBit 5 = true) ∧
      (cmd.testBit 12 = true → s'.rintsts.testBit 14 = true) := by
  obtain ⟨card, hcard, hstate, himage⟩ := hs.holds
  have hanswered := answered_read hs.bits hstate himage cmd
  obtain ⟨s', hs', h, hrest, hrxdr, hacd⟩ := hanswered.deliver hs.dma (card.read (arg * 512) length)
  refine ⟨s', ?_, h, ?_, ?_, ?_⟩
  · rw [execute, if_neg hclock]
    have hbytcnt : storeResp s.regs 0 [0x900] rBytcnt = some length := hlength
    simp only [hcard, command_read hstate hidx, harg, Option.getD_some, hbytcnt]
    exact hs'
  · rw [hrest, read_eq, himage]
  · intro hlen
    refine hrxdr ?_
    rwa [read_eq, List.length_map, List.length_range]
  · intro hauto
    rw [hacd]
    show (if cmd.testBit 12 then _ else _ : ℕ).testBit 14 = true
    rw [if_pos hauto, Nat.testBit_or, ACD, testBit_one_shiftLeft]
    exact Bool.or_true _

end Dwmmc

end Gec6818Bl1.Emulator
