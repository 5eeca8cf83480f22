import Gec6818Bl1.Sdmmc.Driver

/-!
# What `NX_SDMMC_ReadSectorData` stores

Against a controller that may answer anything, the loop stores what it pops, in order and at
consecutive addresses (`Filled`), and `count` is what is still owed, modulo `2 ^ 32`. It does not
follow that `CTRUE` means a whole transfer, or that no more than `numberOfSector * 512` bytes are
stored:

* the FIFO may report more words than are owed, and all of them are popped and stored;
* when the FIFO fills up at the very poll that finds `Timeout` at `0`, the loop is left as if the
  data were complete;
* from `2 ^ 23` sectors on `count` is `0` with bytes still owed.

**Exact transfers.** `ReadsExactly`, that `CTRUE` is returned for whole transfers only and nothing
is stored beyond them, holds iff none of the three happens in an iteration the loop comes to
(`readsExactly_iff`).
-/

namespace Gec6818Bl1.Sdmmc

open ByteMem Polling

variable {σ : Type*} {bus : SdxcBus σ} {w : ℕ}

/-! ## What is popped is stored -/

/-- The next `k` words of the FIFO. -/
def fifoWords (bus : SdxcBus σ) : ℕ → σ → List U32
  | 0, _ => []
  | k + 1, dev => (bus.read Reg.data dev).1 :: fifoWords bus k (bus.read Reg.data dev).2

def afterPops (bus : SdxcBus σ) : ℕ → σ → σ
  | 0, dev => dev
  | k + 1, dev => afterPops bus k (bus.read Reg.data dev).2

@[simp] theorem length_fifoWords (k : ℕ) (dev : σ) : (fifoWords bus k dev).length = k := by
  induction k generalizing dev with
  | zero => rfl
  | succ k ih => rw [fifoWords, List.length_cons, ih]

theorem popFifo_eq (k : ℕ) (s : ReadState w σ) :
    popFifo bus k s =
      { s with
        pdwBuffer := s.pdwBuffer + BitVec.ofNat w (4 * k)
        mem := s.mem.storeWords s.pdwBuffer (fifoWords bus k s.dev)
        popped := s.popped ++ fifoWords bus k s.dev
        dev := afterPops bus k s.dev } := by
  induction k generalizing s with
  | zero => simp [popFifo, fifoWords, afterPops, Traced.storeWords]
  | succ k ih =>
    simp only [popFifo, ih, fifoWords, afterPops, Traced.storeWords, ofNat_add, List.append_assoc,
      List.cons_append, List.nil_append, Nat.mul_succ, Nat.add_comm 4]

/-- Where a read that started at `pdwBuffer` with `mem` has come to. -/
structure Filled (numberOfSector : U32) (pdwBuffer : BitVec w) (mem : Traced w)
    (s : ReadState w σ) : Prop where
  count : s.count = numberOfSector * blockLength - BitVec.ofNat 32 (4 * s.popped.length)
  buffer : s.pdwBuffer = pdwBuffer + BitVec.ofNat w (4 * s.popped.length)
  mem : s.mem = mem.storeWords pdwBuffer s.popped

section Filled

variable {numberOfSector : U32} {pdwBuffer : BitVec w} {mem : Traced w} {s s' : ReadState w σ}

theorem startRead_filled (dev : σ) :
    Filled numberOfSector pdwBuffer mem (startRead numberOfSector pdwBuffer mem dev) where
  count := (BitVec.sub_zero _).symm
  buffer := (BitVec.add_zero _).symm
  mem := rfl

theorem Filled.dev (h : Filled numberOfSector pdwBuffer mem s) (dev : σ) :
    Filled numberOfSector pdwBuffer mem { s with dev } :=
  ⟨h.count, h.buffer, h.mem⟩

/-- `count` is what is still to come, modulo `2 ^ 32`. -/
theorem Filled.count_eq (h : Filled numberOfSector pdwBuffer mem s) {left : ℕ}
    (hleft : 4 * s.popped.length + left = numberOfSector.toNat * 512) :
    s.count = BitVec.ofNat 32 left := by
  rw [h.count, BitVec.sub_eq_iff_eq_add, ← BitVec.ofNat_add, Nat.add_comm, hleft,
    BitVec.ofNat_mul, BitVec.ofNat_toNat, BitVec.setWidth_eq]
  rfl

theorem Filled.readFifo (h : Filled numberOfSector pdwBuffer mem s) :
    Filled numberOfSector pdwBuffer mem (readFifo bus s) := by
  have hlen (xs : List U32) (size : U32) (hsize : xs.length = size.toNat) :
      BitVec.ofNat 32 (4 * (s.popped ++ xs).length) =
        BitVec.ofNat 32 (4 * s.popped.length) + size * 4 := by
    have hsize' : BitVec.ofNat 32 (4 * xs.length) = size * 4 := by
      rw [hsize, Nat.mul_comm, BitVec.ofNat_mul, BitVec.ofNat_toNat, BitVec.setWidth_eq]
      rfl
    rw [List.length_append, Nat.mul_add, BitVec.ofNat_add, hsize']
  simp only [Sdmmc.readFifo, popFifo_eq]
  constructor
  · simp only [hlen _ _ (length_fifoWords _ _), h.count]
    rw [BitVec.sub_sub]
  · simp only [h.buffer, ofNat_add, List.length_append, length_fifoWords, Nat.mul_add]
  · simp only [h.mem, h.buffer, Traced.storeWords_append]

end Filled

/-! ## One iteration -/

section Iteration

variable {nxDebug : Bool} {s s₁ : ReadState w σ}

theorem receive_of_not_ready (h : (dataReady bus s.dev).1 = false) :
    receive bus s = .inl { s with dev := (dataReady bus s.dev).2 } := by
  simp only [receive, h, Bool.not_false, if_true]

/-- Where the poll for a word in the FIFO ends. -/
def polled (bus : SdxcBus σ) (s : ReadState w σ) : U32 × σ :=
  pollFifo bus sdmmcTimeout (dataReady bus s.dev).2

theorem receive_of_late (h : (dataReady bus s.dev).1 = true) (hlate : (polled bus s).1 = 0) :
    receive bus s = .inr { s with dev := (polled bus s).2 } := by
  simp only [receive, h, Bool.not_true, Bool.false_eq_true, if_false]
  exact if_pos hlate

theorem receive_of_inTime (h : (dataReady bus s.dev).1 = true) (htime : (polled bus s).1 ≠ 0) :
    receive bus s = .inl (readFifo bus { s with dev := (polled bus s).2 }) := by
  simp only [receive, h, Bool.not_true, Bool.false_eq_true, if_false]
  exact if_neg htime

/-- The test of `count` under `DTO` is made. -/
def TestsDto (bus : SdxcBus σ) (s : ReadState w σ) : Prop :=
  (dataError bus s.dev).1 = false ∧
    (bus.read Reg.rintsts (dataError bus s.dev).2).1.getLsbD Rintsts.dto = true

/-- The checks change nothing but the controller's state, and leave with `CTRUE` only where
`count` is tested. -/
theorem checkRead_cases (bus : SdxcBus σ) (nxDebug : Bool) (s : ReadState w σ) :
    ∃ dev, checkRead bus nxDebug s = .inl { s with dev } ∨
      checkRead bus nxDebug s = .inr (false, { s with dev }) ∨
      (TestsDto bus s ∧ s.count = 0 ∧ checkRead bus nxDebug s = .inr (true, { s with dev })) := by
  simp only [checkRead, TestsDto]
  cases herr : (dataError bus s.dev).1 with
  | true => exact ⟨_, Or.inr (Or.inl (if_pos rfl))⟩
  | false =>
    rw [if_neg Bool.false_ne_true]
    split_ifs with h
    · exact ⟨_, Or.inr (Or.inr ⟨⟨rfl, h.1⟩, h.2, rfl⟩)⟩
    · exact ⟨_, Or.inl rfl⟩
    · exact ⟨_, Or.inl rfl⟩

theorem checkRead_of_testsDto (nxDebug : Bool) (h : TestsDto bus s) (hcount : s.count = 0) :
    ∃ dev, checkRead bus nxDebug s = .inr (true, { s with dev }) := by
  simp only [checkRead, h.1, Bool.false_eq_true, if_false]
  rw [if_pos ⟨h.2, hcount⟩]
  exact ⟨_, rfl⟩

theorem body_of_count_zero (h : s.count = 0) :
    readSectorBody bus nxDebug s = .inr (leaveRead bus s) :=
  if_pos h

theorem body_of_break (h : s.count ≠ 0) (hbreak : receive bus s = .inr s₁) :
    readSectorBody bus nxDebug s = .inr (leaveRead bus s₁) := by
  rw [readSectorBody, if_neg h, hbreak]

theorem body_of_receive (h : s.count ≠ 0) (hreceive : receive bus s = .inl s₁) :
    readSectorBody bus nxDebug s = checkRead bus nxDebug s₁ := by
  rw [readSectorBody, if_neg h, hreceive]

theorem Filled.receive {numberOfSector : U32} {pdwBuffer : BitVec w} {mem : Traced w}
    (h : Filled numberOfSector pdwBuffer mem s) (hreceive : receive bus s = .inl s₁) :
    Filled numberOfSector pdwBuffer mem s₁ := by
  cases hready : (dataReady bus s.dev).1 with
  | false =>
    rw [receive_of_not_ready hready] at hreceive
    obtain rfl := Sum.inl.inj hreceive
    exact h.dev _
  | true =>
    by_cases htime : (polled bus s).1 = 0
    · rw [receive_of_late hready htime] at hreceive
      cases hreceive
    · rw [receive_of_inTime hready htime] at hreceive
      obtain rfl := Sum.inl.inj hreceive
      exact (h.dev _).readFifo

theorem Filled.body {numberOfSector : U32} {pdwBuffer : BitVec w} {mem : Traced w}
    {s' : ReadState w σ} (h : Filled numberOfSector pdwBuffer mem s)
    (hbody : readSectorBody bus nxDebug s = .inl s') : Filled numberOfSector pdwBuffer mem s' := by
  by_cases hcount : s.count = 0
  · rw [body_of_count_zero hcount] at hbody
    cases hbody
  cases hreceive : Sdmmc.receive bus s with
  | inr s₁ =>
    rw [body_of_break hcount hreceive] at hbody
    cases hbody
  | inl s₁ =>
    rw [body_of_receive hcount hreceive] at hbody
    obtain ⟨dev, hc | hc | ⟨_, _, hc⟩⟩ := checkRead_cases bus nxDebug s₁ <;> rw [hc] at hbody
    · obtain rfl := Sum.inl.inj hbody
      exact (h.receive hreceive).dev dev
    · cases hbody
    · cases hbody

end Iteration

/-! ## Exact transfers -/

section Exact

variable (bus) (nxDebug : Bool) (numberOfSector : U32) (pdwBuffer : BitVec w) (mem : Mem w)
  (dev : σ)

/-- The state at the `k`-th test of `0 < count`. -/
def atTest (k : ℕ) : Option (ReadState w σ) :=
  reach (readSectorBody bus nxDebug) k (startRead numberOfSector pdwBuffer ⟨mem, []⟩ dev)

/-- `CTRUE` is returned for a whole transfer only, and no state of the loop or result of it has
more than `numberOfSector * 512` bytes stored. -/
structure ReadsExactly : Prop where
  never_more : ∀ k s, atTest bus nxDebug numberOfSector pdwBuffer mem dev k = some s →
    s.mem.stored ≤ numberOfSector.toNat * 512
  result_never_more : ∀ fuel result s,
    readSectorData bus nxDebug fuel numberOfSector pdwBuffer ⟨mem, []⟩ dev = some (result, s) →
      s.mem.stored ≤ numberOfSector.toNat * 512
  whole : ∀ fuel s,
    readSectorData bus nxDebug fuel numberOfSector pdwBuffer ⟨mem, []⟩ dev = some (true, s) →
      4 * s.popped.length = numberOfSector.toNat * 512 ∧
        s.mem = Traced.storeWords ⟨mem, []⟩ pdwBuffer s.popped

/-- The bytes still to come. -/
def owed (s : ReadState w σ) : ℕ := numberOfSector.toNat * 512 - s.mem.stored

/-- What an iteration needs of the controller, and of the number of sectors. -/
structure IterationOk (s : ReadState w σ) : Prop where
  no_wrap : 2 ^ 32 ∣ owed numberOfSector s → owed numberOfSector s = 0
  in_time : s.count ≠ 0 → (dataReady bus s.dev).1 = true → (polled bus s).1 ≠ 0
  fits : s.count ≠ 0 → (dataReady bus s.dev).1 = true →
    4 * (fifoSize bus (polled bus s).2).toNat ≤ owed numberOfSector s
  no_wrap_dto : s.count ≠ 0 → ∀ s₁, receive bus s = .inl s₁ → TestsDto bus s₁ →
    2 ^ 32 ∣ owed numberOfSector s₁ → owed numberOfSector s₁ = 0

variable {bus nxDebug numberOfSector pdwBuffer mem dev} {s s₁ : ReadState w σ}

theorem Filled.stored (h : Filled numberOfSector pdwBuffer ⟨mem, []⟩ s) :
    s.mem.stored = 4 * s.popped.length := by
  rw [h.mem, Traced.stored_storeWords, Traced.stored_nil, Nat.zero_add]

/-- As long as not too much was stored, `count` is `0` when what is owed is a multiple of
`2 ^ 32`. -/
theorem Filled.count_eq_zero_iff (h : Filled numberOfSector pdwBuffer ⟨mem, []⟩ s)
    (hle : s.mem.stored ≤ numberOfSector.toNat * 512) :
    s.count = 0 ↔ 2 ^ 32 ∣ owed numberOfSector s := by
  have hleft : 4 * s.popped.length + owed numberOfSector s = numberOfSector.toNat * 512 := by
    rw [owed, ← h.stored, Nat.add_sub_of_le hle]
  rw [h.count_eq hleft, ← BitVec.toNat_inj, BitVec.toNat_ofNat]
  exact (Nat.dvd_iff_mod_eq_zero ..).symm

theorem filled_of_atTest {k : ℕ}
    (h : atTest bus nxDebug numberOfSector pdwBuffer mem dev k = some s) :
    Filled numberOfSector pdwBuffer ⟨mem, []⟩ s :=
  reach_invariant (fun _ _ hs hbody => hs.body hbody) (startRead_filled dev) h

theorem stored_readFifo (s : ReadState w σ) :
    (readFifo bus s).mem.stored = s.mem.stored + 4 * (fifoSize bus s.dev).toNat := by
  simp only [readFifo, popFifo_eq, Traced.stored_storeWords, length_fifoWords]

/-- An iteration that is all right does not store too much. -/
theorem IterationOk.receive_le (hok : IterationOk bus numberOfSector s) (hcount : s.count ≠ 0)
    (hle : s.mem.stored ≤ numberOfSector.toNat * 512) (hreceive : receive bus s = .inl s₁) :
    s₁.mem.stored ≤ numberOfSector.toNat * 512 := by
  cases hready : (dataReady bus s.dev).1 with
  | false =>
    rw [receive_of_not_ready hready] at hreceive
    obtain rfl := Sum.inl.inj hreceive
    exact hle
  | true =>
    rw [receive_of_inTime hready (hok.in_time hcount hready)] at hreceive
    obtain rfl := Sum.inl.inj hreceive
    rw [stored_readFifo]
    exact (Nat.add_le_add_left (hok.fits hcount hready) _).trans (Nat.add_sub_of_le hle).le

theorem atTest_le (hok : ∀ k s, atTest bus nxDebug numberOfSector pdwBuffer mem dev k = some s →
    IterationOk bus numberOfSector s) {k : ℕ}
    (h : atTest bus nxDebug numberOfSector pdwBuffer mem dev k = some s) :
    s.mem.stored ≤ numberOfSector.toNat * 512 := by
  induction k generalizing s with
  | zero =>
    obtain rfl := Option.some.inj h
    exact Nat.zero_le _
  | succ k ih =>
    obtain ⟨s₀, hk, hbody⟩ := reach_pred h
    by_cases hcount : s₀.count = 0
    · rw [body_of_count_zero hcount] at hbody
      cases hbody
    cases hreceive : receive bus s₀ with
    | inr s₁ =>
      rw [body_of_break hcount hreceive] at hbody
      cases hbody
    | inl s₁ =>
      rw [body_of_receive hcount hreceive] at hbody
      have hle := (hok k s₀ hk).receive_le hcount (ih hk) hreceive
      obtain ⟨dev, hc | hc | ⟨_, _, hc⟩⟩ := checkRead_cases bus nxDebug s₁ <;> rw [hc] at hbody
      · obtain rfl := Sum.inl.inj hbody
        exact hle
      · cases hbody
      · cases hbody

/-- Whatever an iteration received was within bounds, as it shows when the iteration is over. -/
theorem ReadsExactly.receive_le
    (h : ReadsExactly bus nxDebug numberOfSector pdwBuffer mem dev) {k : ℕ}
    (hk : atTest bus nxDebug numberOfSector pdwBuffer mem dev k = some s) (hcount : s.count ≠ 0)
    (hreceive : receive bus s = .inl s₁) : s₁.mem.stored ≤ numberOfSector.toNat * 512 := by
  obtain ⟨dev', hc | hc | ⟨_, _, hc⟩⟩ := checkRead_cases bus nxDebug s₁ <;>
    rw [← body_of_receive hcount hreceive] at hc
  · have hle := h.never_more (k + 1) _ (reach_succ hk hc)
    exact hle
  · have hle := h.result_never_more (k + 1) _ _ (run_eq_some_of_reach hk hc)
    exact hle
  · have hle := h.result_never_more (k + 1) _ _ (run_eq_some_of_reach hk hc)
    exact hle

/-- `CTRUE` from a test the loop comes to: nothing is owed. -/
theorem ReadsExactly.owed_eq_zero
    (h : ReadsExactly bus nxDebug numberOfSector pdwBuffer mem dev) {k : ℕ}
    (hk : atTest bus nxDebug numberOfSector pdwBuffer mem dev k = some s)
    (hbody : readSectorBody bus nxDebug s = .inr (true, s₁)) : owed numberOfSector s₁ = 0 := by
  obtain ⟨hwhole, hmem⟩ := h.whole (k + 1) s₁ (run_eq_some_of_reach hk hbody)
  rw [owed, hmem, Traced.stored_storeWords, Traced.stored_nil, Nat.zero_add, hwhole, Nat.sub_self]

theorem ReadsExactly.not_late
    (h : ReadsExactly bus nxDebug numberOfSector pdwBuffer mem dev) {k : ℕ}
    (hk : atTest bus nxDebug numberOfSector pdwBuffer mem dev k = some s) (hcount : s.count ≠ 0)
    (hready : (dataReady bus s.dev).1 = true) : (polled bus s).1 ≠ 0 := by
  intro hlate
  have howed := h.owed_eq_zero hk (body_of_break hcount (receive_of_late hready hlate))
  refine hcount (((filled_of_atTest hk).count_eq_zero_iff (h.never_more k s hk)).2 ?_)
  change owed numberOfSector s = 0 at howed
  rw [howed]
  exact dvd_zero _

theorem ReadsExactly.iterationOk
    (h : ReadsExactly bus nxDebug numberOfSector pdwBuffer mem dev) {k : ℕ}
    (hk : atTest bus nxDebug numberOfSector pdwBuffer mem dev k = some s) :
    IterationOk bus numberOfSector s where
  no_wrap hdvd := by
    have hcount := ((filled_of_atTest hk).count_eq_zero_iff (h.never_more k s hk)).2 hdvd
    have howed := h.owed_eq_zero hk (body_of_count_zero hcount)
    exact howed
  in_time hcount hready hlate := h.not_late hk hcount hready hlate
  fits hcount hready := by
    have hle := h.receive_le hk hcount (receive_of_inTime hready (h.not_late hk hcount hready))
    rw [stored_readFifo] at hle
    exact Nat.le_sub_of_add_le' hle
  no_wrap_dto hcount s₁ hreceive hdto hdvd := by
    have hle := h.receive_le hk hcount hreceive
    have hcount₁ := (((filled_of_atTest hk).receive hreceive).count_eq_zero_iff hle).2 hdvd
    obtain ⟨dev', hc⟩ := checkRead_of_testsDto nxDebug hdto hcount₁
    rw [← body_of_receive hcount hreceive] at hc
    have howed := h.owed_eq_zero hk hc
    exact howed

/-- Where an all right iteration leaves the loop. -/
theorem IterationOk.leaves (hok : IterationOk bus numberOfSector s)
    (hfilled : Filled numberOfSector pdwBuffer ⟨mem, []⟩ s)
    (hle : s.mem.stored ≤ numberOfSector.toNat * 512) {result : Bool}
    (hbody : readSectorBody bus nxDebug s = .inr (result, s₁)) :
    Filled numberOfSector pdwBuffer ⟨mem, []⟩ s₁ ∧
      s₁.mem.stored ≤ numberOfSector.toNat * 512 ∧
      (result = true → owed numberOfSector s₁ = 0) := by
  by_cases hcount : s.count = 0
  · rw [body_of_count_zero hcount] at hbody
    obtain ⟨rfl, rfl⟩ := Prod.mk.inj (Sum.inr.inj hbody)
    exact ⟨hfilled.dev _, hle, fun _ => hok.no_wrap ((hfilled.count_eq_zero_iff hle).1 hcount)⟩
  cases hreceive : receive bus s with
  | inr s₂ =>
    -- the `break` is only taken when the poll was late
    cases hready : (dataReady bus s.dev).1 with
    | false =>
      rw [receive_of_not_ready hready] at hreceive
      cases hreceive
    | true =>
      rw [receive_of_inTime hready (hok.in_time hcount hready)] at hreceive
      cases hreceive
  | inl s₂ =>
    have hfilled₂ := hfilled.receive hreceive
    have hle₂ := hok.receive_le hcount hle hreceive
    rw [body_of_receive hcount hreceive] at hbody
    obtain ⟨dev', hc | hc | ⟨hdto, hcount₂, hc⟩⟩ := checkRead_cases bus nxDebug s₂ <;>
      rw [hc] at hbody
    · cases hbody
    · obtain ⟨rfl, rfl⟩ := Prod.mk.inj (Sum.inr.inj hbody)
      exact ⟨hfilled₂.dev dev', hle₂, fun h => absurd h Bool.false_ne_true⟩
    · obtain ⟨rfl, rfl⟩ := Prod.mk.inj (Sum.inr.inj hbody)
      refine ⟨hfilled₂.dev dev', hle₂, fun _ => ?_⟩
      exact hok.no_wrap_dto hcount s₂ hreceive hdto ((hfilled₂.count_eq_zero_iff hle₂).1 hcount₂)

theorem result_of_iterationOk
    (hok : ∀ k s, atTest bus nxDebug numberOfSector pdwBuffer mem dev k = some s →
      IterationOk bus numberOfSector s) {fuel : ℕ} {result : Bool}
    (h : readSectorData bus nxDebug fuel numberOfSector pdwBuffer ⟨mem, []⟩ dev =
      some (result, s₁)) :
    Filled numberOfSector pdwBuffer ⟨mem, []⟩ s₁ ∧
      s₁.mem.stored ≤ numberOfSector.toNat * 512 ∧
      (result = true → owed numberOfSector s₁ = 0) := by
  obtain ⟨k, s, hk, hbody⟩ := run_eq_some_iff.1 ⟨fuel, h⟩
  exact (hok k s hk).leaves (filled_of_atTest hk) (atTest_le hok hk) hbody

/-- **Exact transfers.** `NX_SDMMC_ReadSectorData` transfers exactly, against this controller and
for this number of sectors, iff every iteration it comes to is all right. -/
theorem readsExactly_iff :
    ReadsExactly bus nxDebug numberOfSector pdwBuffer mem dev ↔
      ∀ k s, atTest bus nxDebug numberOfSector pdwBuffer mem dev k = some s →
        IterationOk bus numberOfSector s := by
  constructor
  · intro h k s hk
    exact h.iterationOk hk
  · intro hok
    refine ⟨fun k s hk => atTest_le hok hk, fun fuel result s h => ?_, fun fuel s h => ?_⟩
    · exact (result_of_iterationOk hok h).2.1
    · obtain ⟨hfilled, hle, howed⟩ := result_of_iterationOk hok h
      refine ⟨?_, hfilled.mem⟩
      rw [← hfilled.stored]
      exact Nat.le_antisymm hle (Nat.le_of_sub_eq_zero (howed rfl))

end Exact

/-! ## Transfers that are not exact -/

/-- `RXDR` is set and the FIFO holds `fill polls` words at the poll of this number; its words are
all `0`. -/
def fillingBus (fill : ℕ → ℕ) : SdxcBus ℕ where
  read reg polls :=
    if reg = Reg.rintsts then (bit Rintsts.rxdr, polls)
    else if reg = Reg.status then
      (if fill polls = 0 then bit Status.fifoEmpty else BitVec.ofNat 32 (fill polls) <<< 17,
        polls + 1)
    else (0, polls)
  write _ _ polls := polls

/-- The first word comes at the poll that finds `Timeout` at `0`. -/
def lateFill (polls : ℕ) : ℕ := if polls < sdmmcTimeout then 0 else 128

theorem pollFifo_lateFill {left polls : ℕ} (h : polls + left = sdmmcTimeout) :
    pollFifo (fillingBus lateFill) left polls = (0, sdmmcTimeout + 1) := by
  induction left generalizing polls with
  | zero =>
    obtain rfl : polls = sdmmcTimeout := h
    rfl
  | succ left ih =>
    have hempty : lateFill polls = 0 := if_pos (by omega)
    have hread : (fillingBus lateFill).read Reg.status polls =
        (bit Status.fifoEmpty, polls + 1) := by
      simp only [fillingBus, hempty, if_true]
      rfl
    rw [pollFifo, hread]
    exact ih (by omega)

/-- A late FIFO is taken for a whole transfer, one with a word too many is stored to the last word,
and of `2 ^ 23` sectors none is read. -/
theorem readSectorData_not_exact :
    (∃ s, readSectorData (fillingBus lateFill) false 1 1 (0x40000000 : BitVec 64) ⟨fun _ => 0, []⟩ 0
        = some (true, s) ∧ s.popped = []) ∧
    ¬ ReadsExactly (fillingBus lateFill) false 1 (0x40000000 : BitVec 64) (fun _ => 0) 0 ∧
    ¬ ReadsExactly (fillingBus fun _ => 129) false 1 (0x40000000 : BitVec 64) (fun _ => 0) 0 ∧
    ¬ ReadsExactly (fillingBus fun _ => 1) false 0x800000 (0x40000000 : BitVec 64) (fun _ => 0)
      0 := by
  have hlate : (polled (fillingBus lateFill)
      (startRead 1 (0x40000000 : BitVec 64) ⟨fun _ => 0, []⟩ 0)).1 = 0 :=
    congrArg Prod.fst (pollFifo_lateFill (Nat.zero_add _))
  refine ⟨⟨_, run_of_inr (body_of_break (by decide) (receive_of_late rfl hlate)), rfl⟩,
    fun h => ?_, fun h => ?_, fun h => ?_⟩
  · exact h.not_late (k := 0) rfl (by decide) rfl hlate
  · exact absurd ((h.iterationOk (k := 0) rfl).fits (by decide) rfl) (by decide)
  · exact absurd ((h.iterationOk (k := 0) rfl).no_wrap ⟨1, rfl⟩) (by decide)

end Gec6818Bl1.Sdmmc
