import Gec6818Bl1.I2c.Session

/-!
# Bridging the bucks

`PMIC_GEC6818` gives `DCDC3` the setpoint of `DCDC2` and then makes the two one poly-phase
converter. The I2C transfers are an interface, `Transfers`, that the function is written over.

* **Outcomes.** On `withOutcomes ok` the `k`-th transfer succeeds if `ok k` says so, and one that
  fails changes nothing. The write of `DC3VOL` is not looked at: if it fails and the next one does
  not, the bucks are bridged at whatever `DCDC3` was set to (`safelyBridged_iff`).
* **The emulator.** Over the driver, on the emulator's lines, every transfer succeeds. The two
  interfaces are `Related`, and so is what the function does on them (`pmicGec6818_emulator`).
-/

namespace Gec6818Bl1.Pmic

open ByteMem I2c Emulator

/-! ## The function -/

namespace Reg

def dc2vol : Byte := 0x22
def dc3vol : Byte := 0x23
def dcfreq : Byte := 0x37
def dcmode : Byte := 0x80

end Reg

/-- Bit of `DCFREQ`: "bridge DCDC2 and DCDC3". -/
def dcdc23Polyphase : ℕ := 4

def dcdcSys : Byte := 1 <<< 3
def dcdcDdr : Byte := 1 <<< 4

/-- `I2C_Init`, and `I2C_Read` and `I2C_Write` of one register of the `AXP228`. -/
structure Transfers (σ : Type*) where
  init : σ → σ
  read : Byte → σ → Option Byte × σ
  write : Byte → Byte → σ → Bool × σ

section Model

variable {σ : Type*} (t : Transfers σ)

/-- `I2C_Read(..) &&` what is done with the byte. -/
def readThen (r : Byte) (f : Byte → σ → σ) (s : σ) : σ :=
  match t.read r s with
  | (none, s) => s
  | (some v, s) => f v s

/-- What `PMIC_GEC6818` does with what it has read. -/
def bridge (mode freq dc2 : Byte) (s : σ) : σ :=
  -- "same setpoint on both phases before bridging them"
  let dc3 := dc2 &&& 0x3F
  let (_, s) := t.write Reg.dc3vol dc3 s
  let freq := freq ||| 1#8 <<< dcdc23Polyphase
  let (_, s) := t.write Reg.dcfreq freq s
  let mode := mode ||| (dcdcSys ||| dcdcDdr)
  let (_, s) := t.write Reg.dcmode mode s
  readThen t Reg.dcfreq (fun _ s => (t.read Reg.dcmode s).2) s

/-- `PMIC_GEC6818`. -/
def pmicGec6818 (s : σ) : σ :=
  readThen t Reg.dcmode (fun mode =>
    readThen t Reg.dcfreq fun freq =>
    readThen t Reg.dc2vol fun dc2 =>
    readThen t Reg.dc3vol fun _ => bridge t mode freq dc2) (t.init s)

end Model

/-! ## Transfers that may fail -/

/-- The registers, and whether `DCFREQ` has been written with the bit that bridges the bucks. -/
structure Moment where
  bridged : Bool
  reg : Byte → Byte

/-- Both bucks have the setpoint of `DCDC2`. -/
def Moment.Same (m : Moment) : Prop := m.reg Reg.dc3vol = m.reg Reg.dc2vol &&& 0x3F

structure Axp where
  now : Moment
  /-- How many transfers there were. -/
  transfers : ℕ
  /-- What each of them left, oldest first; a record only. -/
  moments : List Moment

namespace Axp

def start (reg : Byte → Byte) : Axp where
  now := ⟨false, reg⟩
  transfers := 0
  moments := []

def next (s : Axp) (now : Moment) : Axp where
  now
  transfers := s.transfers + 1
  moments := s.moments ++ [now]

end Axp

def withOutcomes (ok : ℕ → Bool) : Transfers Axp where
  init s := s
  read r s := (if ok s.transfers then some (s.now.reg r) else none, s.next s.now)
  write r v s :=
    if ok s.transfers then
      (true, s.next
        { bridged := s.now.bridged || r == Reg.dcfreq && v.getLsbD dcdc23Polyphase
          reg := Function.update s.now.reg r v })
    else (false, s.next s.now)

/-- The bucks are never bridged at different voltages. -/
def SafelyBridged (s : Axp) : Prop := ∀ m ∈ s.moments, m.bridged = true → m.Same

/-- The write of the setpoint does not fail alone: a register was not read, the setpoint was
written or was right, or the bucks were not bridged. -/
def Harmless (ok : ℕ → Bool) (reg : Byte → Byte) : Prop :=
  (∃ k < 4, ok k = false) ∨ ok 4 = true ∨ ok 5 = false ∨
    reg Reg.dc3vol = reg Reg.dc2vol &&& 0x3F

section Outcomes

variable {ok : ℕ → Bool} {reg : Byte → Byte} {s : Axp} {n : ℕ} {P : Prop}

theorem safelyBridged_next (m : Moment) :
    SafelyBridged (s.next m) ↔ SafelyBridged s ∧ (m.bridged = true → m.Same) := by
  unfold SafelyBridged Axp.next
  rw [List.forall_mem_append, List.forall_mem_singleton]

/-- Before the bucks are bridged. -/
structure Fresh (reg : Byte → Byte) (n : ℕ) (s : Axp) : Prop where
  now : s.now = ⟨false, reg⟩
  transfers : s.transfers = n
  safe : SafelyBridged s

theorem fresh_start (reg : Byte → Byte) : Fresh reg 0 (Axp.start reg) where
  now := rfl
  transfers := rfl
  safe := fun _ h => nomatch h

theorem Fresh.next (h : Fresh reg n s) (reg' : Byte → Byte) :
    Fresh reg' (n + 1) (s.next ⟨false, reg'⟩) where
  now := rfl
  transfers := congrArg (· + 1) h.transfers
  safe := (safelyBridged_next _).2 ⟨h.safe, fun hb => nomatch hb⟩

/-- A read gives the register and changes nothing, or it fails and the call is over. -/
theorem Fresh.readThen (h : Fresh reg n s) (ok : ℕ → Bool) (r : Byte) (f : Byte → Axp → Axp) :
    ∃ s', readThen (withOutcomes ok) r f s = (if ok n then f (reg r) s' else s') ∧
      Fresh reg (n + 1) s' := by
  refine ⟨s.next s.now, ?_, ?_⟩
  · have hread : (withOutcomes ok).read r s =
        (if ok n then some (reg r) else none, s.next s.now) := by
      rw [← h.transfers, show reg r = s.now.reg r by rw [h.now]]
      rfl
    rw [Pmic.readThen, hread]
    cases ok n <;> rfl
  · rw [h.now]
    exact h.next reg

theorem Fresh.writeSetpoint (h : Fresh reg n s) (v : Byte) :
    ∃ s', ((withOutcomes ok).write Reg.dc3vol v s).2 = s' ∧
      Fresh (if ok n then Function.update reg Reg.dc3vol v else reg) (n + 1) s' := by
  refine ⟨_, rfl, ?_⟩
  show Fresh _ _ (if ok s.transfers then _ else _ : Bool × Axp).2
  rw [h.transfers, h.now]
  cases ok n
  · exact h.next reg
  · exact h.next _

/-- From the write of `DCFREQ` on: the setpoints stay as they are. -/
structure Bridging (P : Prop) (b : Bool) (s : Axp) : Prop where
  same : s.now.Same ↔ P
  bridged : s.now.bridged = b
  safe : SafelyBridged s ↔ (b = true → P)

theorem Fresh.bridging (h : Fresh reg n s) :
    Bridging (reg Reg.dc3vol = reg Reg.dc2vol &&& 0x3F) false s where
  same := by rw [h.now]; rfl
  bridged := by rw [h.now]
  safe := ⟨fun _ hb => (nomatch hb), fun _ => h.safe⟩

theorem Bridging.next {b : Bool} (h : Bridging P b s) {m : Moment} (hsame : m.Same ↔ P)
    (hb : b = true → m.bridged = true) : Bridging P m.bridged (s.next m) where
  same := hsame
  bridged := rfl
  safe := by
    rw [safelyBridged_next, h.safe, hsame]
    exact ⟨fun hboth => hboth.2, fun hm => ⟨fun hb' => hm (hb hb'), hm⟩⟩

theorem Bridging.stay {b : Bool} (h : Bridging P b s) : Bridging P b (s.next s.now) := by
  have hnext := h.next h.same (fun hb => h.bridged.trans hb)
  rwa [h.bridged] at hnext

theorem Bridging.read {b : Bool} (h : Bridging P b s) (r : Byte) :
    Bridging P b ((withOutcomes ok).read r s).2 := h.stay

theorem same_update {m : Moment} {b : Bool} {r v : Byte} (h2 : r ≠ Reg.dc2vol)
    (h3 : r ≠ Reg.dc3vol) : Moment.Same ⟨b, Function.update m.reg r v⟩ ↔ m.Same := by
  unfold Moment.Same
  dsimp only
  rw [Function.update_of_ne h2.symm, Function.update_of_ne h3.symm]

theorem Bridging.writeMode {b : Bool} (h : Bridging P b s) (v : Byte) :
    Bridging P b ((withOutcomes ok).write Reg.dcmode v s).2 := by
  show Bridging P b (if ok s.transfers then _ else _ : Bool × Axp).2
  cases ok s.transfers
  · exact h.stay
  · have hbridged : (s.now.bridged ||
        Reg.dcmode == Reg.dcfreq && v.getLsbD dcdc23Polyphase) = b := by
      rw [h.bridged, show (Reg.dcmode == Reg.dcfreq) = false by decide, Bool.false_and,
        Bool.or_false]
    have hnext := h.next (m := ⟨b, Function.update s.now.reg Reg.dcmode v⟩)
      ((same_update (by decide) (by decide)).trans h.same) id
    rw [if_pos rfl, hbridged]
    exact hnext

theorem Bridging.writeFreq (h : Bridging P false s) {v : Byte}
    (hv : v.getLsbD dcdc23Polyphase = true) :
    Bridging P (ok s.transfers) ((withOutcomes ok).write Reg.dcfreq v s).2 := by
  show Bridging P _ (if ok s.transfers then _ else _ : Bool × Axp).2
  cases ok s.transfers
  · exact h.stay
  · have hbridged : (s.now.bridged || Reg.dcfreq == Reg.dcfreq && v.getLsbD dcdc23Polyphase) =
        true := by
      rw [hv, beq_self_eq_true, Bool.and_true, Bool.or_true]
    have hnext := h.next (m := ⟨true, Function.update s.now.reg Reg.dcfreq v⟩)
      ((same_update (by decide) (by decide)).trans h.same) fun _ => rfl
    rw [if_pos rfl, hbridged]
    exact hnext

theorem Bridging.readBack {b : Bool} (h : Bridging P b s) :
    Bridging P b (readThen (withOutcomes ok) Reg.dcfreq
      (fun _ s => ((withOutcomes ok).read Reg.dcmode s).2) s) := by
  have hfreq : Bridging P b ((withOutcomes ok).read Reg.dcfreq s).2 := h.read Reg.dcfreq
  rw [readThen]
  rcases hread : (withOutcomes ok).read Reg.dcfreq s with ⟨_ | v, s'⟩
  · rw [hread] at hfreq
    exact hfreq
  · rw [hread] at hfreq
    exact hfreq.read Reg.dcmode

/-- What follows the reads, with the two writes that matter as the next transfers. -/
theorem safelyBridged_bridge (h : Fresh reg n s) (mode freq : Byte) :
    SafelyBridged (bridge (withOutcomes ok) mode freq (reg Reg.dc2vol) s) ↔
      (ok (n + 1) = true → ok n = true ∨ reg Reg.dc3vol = reg Reg.dc2vol &&& 0x3F) := by
  have hbit : (freq ||| 1#8 <<< dcdc23Polyphase).getLsbD dcdc23Polyphase = true := by
    simp [dcdc23Polyphase]
  obtain ⟨s₁, hs₁, h₁⟩ : ∃ s₁, ((withOutcomes ok).write Reg.dc3vol (reg Reg.dc2vol &&& 0x3F) s).2 =
      s₁ ∧ Fresh (if ok n then Function.update reg Reg.dc3vol (reg Reg.dc2vol &&& 0x3F) else reg)
        (n + 1) s₁ := h.writeSetpoint _
  generalize hreg : (if ok n then Function.update reg Reg.dc3vol (reg Reg.dc2vol &&& 0x3F)
    else reg) = reg' at h₁
  have h₂ : Bridging (reg' Reg.dc3vol = reg' Reg.dc2vol &&& 0x3F) (ok s₁.transfers)
      ((withOutcomes ok).write Reg.dcfreq (freq ||| 1#8 <<< dcdc23Polyphase) s₁).2 :=
    h₁.bridging.writeFreq hbit
  have h₃ : Bridging _ _ ((withOutcomes ok).write Reg.dcmode (mode ||| (dcdcSys ||| dcdcDdr))
      ((withOutcomes ok).write Reg.dcfreq (freq ||| 1#8 <<< dcdc23Polyphase) s₁).2).2 :=
    h₂.writeMode _
  have h₄ : Bridging (reg' Reg.dc3vol = reg' Reg.dc2vol &&& 0x3F) (ok s₁.transfers)
      (bridge (withOutcomes ok) mode freq (reg Reg.dc2vol) s) := by
    rw [bridge]
    dsimp only
    rw [hs₁]
    exact h₃.readBack
  rw [h₄.safe, h₁.transfers, ← hreg]
  cases ok n
  · simp
  · simp [show Reg.dc2vol ≠ Reg.dc3vol by decide]

/-- **Bridging**: the bucks are never bridged at different voltages exactly if the write of the
setpoint does not fail alone. -/
theorem safelyBridged_iff (ok : ℕ → Bool) (reg : Byte → Byte) :
    SafelyBridged (pmicGec6818 (withOutcomes ok) (Axp.start reg)) ↔ Harmless ok reg := by
  have hinit : (withOutcomes ok).init (Axp.start reg) = Axp.start reg := rfl
  -- a read that fails ends the call before anything is written
  have hfailed : ∀ {n s}, n < 4 → Fresh reg (n + 1) s → ¬ ok n = true →
      (SafelyBridged s ↔ Harmless ok reg) := fun hn hs hfail =>
    iff_of_true hs.safe (Or.inl ⟨_, hn, Bool.eq_false_of_not_eq_true hfail⟩)
  rw [pmicGec6818, hinit]
  obtain ⟨s₁, hread₁, h₁⟩ := (fresh_start reg).readThen ok Reg.dcmode _
  rw [hread₁]
  split_ifs with hok₀
  · obtain ⟨s₂, hread₂, h₂⟩ := h₁.readThen ok Reg.dcfreq _
    rw [hread₂]
    split_ifs with hok₁
    · obtain ⟨s₃, hread₃, h₃⟩ := h₂.readThen ok Reg.dc2vol _
      rw [hread₃]
      split_ifs with hok₂
      · obtain ⟨s₄, hread₄, h₄⟩ := h₃.readThen ok Reg.dc3vol _
        rw [hread₄]
        split_ifs with hok₃
        · rw [safelyBridged_bridge h₄, Harmless]
          have hreads : ¬ ∃ k < 4, ok k = false := by
            intro ⟨k, hk, hfail⟩
            interval_cases k <;> simp_all
          rw [or_iff_right hreads]
          cases ok 5 <;> simp
        · exact hfailed (by decide) h₄ hok₃
      · exact hfailed (by decide) h₃ hok₂
    · exact hfailed (by decide) h₂ hok₁
  · exact hfailed (by decide) h₁ hok₀

end Outcomes

/-- `DCDC2` at 1.1 V and `DCDC3` at 1.2 V. -/
def unequalRegs (r : Byte) : Byte :=
  if r = Reg.dc2vol then 0x19 else if r = Reg.dc3vol then 0x1E else 0

/-- Only the write of `DC3VOL` fails. -/
theorem not_safelyBridged :
    ¬ SafelyBridged (pmicGec6818 (withOutcomes (· ≠ 4)) (Axp.start unequalRegs)) := by
  intro h
  have hsame := h _ (List.getElem_mem (show 5 < 9 by decide)) rfl
  revert hsame
  unfold Moment.Same
  decide

/-! ## On the emulator -/

section Emulator

variable {σ τ : Type*} {t : Transfers σ} {t' : Transfers τ} {R : σ → τ → Prop}

/-- Transfers give the same and keep the states related. -/
structure Related (t : Transfers σ) (t' : Transfers τ) (R : σ → τ → Prop) : Prop where
  read : ∀ r s s', R s s' →
    (t.read r s).1 = (t'.read r s').1 ∧ R (t.read r s).2 (t'.read r s').2
  write : ∀ r v s s', R s s' → R (t.write r v s).2 (t'.write r v s').2

theorem Related.readThen (h : Related t t' R) (r : Byte) {s : σ} {s' : τ} (hs : R s s')
    {f : Byte → σ → σ} {f' : Byte → τ → τ} (hf : ∀ v s s', R s s' → R (f v s) (f' v s')) :
    R (readThen t r f s) (readThen t' r f' s') := by
  obtain ⟨hv, hs⟩ := h.read r s s' hs
  unfold Pmic.readThen
  rcases hread : t.read r s with ⟨v, s₁⟩
  rcases hread' : t'.read r s' with ⟨v', s₁'⟩
  rw [hread, hread'] at hv hs
  obtain rfl : v = v' := hv
  cases v with
  | none => exact hs
  | some v => exact hf v s₁ s₁' hs

theorem Related.bridge (h : Related t t' R) (mode freq dc2 : Byte) {s : σ} {s' : τ} (hs : R s s') :
    R (bridge t mode freq dc2 s) (bridge t' mode freq dc2 s') :=
  h.readThen Reg.dcfreq (h.write _ _ _ _ (h.write _ _ _ _ (h.write _ _ _ _ hs)))
    fun _ s s' hs => (h.read Reg.dcmode s s' hs).2

theorem Related.pmicGec6818 (h : Related t t' R) {s : σ} {s' : τ} (hs : R (t.init s) (t'.init s')) :
    R (pmicGec6818 t s) (pmicGec6818 t' s') :=
  h.readThen Reg.dcmode hs fun mode _ _ hs => h.readThen Reg.dcfreq hs fun freq _ _ hs =>
    h.readThen Reg.dc2vol hs fun dc2 _ _ hs => h.readThen Reg.dc3vol hs fun _ _ _ hs =>
      h.bridge mode freq dc2 hs

/-- The driver, on the board's pins. -/
def onEmulator : Transfers (Master I2cGpio) where
  init := I2c.init
  read r m :=
    let (ok, data, m) := i2cRead I2cGpio.bus 15 16 Transfer.slaveAddress r 1 m
    (if ok then data.head? else none, m)
  write r v m := i2cWrite I2cGpio.bus 15 16 Transfer.slaveAddress r [v] m

theorem onEmulator_related : Related onEmulator (withOutcomes fun _ => true)
    fun m s => AtRest gecPins m ∧ m.dev.slave.regs = s.now.reg where
  read r m s hs := by
    obtain ⟨m', hrun, hrest, hregs, -⟩ := hs.1.transfer (t := .read r 1) Nat.one_pos
    have hread : onEmulator.read r m = (some (s.now.reg r), m') := by
      have hrun' : i2cRead I2cGpio.bus 15 16 Transfer.slaveAddress r 1 m = _ := hrun
      simp [onEmulator, hrun', Transfer.data, readFrom, hs.2]
    rw [hread]
    exact ⟨rfl, hrest, hregs.trans hs.2⟩
  write r v m s hs := by
    obtain ⟨m', hrun, hrest, hregs, -⟩ := hs.1.transfer (t := .write r [v]) Nat.one_pos
    have hwrite : (onEmulator.write r v m).2 = m' := congrArg (·.2.2) hrun
    rw [hwrite]
    refine ⟨hrest, hregs.trans ?_⟩
    rw [Transfer.regs, storeFrom, storeFrom, hs.2]
    rfl

/-- What the call makes of the registers if nothing fails. -/
def bridgedRegs (reg : Byte → Byte) : Byte → Byte :=
  let regs := Function.update reg Reg.dc3vol (reg Reg.dc2vol &&& 0x3F)
  let regs := Function.update regs Reg.dcfreq (reg Reg.dcfreq ||| 1#8 <<< dcdc23Polyphase)
  Function.update regs Reg.dcmode (reg Reg.dcmode ||| (dcdcSys ||| dcdcDdr))

/-- **On the emulator**, where everything is acknowledged, the bucks are bridged at one voltage. -/
theorem pmicGec6818_emulator {m : Master I2cGpio} (h : IdleBus m.dev) :
    (pmicGec6818 onEmulator m).dev.slave.regs = bridgedRegs m.dev.slave.regs := by
  obtain ⟨hrest, hregs⟩ := init_atRest h
  have hrelated : AtRest gecPins (pmicGec6818 onEmulator m) ∧
      (pmicGec6818 onEmulator m).dev.slave.regs =
        (pmicGec6818 (withOutcomes fun _ => true) (Axp.start m.dev.slave.regs)).now.reg :=
    onEmulator_related.pmicGec6818 ⟨hrest, hregs⟩
  exact hrelated.2

end Emulator

end Gec6818Bl1.Pmic
