import Mathlib.Logic.Function.Basic
import Gec6818Bl1.Ddr.Driver
import Gec6818Bl1.Lib.WindowSearch

/-!
# LPDDR3 command/address calibration

`DDR_CA_Calibration` of `init_LPDDR3.c` tries one code of the command delay line after the other.
For each it has rank 0 return two patterns of its command/address pins (MR41 and MR48), and it
takes the middle of the first run of codes that return them both (`WindowSearch`).

The registers hold what was written to them, but for `CTRL_IO_RDATA`, which returns the pattern that
rank 0 is in (`Machine.ctrlIoRdata`): what it is for a code is a parameter, `outcome`. The
commands for a second rank are in a branch of `CFG_NSIH_EN == 0`, except for the first one.

**Calibration.** The loop ends, the code is the middle of the first window or the default, and rank
0, the write levelling mode and CKE are left as in normal operation (`ddrCaCalibration_calibrates`).
The controller is not taken out of the calibration mode: `rdlvl_ca_en` of `PHY_CON[2]` stays on,
which is what `init_DDR3.c` calls to continue the mode, with the middle as the code.
-/

namespace Gec6818Bl1.Ddr.CaCalibration

open WindowSearch

inductive Reg where
  | directCmd
  | cacalConfig (i : ℕ)
  | phyCon (i : ℕ)
  | offsetdCon
deriving DecidableEq

/-- The word of `SendDirectCommand` for `MEM_TYPE_LPDDR23`. -/
def commandWord (cmd : SdramCmd) (chipnum : U8) (mrx : U32) (value : U16) : U32 :=
  cmd.code <<< 24 ||| (chipnum &&& 1).setWidth 32 <<< 20 ||| ((mrx >>> 3) &&& 0x7) <<< 16 |||
    (mrx &&& 0x7) <<< 10 ||| (value.setWidth 32 &&& 0xFF) <<< 2 ||| (mrx >>> 6) &&& 0x3

/-- The pattern that a rank returns, in CA calibration. -/
inductive CaMode where
  | mr41
  | mr48
deriving DecidableEq

/-- What a command makes of the mode of a rank. -/
def caMode (chipnum : U8) (word : U32) (mode : Option CaMode) : Option CaMode :=
  if word = commandWord .mrs chipnum 41 0xA4 then some .mr41
  else if word = commandWord .mrs chipnum 48 0xC0 then some .mr48
  else if word = commandWord .mrs chipnum 42 0xA8 then none
  else mode

structure Machine where
  regs : Reg → U32
  rank : U8 → Option CaMode

namespace Machine

def writeIO32 (reg : Reg) (data : U32) (m : Machine) : Machine where
  regs := Function.update m.regs reg data
  rank chipnum := if reg = .directCmd then caMode chipnum data (m.rank chipnum) else m.rank chipnum

def setIO32 (reg : Reg) (data : U32) (m : Machine) : Machine :=
  m.writeIO32 reg (m.regs reg ||| data)

def clearIO32 (reg : Reg) (data : U32) (m : Machine) : Machine :=
  m.writeIO32 reg (m.regs reg &&& ~~~data)

def sendDirectCommand (cmd : SdramCmd) (chipnum : U8) (mrx : U32) (value : U16) (m : Machine) :
    Machine :=
  m.writeIO32 .directCmd (commandWord cmd chipnum mrx value)

/-- The code of the command delay line, `ctrl_offsetd`. -/
def code (m : Machine) : ℕ := ((m.regs .offsetdCon).setWidth 8).toNat

/-- `CTRL_IO_RDATA`. -/
def ctrlIoRdata (outcome : ℕ → U32 × U32) (m : Machine) : U32 :=
  match m.rank 0 with
  | some .mr41 => (outcome m.code).1
  | some .mr48 => (outcome m.code).2
  | none => 0

end Machine

def respMr41 : U32 := 0x5555

def respMr48 : U32 := 0x0101

def maskMr41 : U32 := 0xFFFF

def maskMr48 : U32 := 0x0303

section Code

variable (tADR : U32) (sbi : SecondBootInfo) (outcome : ℕ → U32 × U32)

/-- `OFFSETD_CON` gets a code, and `ctrl_resync` is pulsed. -/
def writeCode (code : ℕ) (m : Machine) : Machine :=
  let temp := m.regs .offsetdCon &&& 1#32 <<< 28
  let m := m.writeIO32 .offsetdCon (temp ||| BitVec.ofNat 32 code)
  let m := m.setIO32 .offsetdCon (0x1#32 <<< 24)
  m.clearIO32 .offsetdCon (0x1#32 <<< 24)

def readMr41 (m : Machine) : U32 × Machine :=
  let m := m.sendDirectCommand .mrs 0 41 0xA4
  let m := m.setIO32 (.cacalConfig 0) (0x1#32 <<< 0)
  let m := m.writeIO32 (.cacalConfig 0) (0x3FF#32 <<< 12 ||| tADR <<< 4 ||| 0x1#32 <<< 0)
  let m := m.writeIO32 (.cacalConfig 1) 0x00000001
  (m.ctrlIoRdata outcome &&& maskMr41, m.clearIO32 (.cacalConfig 0) (0x1#32 <<< 0))

def readMr48 (m : Machine) : U32 × Machine :=
  let m := m.sendDirectCommand .mrs 0 48 0xC0
  let m := m.setIO32 (.cacalConfig 0) (0x1#32 <<< 0)
  let m := m.writeIO32 (.cacalConfig 1) 0x00000001
  (m.ctrlIoRdata outcome &&& maskMr48, m.clearIO32 (.cacalConfig 0) (0x1#32 <<< 0))

/-- The variables of the loop. -/
structure Search where
  code : ℕ
  findVmw : ℕ
  vwml : ℕ
  vwmr : ℕ
  machine : Machine

/-- The end of a turn; `false` is `goto ca_error_ret`. -/
def nextCode (s : Search) : Search ⊕ (Bool × Search) :=
  let s := { s with code := s.code + 1 }
  if s.code = 256 then .inr (false, s) else .inl s

/-- One turn of `while (1)`. -/
def turn (s : Search) : Search ⊕ (Bool × Search) :=
  let m := writeCode s.code s.machine
  let (mr41, m) := readMr41 tADR outcome m
  let (mr48, m) := readMr48 outcome m
  let s := { s with machine := m }
  if s.findVmw < 0x3 then
    if mr41 = respMr41 ∧ mr48 = respMr48 then
      let s := { s with findVmw := s.findVmw + 1 }
      nextCode (if s.findVmw = 0x1 then { s with vwml := s.code } else s)
    else nextCode { s with findVmw := 0x0 }
  else if mr41 ≠ respMr41 ∨ mr48 ≠ respMr48 then
    .inr (true, { s with findVmw := 0x4, vwmr := s.code - 1 })
  else nextCode s

/-- Up to the loop. -/
def enterCalibration (m : Machine) : Machine :=
  let m := m.setIO32 (.phyCon 0) (0x1#32 <<< 16)
  let m := m.setIO32 (.phyCon 2) (0x1#32 <<< 23)
  let m := m.sendDirectCommand .pall 0 0 0
  if 1 < sbi.chipNum then m.sendDirectCommand .pall 1 0 0 else m

/-- From `ca_error_ret` on. `rdlvl_ca_en` of `PHY_CON[2]` stays on. -/
def leaveCalibration (ret : Bool) (offsetd : ℕ) (m : Machine) : Machine :=
  let m := if ret then writeCode offsetd m else writeCode 0x08 m
  let m := m.clearIO32 (.phyCon 0) (0x1#32 <<< 16)
  m.sendDirectCommand .mrs 0 42 0xA8

/-- `none` when the fuel does not last. -/
def ddrCaCalibration (fuel : ℕ) (m : Machine) : Option (Bool × Machine) :=
  (Polling.run (turn tADR outcome) fuel ⟨0x8, 0, 0, 0, enterCalibration sbi m⟩).map fun (ret, s) =>
    let vwmc := (s.vwml + s.vwmr) >>> 1
    let offsetd := vwmc &&& 0xFF
    (ret, leaveCalibration ret offsetd s.machine)

end Code

/-! ## What a write leaves -/

section Writes

variable {m : Machine} {reg reg' : Reg} {data : U32}

@[simp] theorem Machine.writeIO32_self : (m.writeIO32 reg data).regs reg = data :=
  Function.update_self ..

@[simp] theorem Machine.writeIO32_of_ne (h : reg' ≠ reg) :
    (m.writeIO32 reg data).regs reg' = m.regs reg' := Function.update_of_ne h ..

@[simp] theorem Machine.writeIO32_rank (h : reg ≠ .directCmd) :
    (m.writeIO32 reg data).rank = m.rank := by
  funext chipnum
  exact if_neg h

theorem Machine.writeIO32_directCmd (chipnum : U8) :
    (m.writeIO32 .directCmd data).rank chipnum = caMode chipnum data (m.rank chipnum) := rfl

/-- A pulse of `ctrl_resync` does not disturb the rest. -/
theorem resync {v : U32} (h : v &&& 0x1#32 <<< 24 = 0) :
    (v ||| 0x1#32 <<< 24) &&& ~~~(0x1#32 <<< 24) = v := by
  have hpulse : 0x1#32 <<< 24 &&& ~~~(0x1#32 <<< 24) = 0#32 := by decide
  have hrest : BitVec.allOnes 32 = 0x1#32 <<< 24 ||| ~~~(0x1#32 <<< 24) := by decide
  have hv : v = v &&& (0x1#32 <<< 24 ||| ~~~(0x1#32 <<< 24)) := by rw [← hrest, BitVec.and_allOnes]
  rw [BitVec.and_or_distrib_left, h, BitVec.ofNat_eq_ofNat, BitVec.zero_or] at hv
  rw [BitVec.and_or_distrib_right, hpulse, BitVec.or_zero, ← hv]

/-- The value of `OFFSETD_CON` for a code, with bit 28 as it was. -/
def offsetdValue (old : U32) (code : ℕ) : U32 := old &&& 1#32 <<< 28 ||| BitVec.ofNat 32 code

theorem ofNat_and_eq_zero {code : ℕ} (h : code < 256) {mask : U32} (hmask : 0xFF &&& mask = 0) :
    BitVec.ofNat 32 code &&& mask = 0 := by
  have hcode : BitVec.ofNat 32 code = BitVec.ofNat 32 code &&& 0xFF := by
    refine BitVec.eq_of_toNat_eq ?_
    rw [BitVec.toNat_and, BitVec.toNat_ofNat, Nat.mod_eq_of_lt (by omega)]
    exact (Nat.and_two_pow_sub_one_of_lt_two_pow (n := 8) h).symm
  rw [hcode, BitVec.and_assoc, hmask]
  exact BitVec.and_zero

theorem writeCode_offsetd (m : Machine) {code : ℕ} (h : code < 256) :
    (writeCode code m).regs .offsetdCon = offsetdValue (m.regs .offsetdCon) code := by
  have hbit : 1#32 <<< 28 &&& 0x1#32 <<< 24 = 0#32 := by decide
  unfold writeCode Machine.setIO32 Machine.clearIO32
  simp only [Machine.writeIO32_self]
  refine resync ?_
  rw [BitVec.and_or_distrib_right, BitVec.and_assoc, hbit, BitVec.and_zero, BitVec.zero_or,
    ofNat_and_eq_zero h (by decide)]

theorem setWidth_offsetdValue (old : U32) {code : ℕ} (h : code < 256) :
    ((offsetdValue old code).setWidth 8).toNat = code := by
  have hbit : (1#32 <<< 28).setWidth 8 = 0#8 := by decide
  rw [offsetdValue, BitVec.setWidth_or, BitVec.setWidth_and, hbit, BitVec.and_zero, BitVec.zero_or,
    BitVec.setWidth_ofNat_of_le (by decide), BitVec.toNat_ofNat]
  exact Nat.mod_eq_of_lt h

theorem offsetdValue_and (old : U32) {code : ℕ} (h : code < 256) :
    offsetdValue old code &&& 1#32 <<< 28 = old &&& 1#32 <<< 28 := by
  rw [offsetdValue, BitVec.and_or_distrib_right, BitVec.and_assoc, BitVec.and_self,
    ofNat_and_eq_zero h (by decide)]
  exact BitVec.or_zero

theorem writeCode_of_ne (m : Machine) (code : ℕ) (h : reg ≠ .offsetdCon) :
    (writeCode code m).regs reg = m.regs reg := by
  simp [writeCode, Machine.setIO32, Machine.clearIO32, h]

theorem writeCode_rank (m : Machine) (code : ℕ) : (writeCode code m).rank = m.rank := by
  simp [writeCode, Machine.setIO32, Machine.clearIO32]

end Writes

theorem writeCode_code (m : Machine) {code : ℕ} (h : code < 256) :
    (writeCode code m).code = code := by
  rw [Machine.code, writeCode_offsetd m h, setWidth_offsetdValue _ h]

/-! ## Modes -/

section Modes

variable (mode : Option CaMode)

@[simp] theorem caMode_mr41 :
    caMode 0#8 (commandWord .mrs 0#8 41#32 0xA4#16) mode = some .mr41 := if_pos rfl

@[simp] theorem caMode_mr48 :
    caMode 0#8 (commandWord .mrs 0#8 48#32 0xC0#16) mode = some .mr48 := by
  rw [caMode, if_neg (by decide)]
  exact if_pos rfl

@[simp] theorem caMode_mr42 : caMode 0#8 (commandWord .mrs 0#8 42#32 0xA8#16) mode = none := by
  rw [caMode, if_neg (by decide), if_neg (by decide)]
  exact if_pos rfl

/-- Any other command. -/
theorem caMode_other {chipnum : U8} {word : U32} (h41 : word ≠ commandWord .mrs chipnum 41 0xA4)
    (h48 : word ≠ commandWord .mrs chipnum 48 0xC0)
    (h42 : word ≠ commandWord .mrs chipnum 42 0xA8) : caMode chipnum word mode = mode := by
  rw [caMode, if_neg h41, if_neg h48, if_neg h42]

@[simp] theorem caMode_one_mr41 :
    caMode 1#8 (commandWord .mrs 0#8 41#32 0xA4#16) mode = mode :=
  caMode_other mode (by decide) (by decide) (by decide)

@[simp] theorem caMode_one_mr48 :
    caMode 1#8 (commandWord .mrs 0#8 48#32 0xC0#16) mode = mode :=
  caMode_other mode (by decide) (by decide) (by decide)

@[simp] theorem caMode_one_mr42 :
    caMode 1#8 (commandWord .mrs 0#8 42#32 0xA8#16) mode = mode :=
  caMode_other mode (by decide) (by decide) (by decide)

end Modes

/-! ## One turn -/

/-- Both patterns come back. -/
def pass (outcome : ℕ → U32 × U32) (code : ℕ) : Bool :=
  (outcome code).1 &&& maskMr41 == respMr41 && (outcome code).2 &&& maskMr48 == respMr48

section Turn

variable {tADR : U32} {outcome : ℕ → U32 × U32} {m : Machine}

/-- What reading a pattern leaves. -/
structure Read (m m' : Machine) : Prop where
  offsetd : m'.regs .offsetdCon = m.regs .offsetdCon
  phyCon : ∀ i, m'.regs (.phyCon i) = m.regs (.phyCon i)
  rank1 : m'.rank 1 = m.rank 1
  cke : (m'.regs (.cacalConfig 0)).getLsbD 0 = false

theorem getLsbD_zero_clear (v : U32) : (v &&& ~~~(0x1#32 <<< 0)).getLsbD 0 = false := by
  rw [BitVec.getLsbD_and]
  exact Bool.and_false _

theorem readMr41_value : (readMr41 tADR outcome m).1 = (outcome m.code).1 &&& maskMr41 := by
  simp [readMr41, Machine.ctrlIoRdata, Machine.sendDirectCommand, Machine.setIO32, Machine.code,
    Machine.writeIO32_directCmd]

theorem readMr41_read : Read m (readMr41 tADR outcome m).2 where
  offsetd := by
    simp [readMr41, Machine.sendDirectCommand, Machine.setIO32, Machine.clearIO32]
  phyCon i := by
    simp [readMr41, Machine.sendDirectCommand, Machine.setIO32, Machine.clearIO32]
  rank1 := by
    simp [readMr41, Machine.sendDirectCommand, Machine.setIO32, Machine.clearIO32,
      Machine.writeIO32_directCmd]
  cke := by
    simp only [readMr41, Machine.clearIO32, Machine.writeIO32_self]
    exact getLsbD_zero_clear _

theorem readMr48_value : (readMr48 outcome m).1 = (outcome m.code).2 &&& maskMr48 := by
  simp [readMr48, Machine.ctrlIoRdata, Machine.sendDirectCommand, Machine.setIO32, Machine.code,
    Machine.writeIO32_directCmd]

theorem readMr48_read : Read m (readMr48 outcome m).2 where
  offsetd := by
    simp [readMr48, Machine.sendDirectCommand, Machine.setIO32, Machine.clearIO32]
  phyCon i := by
    simp [readMr48, Machine.sendDirectCommand, Machine.setIO32, Machine.clearIO32]
  rank1 := by
    simp [readMr48, Machine.sendDirectCommand, Machine.setIO32, Machine.clearIO32,
      Machine.writeIO32_directCmd]
  cke := by
    simp only [readMr48, Machine.clearIO32, Machine.writeIO32_self]
    exact getLsbD_zero_clear _

/-- The machine after both patterns have been read for a code. -/
def tested (tADR : U32) (outcome : ℕ → U32 × U32) (code : ℕ) (m : Machine) : Machine :=
  (readMr48 outcome (readMr41 tADR outcome (writeCode code m)).2).2

/-- The variables after a test that leaves `r`, and the machine after it. -/
def Search.after (s : Search) (r : State) (machine : Machine) : Search :=
  { s with findVmw := r.found, vwml := r.left, machine }

/-- A turn is a test of the search for a window of three codes. -/
theorem turn_eq {s : Search} (hcode : s.code < 256) : turn tADR outcome s =
    match next 3 s.code (pass outcome s.code) ⟨s.findVmw, s.vwml⟩ with
    | .inl r => nextCode (s.after r (tested tADR outcome s.code s.machine))
    | .inr r => .inr (true, { s with
        findVmw := 4, vwml := r.1, vwmr := r.2,
        machine := tested tADR outcome s.code s.machine }) := by
  have h41 : (readMr41 tADR outcome (writeCode s.code s.machine)).1 =
      (outcome s.code).1 &&& maskMr41 := by
    rw [readMr41_value, writeCode_code _ hcode]
  have h48 : (readMr48 outcome (readMr41 tADR outcome (writeCode s.code s.machine)).2).1 =
      (outcome s.code).2 &&& maskMr48 := by
    rw [readMr48_value, Machine.code, readMr41_read.offsetd, ← Machine.code,
      writeCode_code _ hcode]
  have hpass : pass outcome s.code = true ↔ (outcome s.code).1 &&& maskMr41 = respMr41 ∧
      (outcome s.code).2 &&& maskMr48 = respMr48 := by
    simp [pass]
  unfold turn
  simp only [h41, h48, ← hpass, ← not_and_or, ne_eq]
  rcases Nat.lt_or_ge s.findVmw 3 with hlt | hge
  · rw [next_of_lt hlt, if_pos hlt]
    cases pass outcome s.code with
    | true =>
      by_cases hfirst : s.findVmw = 0
      · simp [hfirst, State.start, tested, Search.after]
      · simp [hfirst, State.start, tested, Search.after]
    | false => simp [tested, Search.after]
  · rw [next_of_le hge, if_neg (Nat.not_lt.2 hge)]
    cases pass outcome s.code with
    | true => simp [tested, Search.after]
    | false => simp [tested]

theorem nextCode_of_lt {s : Search} (h : s.code + 1 ≠ 256) :
    nextCode s = .inl { s with code := s.code + 1 } := if_neg h

theorem nextCode_of_eq {s : Search} (h : s.code + 1 = 256) :
    nextCode s = .inr (false, { s with code := s.code + 1 }) := if_pos h

/-- What the loop leaves as it was before. -/
structure Kept (m₀ m : Machine) : Prop where
  bit28 : m.regs .offsetdCon &&& 1#32 <<< 28 = m₀.regs .offsetdCon &&& 1#32 <<< 28
  phyCon : ∀ i, m.regs (.phyCon i) = m₀.regs (.phyCon i)
  rank1 : m.rank 1 = m₀.rank 1

theorem tested_kept {m₀ : Machine} {code : ℕ} (hcode : code < 256) (h : Kept m₀ m) :
    Kept m₀ (tested tADR outcome code m) ∧
      ((tested tADR outcome code m).regs (.cacalConfig 0)).getLsbD 0 = false := by
  have h41 : Read (writeCode code m) (readMr41 tADR outcome (writeCode code m)).2 := readMr41_read
  have h48 : Read _ (tested tADR outcome code m) := readMr48_read
  refine ⟨⟨?_, fun i => ?_, ?_⟩, h48.cke⟩
  · rw [h48.offsetd, h41.offsetd, writeCode_offsetd m hcode, offsetdValue_and _ hcode, h.bit28]
  · have hne : Reg.phyCon i ≠ .offsetdCon := nofun
    rw [h48.phyCon, h41.phyCon, writeCode_of_ne m code hne, h.phyCon]
  · rw [h48.rank1, h41.rank1, writeCode_rank, h.rank1]

/-- Before a turn, no window has ended. -/
structure Searching (outcome : ℕ → U32 × U32) (m₀ : Machine) (s : Search) : Prop where
  inv : Inv (fun c => pass outcome c = true) 8 3 s.code ⟨s.findVmw, s.vwml⟩
  lt : s.code < 256
  kept : Kept m₀ s.machine

/-- How the loop ends. -/
structure Searched (outcome : ℕ → U32 × U32) (m₀ : Machine) (r : Bool × Search) : Prop where
  found : r.1 = true → First (fun c => pass outcome c = true) 8 256 3 r.2.vwml r.2.vwmr
  none : r.1 = false → ∀ l r, ¬ Window (fun c => pass outcome c = true) 8 256 3 l r
  kept : Kept m₀ r.2.machine
  cke : (r.2.machine.regs (.cacalConfig 0)).getLsbD 0 = false

/-- A turn goes on to the next code or ends the search. -/
theorem turn_searching {m₀ : Machine} {s : Search} (hs : Searching outcome m₀ s) :
    (∀ s', turn tADR outcome s = .inl s' → Searching outcome m₀ s' ∧ s'.code = s.code + 1) ∧
      ∀ r, turn tADR outcome s = .inr r → Searched outcome m₀ r := by
  obtain ⟨hkept, hcke⟩ : Kept m₀ (tested tADR outcome s.code s.machine) ∧ _ :=
    tested_kept hs.lt hs.kept
  rw [turn_eq hs.lt]
  cases hnext : next 3 s.code (pass outcome s.code) ⟨s.findVmw, s.vwml⟩ with
  | inl r =>
    have hinv := hs.inv.next (by decide) Iff.rfl hnext
    by_cases hend : s.code + 1 = 256
    · have hcode : (s.after r (tested tADR outcome s.code s.machine)).code + 1 = 256 := hend
      dsimp only
      rw [nextCode_of_eq hcode]
      rw [hend] at hinv
      refine ⟨fun s' h => (nomatch h), fun r h => ?_⟩
      obtain rfl := Sum.inr.inj h
      exact ⟨fun hret => Bool.noConfusion hret, fun _ => hinv.none, hkept, hcke⟩
    · have hcode : (s.after r (tested tADR outcome s.code s.machine)).code + 1 ≠ 256 := hend
      dsimp only
      rw [nextCode_of_lt hcode]
      refine ⟨fun s' h => ?_, fun r h => (nomatch h)⟩
      obtain rfl := Sum.inl.inj h
      have hlt := hs.lt
      exact ⟨⟨hinv, Nat.lt_of_le_of_ne hlt hend, hkept⟩, rfl⟩
  | inr r =>
    refine ⟨fun s' h => (nomatch h), fun r' h => ?_⟩
    obtain rfl := Sum.inr.inj h
    have hfirst := hs.inv.first (by decide) Iff.rfl hs.lt hnext
    exact ⟨fun _ => hfirst, fun hret => Bool.noConfusion hret, hkept, hcke⟩

/-- The loop ends after at most one turn for each code. -/
theorem run_turn_searched (tADR : U32) {m₀ : Machine} {s : Search} (hs : Searching outcome m₀ s)
    {fuel : ℕ} (hfuel : 256 - s.code < fuel) :
    ∃ r, Polling.run (turn tADR outcome) fuel s = some r ∧ Searched outcome m₀ r := by
  refine Polling.run_total (I := Searching outcome m₀) (fun s => 256 - s.code) ?_ ?_ hs hfuel
  · intro s s' hs h
    obtain ⟨hs', hcode⟩ := (turn_searching hs).1 s' h
    have hlt := hs.lt
    exact ⟨hs', by omega⟩
  · exact fun s r hs h => (turn_searching hs).2 r h

end Turn

/-! ## The calibration -/

section Calibration

variable (tADR : U32) (sbi : SecondBootInfo) (outcome : ℕ → U32 × U32) (m : Machine)

/-- The outcome of a calibration of `m`. -/
structure Calibrated (ret : Bool) (m' : Machine) : Prop where
  ret_iff : ret = true ↔ ∃ l r, Window (fun c => pass outcome c = true) 8 256 3 l r
  found : ret = true → ∃ l r, First (fun c => pass outcome c = true) 8 256 3 l r ∧
    m'.code = (l + r) / 2 ∧ pass outcome m'.code = true
  failed : ret = false → m'.code = 0x08
  bit28 : m'.regs .offsetdCon &&& 1#32 <<< 28 = m.regs .offsetdCon &&& 1#32 <<< 28
  wrlvl : (m'.regs (.phyCon 0)).getLsbD 16 = false
  rdlvl : (m'.regs (.phyCon 2)).getLsbD 23 = true
  rank0 : m'.rank 0 = none
  rank1 : m'.rank 1 = m.rank 1
  cke : (m'.regs (.cacalConfig 0)).getLsbD 0 = false

theorem enterCalibration_offsetd :
    (enterCalibration sbi m).regs .offsetdCon = m.regs .offsetdCon := by
  unfold enterCalibration
  split_ifs <;> simp [Machine.setIO32, Machine.sendDirectCommand]

theorem enterCalibration_rank1 : (enterCalibration sbi m).rank 1 = m.rank 1 := by
  have h0 : caMode 1#8 (commandWord .pall 0#8 0#32 0#16) (m.rank 1#8) = m.rank 1#8 :=
    caMode_other _ (by decide) (by decide) (by decide)
  have h1 : caMode 1#8 (commandWord .pall 1#8 0#32 0#16) (m.rank 1#8) = m.rank 1#8 :=
    caMode_other _ (by decide) (by decide) (by decide)
  unfold enterCalibration
  split_ifs <;>
    simp [Machine.setIO32, Machine.sendDirectCommand, Machine.writeIO32_directCmd, h0, h1]

/-- The controller's calibration mode is on from the start. -/
theorem enterCalibration_rdlvl :
    ((enterCalibration sbi m).regs (.phyCon 2)).getLsbD 23 = true := by
  unfold enterCalibration
  split_ifs <;> simp [Machine.setIO32, Machine.sendDirectCommand]

/-- What is left from `ca_error_ret` on. -/
structure Left (code : ℕ) (m m' : Machine) : Prop where
  code_eq : m'.code = code
  bit28 : m'.regs .offsetdCon &&& 1#32 <<< 28 = m.regs .offsetdCon &&& 1#32 <<< 28
  wrlvl : (m'.regs (.phyCon 0)).getLsbD 16 = false
  phyCon2 : m'.regs (.phyCon 2) = m.regs (.phyCon 2)
  rank0 : m'.rank 0 = none
  rank1 : m'.rank 1 = m.rank 1
  cke : m'.regs (.cacalConfig 0) = m.regs (.cacalConfig 0)

theorem leaveCalibration_left (ret : Bool) {offsetd : ℕ} (h : offsetd < 256) :
    Left (if ret then offsetd else 0x08) m (leaveCalibration ret offsetd m) := by
  have hcode : (if ret then offsetd else 0x08) < 256 := by
    split_ifs
    · exact h
    · decide
  have heq : leaveCalibration ret offsetd m =
      ((writeCode (if ret then offsetd else 0x08) m).clearIO32 (.phyCon 0)
        (0x1#32 <<< 16)).sendDirectCommand .mrs 0 42 0xA8 := by
    cases ret <;> rfl
  have hoffsetd : (leaveCalibration ret offsetd m).regs .offsetdCon =
      offsetdValue (m.regs .offsetdCon) (if ret then offsetd else 0x08) := by
    rw [heq, ← writeCode_offsetd m hcode]
    simp [Machine.sendDirectCommand, Machine.clearIO32]
  refine ⟨?_, ?_, ?_, ?_, ?_, ?_, ?_⟩
  · rw [Machine.code, hoffsetd, setWidth_offsetdValue _ hcode]
  · rw [hoffsetd, offsetdValue_and _ hcode]
  · rw [heq]
    simp [Machine.sendDirectCommand, Machine.clearIO32]
  · rw [heq]
    simp [Machine.sendDirectCommand, Machine.clearIO32, writeCode_of_ne]
  · rw [heq]
    simp [Machine.sendDirectCommand, Machine.writeIO32_directCmd]
  · rw [heq]
    simp [Machine.sendDirectCommand, Machine.clearIO32, Machine.writeIO32_directCmd,
      writeCode_rank]
  · rw [heq]
    simp [Machine.sendDirectCommand, Machine.clearIO32, writeCode_of_ne]

/-- **Calibration.** One turn for each code from 8 to 255 is enough. The code is the one to go on
with in calibration mode, in which the controller stays. -/
theorem ddrCaCalibration_calibrates (fuel : ℕ) :
    ∃ ret m', ddrCaCalibration tADR sbi outcome (249 + fuel) m = some (ret, m') ∧
      Calibrated outcome m ret m' := by
  have hstart : Searching outcome (enterCalibration sbi m) ⟨0x8, 0, 0, 0, enterCalibration sbi m⟩ :=
    ⟨inv_start _ 8 (by decide) 0, show 8 < 256 by decide, rfl, fun _ => rfl, rfl⟩
  obtain ⟨⟨ret, s⟩, hrun, hsearched⟩ :=
    run_turn_searched tADR hstart (show 256 - 8 < 249 + fuel by omega)
  have hand : (s.vwml + s.vwmr) >>> 1 &&& 0xFF < 256 := Nat.lt_succ_of_le Nat.and_le_right
  have hleft := leaveCalibration_left s.machine ret hand
  refine ⟨ret, leaveCalibration ret ((s.vwml + s.vwmr) >>> 1 &&& 0xFF) s.machine, ?_, ?_⟩
  · rw [ddrCaCalibration, hrun]
    rfl
  refine ⟨⟨?_, ?_⟩, ?_, ?_, ?_, hleft.wrlvl, ?_, hleft.rank0, ?_, ?_⟩
  · rintro rfl
    exact ⟨_, _, (hsearched.found rfl).1⟩
  · rintro ⟨l, r, hwindow⟩
    by_contra hret
    exact hsearched.none (eq_false_of_ne_true hret) l r hwindow
  · rintro rfl
    have hfirst := hsearched.found rfl
    have hmiddle : (s.vwml + s.vwmr) >>> 1 &&& 0xFF = (s.vwml + s.vwmr) / 2 := by
      have hlong := hfirst.1.long
      have hlt := hfirst.1.lt_hi
      dsimp only at hlong hlt
      rw [Nat.shiftRight_eq_div_pow]
      exact Nat.and_two_pow_sub_one_of_lt_two_pow (n := 8) (by omega)
    have hcode := hleft.code_eq
    rw [if_pos rfl, hmiddle] at hcode
    rw [hmiddle]
    refine ⟨s.vwml, s.vwmr, hfirst, hcode, ?_⟩
    rw [hcode]
    exact hfirst.1.middle (by decide)
  · rintro rfl
    exact hleft.code_eq
  · rw [hleft.bit28, hsearched.kept.bit28, enterCalibration_offsetd]
  · rw [hleft.phyCon2, hsearched.kept.phyCon]
    exact enterCalibration_rdlvl sbi m
  · rw [hleft.rank1, hsearched.kept.rank1, enterCalibration_rank1]
  · rw [hleft.cke]
    exact hsearched.cke

/-- Calibration mode is left: by rank 0, and by the controller in both of its registers. -/
structure ModeLeft (m' : Machine) : Prop where
  rank0 : m'.rank 0 = none
  wrlvl : (m'.regs (.phyCon 0)).getLsbD 16 = false
  rdlvl : (m'.regs (.phyCon 2)).getLsbD 23 = false

/-- Codes 8 to 10 pass, so that the middle is 9. -/
def narrowWindow (code : ℕ) : U32 × U32 := if code < 11 then (respMr41, respMr48) else (0, 0)

/-- The controller stays in the mode, also after a calibration that went well. -/
theorem ddrCaCalibration_not_left : ∃ m',
    ddrCaCalibration 1 raptor1400 narrowWindow 249 ⟨fun _ => 0, fun _ => none⟩ =
      some (true, m') ∧ m'.code = 9 ∧ ¬ ModeLeft m' := by
  have hend : (ddrCaCalibration 1 raptor1400 narrowWindow 249
      ⟨fun _ => 0, fun _ => none⟩).map (fun r => (r.1, r.2.code,
        (r.2.regs (.phyCon 2)).getLsbD 23)) = some (true, 9, true) := by
    decide +kernel
  obtain ⟨⟨ret, m'⟩, hrun, hm'⟩ := Option.map_eq_some_iff.1 hend
  simp only [Prod.mk.injEq] at hm'
  obtain ⟨rfl, hcode, hrdlvl⟩ := hm'
  refine ⟨m', hrun, hcode, fun hleft => ?_⟩
  rw [hleft.rdlvl] at hrdlvl
  cases hrdlvl

end Calibration

end Gec6818Bl1.Ddr.CaCalibration
