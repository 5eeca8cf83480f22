import Gec6818Bl1.Lib.Script
import Gec6818Bl1.I2c.Init

/-!
# The error path of an I2C transfer

`I2C_Read` and `I2C_Write` of `i2c_gpio.c`, with another side of the bus that does what it likes.

A transfer is a script (`Transfer.perform_eq_run`): the driver's moves in order, and among them the
points where the other side can refuse, which are a clock that does not come up, a data line that
does not read as it was let go, and a byte that is not acknowledged.

* **Between the start and the stop** `started` is set, so whatever is refused there leaves the bus
  taken, and mostly a line pulled (`started_run`).
* **Before and after** the driver pulls nothing of its own, and a refusal leaves the bus free
  (`clean_of_refused_start`, `clean_of_refused_stop`).

So a transfer cleans up after itself exactly when nothing is refused in between (`cleansUp_iff`).
-/

namespace Gec6818Bl1.I2c.ErrorPath

open ByteMem Emulator Script

/-! ## The other side -/

/-- Whatever else is on the two lines: it sees the registers change, and gives the level of the
pins. -/
structure Side (δ : Type*) where
  hear : (ℕ → BitVec 32) → δ → δ
  look : (ℕ → BitVec 32) → δ → BitVec 32 × δ

structure Bank (δ : Type*) where
  regs : ℕ → BitVec 32
  other : δ

namespace Side

variable {δ : Type*} (side : Side δ)

def read (reg : ℕ) (bank : Bank δ) : BitVec 32 × Bank δ :=
  if reg = Reg.gpioxPad then
    let (pad, other) := side.look bank.regs bank.other
    (pad, { bank with other })
  else (bank.regs reg, bank)

def write (reg : ℕ) (data : BitVec 32) (bank : Bank δ) : Bank δ :=
  let regs := Function.update bank.regs reg data
  { regs, other := side.hear regs bank.other }

def bus : GpioBus (Bank δ) := ⟨side.read, side.write⟩

end Side

/-- The output of the pin is enabled, which pulls its line down. -/
def drives {δ : Type*} (m : Master (Bank δ)) (pin : ℕ) : Bool :=
  (m.dev.regs Reg.gpioxOutenb).getLsbD pin

/-- Nothing is pulled, and no start waits for its stop. -/
structure Clean {δ : Type*} (p : Pins) (m : Master (Bank δ)) : Prop where
  scl : drives m p.scl = false
  sda : drives m p.sda = false
  started : m.started = false

/-- States in which the other side pulls neither line, and goes on so. -/
structure Side.LetGo {δ : Type*} (side : Side δ) (p : Pins) (letGo : δ → Prop) : Prop where
  hear : ∀ regs other, letGo other → letGo (side.hear regs other)
  look : ∀ regs other, letGo other → letGo (side.look regs other).2
  high : ∀ regs other, letGo other → ∀ pin, pin = p.scl ∨ pin = p.sda →
    (side.look regs other).1.getLsbD pin = !(regs Reg.gpioxOutenb).getLsbD pin

/-- Both lines are up, and `I2C_Start` pulls the data line from there. -/
def StartsIdle {δ : Type*} (side : Side δ) (p : Pins) (m : Master (Bank δ)) : Prop :=
  (side.look m.dev.regs m.dev.other).1.getLsbD p.scl = true ∧
    (side.look m.dev.regs m.dev.other).1.getLsbD p.sda = true ∧
      i2cStart side.bus p.scl p.sda m =
        (true, { sclLow side.bus p.scl
          (sdaLow side.bus p.sda (sdaRead side.bus p.sda m).2) with started := true })

/-- And once the other side lets go, a start is made on an idle bus. -/
structure Recovers {δ : Type*} (side : Side δ) (p : Pins) (m : Master (Bank δ)) : Prop
    extends Clean p m where
  starts : ∀ letGo, side.LetGo p letGo → ∀ other, letGo other →
    StartsIdle side p { m with dev := { m.dev with other } }

/-! ## Scripts -/

inductive Action where
  /-- The head of `I2C_Start`: with `started`, both lines are let go first. -/
  | resume
  | readSda
  | pullSda
  | pullScl
  /-- Let go of the clock until it is up. -/
  | raiseScl
  /-- Let go of the data line, which is to read high. -/
  | testSda
  /-- The data line is to read low, and the clock goes down either way. -/
  | ackSda
  | setStarted (started : Bool)
  /-- Let go of the data line until it is up. -/
  | waitSda
  deriving DecidableEq

section Driver

variable {σ : Type*} (bus : GpioBus σ) (scl sda : ℕ)

def act : Action → Master σ → Bool × Master σ
  | .resume, m =>
    if m.started then waitHigh (sclRead bus scl) stretchingTimeout (sdaRead bus sda m).2
    else (true, m)
  | .readSda, m => (true, (sdaRead bus sda m).2)
  | .pullSda, m => (true, sdaLow bus sda m)
  | .pullScl, m => (true, sclLow bus scl m)
  | .raiseScl, m => waitHigh (sclRead bus scl) stretchingTimeout m
  | .testSda, m => sdaRead bus sda m
  | .ackSda, m =>
    let (bit, m) := sdaRead bus sda m
    (!bit, sclLow bus scl m)
  | .setStarted started, m => (true, { m with started })
  | .waitSda, m => waitHigh (sdaRead bus sda) stretchingTimeout m

end Driver

def startScript : List Action := [.resume, .testSda, .pullSda, .pullScl, .setStarted true]

def stopScript : List Action := [.pullSda, .raiseScl, .readSda, .setStarted false, .waitSda]

def writeBitScript (bit : Bool) : List Action :=
  if bit then [.readSda, .raiseScl, .testSda, .pullScl] else [.pullSda, .raiseScl, .pullScl]

def readBitScript : List Action := [.readSda, .raiseScl, .readSda, .pullScl]

def ackScript : List Action := [.readSda, .raiseScl, .ackSda]

def writeBitsScript : ℕ → Byte → List Action
  | 0, _ => []
  | left + 1, data => writeBitScript (data &&& 0x80 != 0) ++ writeBitsScript left (data <<< 1)

def readBitsScript : ℕ → List Action
  | 0 => []
  | left + 1 => readBitScript ++ readBitsScript left

def optional (send : Bool) (script : List Action) : List Action := if send then script else []

def writeByteScript (sendStart sendStop : Bool) (data : Byte) : List Action :=
  optional sendStart startScript ++
    (writeBitsScript 8 data ++ (ackScript ++ optional sendStop stopScript))

def readByteScript (nAck sendStop : Bool) : List Action :=
  readBitsScript 8 ++ (writeBitScript nAck ++ optional sendStop stopScript)

def readLoopScript : ℕ → List Action
  | 0 => []
  | left + 1 => readByteScript (left = 0) (left = 0) ++ readLoopScript left

def writeLoopScript : List Byte → List Action
  | [] => []
  | data :: rest => writeByteScript false rest.isEmpty data ++ writeLoopScript rest

/-! ## The driver runs the script -/

section Runs

variable {σ : Type*} (bus : GpioBus σ) (scl sda : ℕ)

theorem i2cStart_eq_run : i2cStart bus scl sda = run (act bus scl sda) startScript := by
  funext m
  simp only [i2cStart, startScript, run, andThen, act]
  rcases (if m.started then waitHigh (sclRead bus scl) stretchingTimeout (sdaRead bus sda m).2
    else (true, m)) with ⟨_ | _, m₁⟩
  · rfl
  · dsimp only
    rcases sdaRead bus sda m₁ with ⟨_ | _, m₂⟩ <;> rfl

theorem i2cStop_eq_run : i2cStop bus scl sda = run (act bus scl sda) stopScript := by
  funext m
  rw [i2cStop, stopScript, run_cons, run_cons, run_cons, run_cons, run_singleton]
  simp only [andThen, act]
  rcases waitHigh (sclRead bus scl) stretchingTimeout (sdaLow bus sda m) with ⟨_ | _, m₁⟩ <;> rfl

theorem i2cWriteBit_eq_run (bit : Bool) :
    i2cWriteBit bus scl sda bit = run (act bus scl sda) (writeBitScript bit) := by
  funext m
  cases bit with
  | false =>
    simp only [i2cWriteBit, writeBitScript, run, andThen, act, Bool.false_eq_true, if_false]
    rcases waitHigh (sclRead bus scl) stretchingTimeout (sdaLow bus sda m) with ⟨_ | _, m₁⟩ <;> rfl
  | true =>
    simp only [i2cWriteBit, writeBitScript, run, andThen, act, if_true]
    rcases waitHigh (sclRead bus scl) stretchingTimeout (sdaRead bus sda m).2 with ⟨_ | _, m₁⟩
    · rfl
    · dsimp only
      rcases sdaRead bus sda m₁ with ⟨_ | _, m₂⟩ <;> rfl

theorem writeBits_eq_run (left : ℕ) (data : Byte) :
    writeBits bus scl sda left data = run (act bus scl sda) (writeBitsScript left data) := by
  induction left generalizing data with
  | zero => rfl
  | succ left ih =>
    funext m
    rw [writeBitsScript, run_append, ← ih, ← i2cWriteBit_eq_run, writeBits, andThen]
    rcases i2cWriteBit bus scl sda (data &&& 0x80 != 0) m with ⟨_ | _, m₁⟩ <;> rfl

theorem optional_eq_run {f : Master σ → Bool × Master σ} {script : List Action}
    (h : f = run (act bus scl sda) script) (send : Bool) (m : Master σ) :
    (if send then f m else (true, m)) = run (act bus scl sda) (optional send script) m := by
  cases send with
  | false => rfl
  | true => exact congrFun h m

/-- Of a bit that is read, only whether there is one counts here. -/
theorem i2cReadBit_eq_run (m : Master σ) :
    ((i2cReadBit bus scl sda m).1.isSome, (i2cReadBit bus scl sda m).2) =
      run (act bus scl sda) readBitScript m := by
  simp only [i2cReadBit, readBitScript, run, andThen, act]
  rcases waitHigh (sclRead bus scl) stretchingTimeout (sdaRead bus sda m).2 with ⟨_ | _, m₁⟩ <;> rfl

/-- A byte is acknowledged when the bit after it reads low. -/
theorem ack_eq_run (m : Master σ) :
    ((i2cReadBit bus scl sda m).1 == some false, (i2cReadBit bus scl sda m).2) =
      run (act bus scl sda) ackScript m := by
  simp only [i2cReadBit, ackScript, run, andThen, act]
  rcases waitHigh (sclRead bus scl) stretchingTimeout (sdaRead bus sda m).2 with ⟨_ | _, m₁⟩
  · rfl
  · dsimp only
    rcases sdaRead bus sda m₁ with ⟨_ | _, m₂⟩ <;> rfl

theorem writeAcked_eq_run (sendStart sendStop : Bool) (data : Byte) :
    writeAcked bus scl sda sendStart sendStop data =
      run (act bus scl sda) (writeByteScript sendStart sendStop data) := by
  funext m
  simp only [writeByteScript, run_append, andThen, writeAcked, i2cWriteByte,
    optional_eq_run bus scl sda (i2cStart_eq_run bus scl sda),
    optional_eq_run bus scl sda (i2cStop_eq_run bus scl sda), writeBits_eq_run, ← ack_eq_run]
  rcases run (act bus scl sda) (optional sendStart startScript) m with ⟨_ | _, m₁⟩
  · rfl
  dsimp only
  rcases run (act bus scl sda) (writeBitsScript 8 data) m₁ with ⟨_ | _, m₂⟩
  · rfl
  dsimp only
  rcases i2cReadBit bus scl sda m₂ with ⟨_ | _ | _, m₃⟩
  · rfl
  · simp only [beq_self_eq_true]
    rcases run (act bus scl sda) (optional sendStop stopScript) m₃ with ⟨_ | _, m₄⟩ <;> rfl
  · rfl

theorem readBits_eq_run (left : ℕ) (byte : Byte) (m : Master σ) :
    ((readBits bus scl sda left byte m).1.isSome, (readBits bus scl sda left byte m).2) =
      run (act bus scl sda) (readBitsScript left) m := by
  induction left generalizing byte m with
  | zero => rfl
  | succ left ih =>
    rw [readBitsScript, run_append, andThen, ← i2cReadBit_eq_run, readBits]
    rcases i2cReadBit bus scl sda m with ⟨_ | bit, m₁⟩
    · rfl
    · exact ih _ m₁

/-- A transfer's result and what it leaves, without the bytes that were stored. -/
def outcome (r : Bool × List Byte × Master σ) : Bool × Master σ := (r.1, r.2.2)

theorem i2cReadByte_eq_run (nAck sendStop : Bool) (m : Master σ) :
    outcome (i2cReadByte bus scl sda nAck sendStop m) =
      run (act bus scl sda) (readByteScript nAck sendStop) m := by
  simp only [readByteScript, run_append, andThen, i2cReadByte, ← readBits_eq_run _ _ _ 8 0,
    optional_eq_run bus scl sda (i2cStop_eq_run bus scl sda), i2cWriteBit_eq_run]
  rcases readBits bus scl sda 8 0 m with ⟨_ | byte, m₁⟩
  · rfl
  simp only [Option.isSome_some]
  rcases run (act bus scl sda) (writeBitScript nAck) m₁ with ⟨_ | _, m₂⟩
  · rfl
  dsimp only
  rcases run (act bus scl sda) (optional sendStop stopScript) m₂ with ⟨_ | _, m₃⟩ <;> rfl

theorem readLoop_eq_run (left : ℕ) (m : Master σ) :
    outcome (readLoop bus scl sda left m) = run (act bus scl sda) (readLoopScript left) m := by
  induction left generalizing m with
  | zero => rfl
  | succ left ih =>
    rw [readLoopScript, run_append, andThen, ← i2cReadByte_eq_run, readLoop]
    rcases i2cReadByte bus scl sda (left = 0) (left = 0) m with ⟨_ | _, bytes, m₁⟩
    · rfl
    · exact ih m₁

theorem writeLoop_eq_run (data : List Byte) :
    writeLoop bus scl sda data = run (act bus scl sda) (writeLoopScript data) := by
  induction data with
  | nil => rfl
  | cons data rest ih =>
    funext m
    rw [writeLoopScript, run_append, ← ih, ← writeAcked_eq_run, writeLoop, andThen]
    rcases writeAcked bus scl sda false rest.isEmpty data m with ⟨_ | _, m₁⟩ <;> rfl

end Runs

/-! ## Transfers -/

inductive Transfer where
  | read (deviceAddress registerAddress : Byte) (length : ℕ)
  | write (deviceAddress registerAddress : Byte) (data : List Byte)

namespace Transfer

variable {σ : Type*} (bus : GpioBus σ) (scl sda : ℕ)

def perform : Transfer → Master σ → Bool × Master σ
  | read a r length, m => outcome (i2cRead bus scl sda a r length m)
  | write a r data, m => i2cWrite bus scl sda a r data m

/-- What follows the first byte. -/
def rest : Transfer → List Action
  | read a r length =>
    writeByteScript false false r ++
      (writeByteScript true false (a <<< 1 ||| 1) ++ readLoopScript length)
  | write _ r data => writeByteScript false false r ++ writeLoopScript data

def deviceAddress : Transfer → Byte
  | read a _ _ => a
  | write a _ _ => a

def script (t : Transfer) : List Action :=
  writeByteScript true false (t.deviceAddress <<< 1 ||| 0) ++ t.rest

theorem perform_eq_run (t : Transfer) :
    t.perform bus scl sda = run (act bus scl sda) t.script := by
  funext m
  cases t with
  | read a r length =>
    simp only [perform, i2cRead, script, rest, deviceAddress, run_append, andThen,
      ← writeAcked_eq_run, ← readLoop_eq_run]
    rcases writeAcked bus scl sda true false (a <<< 1 ||| 0) m with ⟨_ | _, m₁⟩
    · rfl
    dsimp only
    rcases writeAcked bus scl sda false false r m₁ with ⟨_ | _, m₂⟩
    · rfl
    dsimp only
    rcases writeAcked bus scl sda true false (a <<< 1 ||| 1) m₂ with ⟨_ | _, m₃⟩ <;> rfl
  | write a r data =>
    simp only [perform, i2cWrite, script, rest, deviceAddress, run_append, andThen,
      ← writeAcked_eq_run, ← writeLoop_eq_run]
    rcases writeAcked bus scl sda true false (a <<< 1 ||| 0) m with ⟨_ | _, m₁⟩
    · rfl
    dsimp only
    rcases writeAcked bus scl sda false false r m₁ with ⟨_ | _, m₂⟩ <;> rfl

end Transfer

/-! ## What an action leaves -/

/-- What the first look brings about and a further look keeps, a wait leaves. -/
theorem waitHigh_rule {σ : Type*} {read : Master σ → Bool × Master σ} {Q : Master σ → Prop}
    (keep : ∀ m, Q m → Q (read m).2) (timeout : ℕ) {m : Master σ} (first : Q (read m).2) :
    Q (waitHigh read timeout m).2 := by
  induction timeout generalizing m with
  | zero =>
    rw [waitHigh]
    revert first
    rcases read m with ⟨_ | _, m₁⟩ <;> exact id
  | succ timeout ih =>
    rw [waitHigh]
    revert first
    rcases read m with ⟨_ | _, m₁⟩
    · exact fun h => ih (keep m₁ h)
    · exact id

section Bank

variable {δ : Type*} {side : Side δ} {m : Master (Bank δ)} {pin q : ℕ}

theorem drives_pinRead (hq : q < 32) :
    drives (pinRead side.bus pin m).2 q = (drives m q && !decide (q = pin)) := by
  have hregs : (pinRead side.bus pin m).2.dev.regs Reg.gpioxOutenb =
      m.dev.regs Reg.gpioxOutenb &&& ~~~(1#32 <<< pin) := rfl
  rw [drives, hregs, BitVec.getLsbD_and, BitVec.getLsbD_not, I2cGpio.getLsbD_bit _ _ hq,
    decide_eq_true hq, Bool.true_and]
  rfl

theorem drives_waitHigh (hq : q < 32) (timeout : ℕ) :
    drives (waitHigh (pinRead side.bus pin) timeout m).2 q =
      (drives m q && !decide (q = pin)) := by
  refine waitHigh_rule (Q := fun m' => drives m' q = (drives m q && !decide (q = pin))) ?_ timeout
    (drives_pinRead hq)
  intro m₁ h
  rw [drives_pinRead hq, h, Bool.and_assoc, Bool.and_self]

theorem started_waitHigh (timeout : ℕ) :
    (waitHigh (pinRead side.bus pin) timeout m).2.started = m.started :=
  waitHigh_rule (Q := fun m' => m'.started = m.started) (fun _ h => h) timeout rfl

end Bank

/-! ## Where a transfer can fail -/

/-- A stretch of a transfer that keeps the bus. -/
def Inner (script : List Action) : Prop :=
  ∀ a ∈ script, a ≠ .setStarted false ∧ a ≠ .waitSda

instance (script : List Action) : Decidable (Inner script) :=
  inferInstanceAs (Decidable (∀ a ∈ script, _))

theorem Inner.append {as bs : List Action} (ha : Inner as) (hb : Inner bs) : Inner (as ++ bs) :=
  fun a h => (List.mem_append.mp h).elim (ha a) (hb a)

theorem inner_nil : Inner [] := by decide

theorem inner_startScript : Inner startScript := by decide

theorem inner_ackScript : Inner ackScript := by decide

theorem inner_writeBitScript (bit : Bool) : Inner (writeBitScript bit) := by
  cases bit <;> decide

theorem inner_writeBitsScript (left : ℕ) (data : Byte) : Inner (writeBitsScript left data) := by
  induction left generalizing data with
  | zero => exact inner_nil
  | succ left ih => exact (inner_writeBitScript _).append (ih _)

theorem inner_readBitsScript (left : ℕ) : Inner (readBitsScript left) := by
  induction left with
  | zero => exact inner_nil
  | succ left ih => exact Inner.append (by decide) ih

theorem inner_optional {script : List Action} (h : Inner script) (send : Bool) :
    Inner (optional send script) := by
  cases send with
  | false => exact inner_nil
  | true => exact h

theorem inner_writeByteScript (sendStart : Bool) (data : Byte) :
    Inner (writeByteScript sendStart false data) :=
  (inner_optional inner_startScript _).append
    ((inner_writeBitsScript _ _).append (inner_ackScript.append inner_nil))

/-- It keeps the bus, and at the end may send the stop. -/
def MayStop (script : List Action) : Prop :=
  ∃ inner, Inner inner ∧ (script = inner ∨ script = inner ++ stopScript)

theorem Inner.mayStop {as : List Action} (h : Inner as) : MayStop as := ⟨as, h, .inl rfl⟩

theorem MayStop.append {as bs : List Action} (ha : Inner as) (hb : MayStop bs) :
    MayStop (as ++ bs) := by
  obtain ⟨inner, hinner, rfl | rfl⟩ := hb
  · exact (ha.append hinner).mayStop
  · exact ⟨as ++ inner, ha.append hinner, .inr (List.append_assoc _ _ _).symm⟩

theorem mayStop_optional (send : Bool) : MayStop (optional send stopScript) := by
  cases send with
  | false => exact inner_nil.mayStop
  | true => exact ⟨[], inner_nil, .inr rfl⟩

theorem mayStop_writeByteScript (sendStop : Bool) (data : Byte) :
    MayStop (writeByteScript false sendStop data) :=
  .append inner_nil (.append (inner_writeBitsScript _ _)
    (.append inner_ackScript (mayStop_optional sendStop)))

theorem inner_readByteScript (nAck : Bool) : Inner (readByteScript nAck false) :=
  (inner_readBitsScript _).append ((inner_writeBitScript _).append inner_nil)

theorem mayStop_readByteScript (nAck sendStop : Bool) : MayStop (readByteScript nAck sendStop) :=
  .append (inner_readBitsScript _) (.append (inner_writeBitScript _) (mayStop_optional sendStop))

/-- The stop goes with the last byte. -/
theorem mayStop_readLoopScript (left : ℕ) : MayStop (readLoopScript left) := by
  induction left with
  | zero => exact inner_nil.mayStop
  | succ left ih =>
    cases left with
    | zero =>
      rw [readLoopScript, readLoopScript, List.append_nil]
      exact mayStop_readByteScript _ _
    | succ left => exact .append (inner_readByteScript _) ih

theorem mayStop_writeLoopScript (data : List Byte) : MayStop (writeLoopScript data) := by
  induction data with
  | nil => exact inner_nil.mayStop
  | cons data rest ih =>
    cases rest with
    | nil =>
      rw [writeLoopScript, writeLoopScript, List.append_nil]
      exact mayStop_writeByteScript _ _
    | cons next rest => exact .append (inner_writeByteScript _ _) ih

theorem Transfer.mayStop_rest (t : Transfer) : MayStop t.rest := by
  cases t with
  | read a r length =>
    exact .append (inner_writeByteScript _ _)
      (.append (inner_writeByteScript _ _) (mayStop_readLoopScript _))
  | write a r data => exact .append (inner_writeByteScript _ _) (mayStop_writeLoopScript _)

/-- A transfer opens with a start. -/
theorem Transfer.script_eq (t : Transfer) :
    ∃ script, t.script = startScript ++ script ∧ MayStop script := by
  refine ⟨writeBitsScript 8 (t.deviceAddress <<< 1 ||| 0) ++ ackScript ++ t.rest, ?_,
    .append ((inner_writeBitsScript _ _).append inner_ackScript) t.mayStop_rest⟩
  simp only [Transfer.script, writeByteScript, optional, if_true, List.append_assoc]
  rfl

/-! ## What a refusal leaves -/

section Fate

variable {δ : Type*} {side : Side δ} {p : Pins} {m : Master (Bank δ)} {k : ℕ}

theorem started_act {a : Action} (ha : a ≠ .setStarted false) (h : m.started = true) :
    (act side.bus p.scl p.sda a m).2.started = true := by
  cases a with
  | resume =>
    rw [act, if_pos h]
    exact (started_waitHigh _).trans h
  | raiseScl => exact (started_waitHigh _).trans h
  | waitSda => exact (started_waitHigh _).trans h
  | setStarted started =>
    cases started with
    | false => exact absurd rfl ha
    | true => rfl
  | readSda | pullSda | pullScl | testSda | ackSda => exact h

variable (side p) in
/-- The bus is kept until a stop. -/
theorem started_run {script : List Action} (hscript : Inner script) (h : m.started = true) :
    (run (act side.bus p.scl p.sda) script m).2.started = true :=
  run_invariant (I := fun m : Master (Bank δ) => m.started = true)
    (fun a ha _ => started_act (hscript a ha).1) h

theorem not_clean_of_started (h : m.started = true) : ¬ Clean p m := fun hclean =>
  Bool.false_ne_true (hclean.started.symm.trans h)

theorem Inner.getElem?_ne {script : List Action} (h : Inner script) :
    script[k]? ≠ some .waitSda := fun hk => (h _ (List.mem_of_getElem? hk)).2 rfl

/-- With the bus free, `I2C_Start` only looks at the data line before it pulls it. -/
theorem i2cStart_of_free (h : m.started = false) :
    i2cStart side.bus p.scl p.sda m =
      if (sdaRead side.bus p.sda m).1 then
        (true, { sclLow side.bus p.scl (sdaLow side.bus p.sda (sdaRead side.bus p.sda m).2) with
          started := true })
      else (false, (sdaRead side.bus p.sda m).2) := by
  rw [i2cStart, h]
  simp only [Bool.false_eq_true, if_false]
  rcases sdaRead side.bus p.sda m with ⟨_ | _, m₁⟩ <;> rfl

variable (side p m) in
theorem drives_sdaRead : drives (sdaRead side.bus p.sda m).2 p.sda = false ∧
    drives (sdaRead side.bus p.sda m).2 p.scl = drives m p.scl := by
  constructor
  · simp [sdaRead, drives_pinRead p.sda_lt]
  · simp [sdaRead, drives_pinRead p.scl_lt, p.ne]

theorem clean_of_refused_start (h : Refused (act side.bus p.scl p.sda) startScript m k) :
    Clean p (run (act side.bus p.scl p.sda) startScript m).2 ↔
      m.started = false ∧ drives m p.scl = false := by
  cases hstarted : m.started with
  | true =>
    have hkept := started_run side p inner_startScript hstarted
    simp [not_clean_of_started hkept]
  | false =>
    have hfail := h.run_eq
    rw [← i2cStart_eq_run, i2cStart_of_free hstarted] at hfail ⊢
    split_ifs at hfail ⊢ with hread
    obtain ⟨hsda, hscl⟩ := drives_sdaRead side p m
    rw [← hscl]
    exact ⟨fun hclean => ⟨rfl, hclean.scl⟩, fun ⟨_, hclean⟩ => ⟨hclean, hsda, hstarted⟩⟩

theorem started_of_run_start (h : (run (act side.bus p.scl p.sda) startScript m).1 = true) :
    (run (act side.bus p.scl p.sda) startScript m).2.started = true := by
  cases hstarted : m.started with
  | true => exact started_run side p inner_startScript hstarted
  | false =>
    rw [← i2cStart_eq_run, i2cStart_of_free hstarted] at h ⊢
    split_ifs at h ⊢ with hread
    rfl

theorem drives_scl_of_raise :
    drives (run (act side.bus p.scl p.sda) [.pullSda, .raiseScl] m).2 p.scl = false := by
  rw [run_cons, run_singleton, andThen, act]
  refine (drives_waitHigh p.scl_lt _).trans ?_
  simp

/-- Once the clock is up, `I2C_Stop` lets go of both lines and forgets that it has the bus. -/
theorem clean_of_let_go (h : drives m p.scl = false) :
    Clean p (run (act side.bus p.scl p.sda) [.readSda, .setStarted false, .waitSda] m).2 := by
  rw [run_cons, run_cons, run_singleton, andThen, act]
  simp only [andThen, act]
  refine ⟨(drives_waitHigh p.scl_lt _).trans ?_, (drives_waitHigh p.sda_lt _).trans ?_,
    started_waitHigh _⟩
  · have hread := (drives_sdaRead side p m).2
    rw [h] at hread
    rw [Bool.and_eq_false_imp]
    exact fun h' => absurd (hread.symm.trans h') Bool.false_ne_true
  · simp

theorem refused_let_go (h : Refused (act side.bus p.scl p.sda)
    [.readSda, .setStarted false, .waitSda] m k) : k = 2 := by
  match k, h with
  | 2, _ => rfl
  | k + 3, h => exact h.2.2.2.elim

/-- `I2C_Stop` gives up on the clock with the bus still its own, and on the data line when it has
let go of all. -/
theorem clean_of_refused_stop (hstarted : m.started = true)
    (h : Refused (act side.bus p.scl p.sda) stopScript m k) :
    Clean p (run (act side.bus p.scl p.sda) stopScript m).2 ↔
      stopScript[k]? = some .waitSda := by
  have hinner : Inner [.pullSda, .raiseScl] := by decide
  have hsplit : stopScript = [.pullSda, .raiseScl] ++ [.readSda, .setStarted false, .waitSda] := rfl
  rw [hsplit] at h ⊢
  rcases refused_append.mp h with hscl | ⟨hrun, j, rfl, hsda⟩
  · have hkept := started_run side p hinner hstarted
    rw [hscl.run_append, List.getElem?_append_left hscl.lt_length]
    exact iff_of_false (not_clean_of_started hkept) hinner.getElem?_ne
  · obtain rfl := refused_let_go hsda
    rw [run_append_of_true hrun]
    exact iff_of_true (clean_of_let_go drives_scl_of_raise) rfl

end Fate

/-! ## The error path of a transfer -/

section ErrorPath

variable {δ : Type*} {side : Side δ} {p : Pins} {m : Master (Bank δ)} {k : ℕ}

theorem Clean.startsIdle (h : Clean p m) {letGo : δ → Prop} (hside : side.LetGo p letGo)
    (hother : letGo m.dev.other) : StartsIdle side p m := by
  refine ⟨?_, ?_, ?_⟩
  · rw [hside.high _ _ hother _ (.inl rfl)]
    exact congrArg (!·) h.scl
  · rw [hside.high _ _ hother _ (.inr rfl)]
    exact congrArg (!·) h.sda
  · have hread : (sdaRead side.bus p.sda m).1 = !drives (sdaRead side.bus p.sda m).2 p.sda :=
      hside.high _ _ (hside.hear _ _ hother) _ (.inr rfl)
    rw [(drives_sdaRead side p m).1] at hread
    rw [i2cStart_of_free h.started, hread, if_pos (Bool.not_false)]

theorem recovers_iff : Recovers side p m ↔ Clean p m :=
  ⟨Recovers.toClean, fun h => ⟨h, fun _ hside _ hother =>
    Clean.startsIdle ⟨h.scl, h.sda, h.started⟩ hside hother⟩⟩

/-- A transfer that fails leaves the bus to be had again. -/
def CleansUp (side : Side δ) (p : Pins) (t : Transfer) (m : Master (Bank δ)) : Prop :=
  (t.perform side.bus p.scl p.sda m).1 = false →
    Recovers side p (t.perform side.bus p.scl p.sda m).2

/-- The data line was low when the bus was free and not pulled, or is low after the stop. -/
def Harmless (p : Pins) (t : Transfer) (m : Master (Bank δ)) (k : ℕ) : Prop :=
  (k < startScript.length ∧ m.started = false ∧ drives m p.scl = false) ∨
    t.script[k]? = some .waitSda

/-- After the start, only the data line after the stop is refused to no harm. -/
theorem clean_of_refused_rest {script : List Action} (hscript : MayStop script)
    (hstarted : m.started = true) (h : Refused (act side.bus p.scl p.sda) script m k) :
    Clean p (run (act side.bus p.scl p.sda) script m).2 ↔ script[k]? = some .waitSda := by
  obtain ⟨inner, hinner, heq⟩ := hscript
  have hkept := started_run side p hinner hstarted
  rcases heq with rfl | rfl
  · exact iff_of_false (not_clean_of_started hkept) hinner.getElem?_ne
  · rcases refused_append.mp h with hin | ⟨hrun, i, rfl, hstop⟩
    · rw [hin.run_append, List.getElem?_append_left hin.lt_length]
      exact iff_of_false (not_clean_of_started hkept) hinner.getElem?_ne
    · rw [run_append_of_true hrun, List.getElem?_append_right (Nat.le_add_right _ _),
        Nat.add_sub_cancel_left]
      exact clean_of_refused_stop hkept hstop

theorem clean_of_refused {t : Transfer} (h : Refused (act side.bus p.scl p.sda) t.script m k) :
    Clean p (run (act side.bus p.scl p.sda) t.script m).2 ↔ Harmless p t m k := by
  obtain ⟨script, heq, hscript⟩ := t.script_eq
  rw [heq] at h
  rw [Harmless, heq]
  rcases refused_append.mp h with hstart | ⟨hrun, j, rfl, hrest⟩
  · rw [hstart.run_append, clean_of_refused_start hstart,
      List.getElem?_append_left hstart.lt_length, or_iff_left inner_startScript.getElem?_ne,
      and_iff_right hstart.lt_length]
  · have hlt : ¬ startScript.length + j < startScript.length := by omega
    rw [run_append_of_true hrun, List.getElem?_append_right (Nat.le_add_right _ _),
      Nat.add_sub_cancel_left, clean_of_refused_rest hscript (started_of_run_start hrun) hrest]
    simp only [hlt, false_and, false_or]

/-- **The error path.** A transfer cleans up exactly when the other side refuses nothing, or the
data line only, at the opening start or after the stop. -/
theorem cleansUp_iff (side : Side δ) (p : Pins) (t : Transfer) (m : Master (Bank δ)) :
    CleansUp side p t m ↔
      ∀ k, Refused (act side.bus p.scl p.sda) t.script m k → Harmless p t m k := by
  rw [CleansUp, Transfer.perform_eq_run, run_eq_false_iff, recovers_iff]
  constructor
  · intro h k hk
    exact (clean_of_refused hk).mp (h ⟨k, hk⟩)
  · intro h ⟨k, hk⟩
    exact (clean_of_refused hk).mpr (h k hk)

end ErrorPath

/-- Nobody is there: both lines are up whenever they are let go, so no byte is acknowledged. -/
def nobody : Side Unit where
  hear _ other := other
  look regs other := (~~~(regs Reg.gpioxOutenb), other)

/-- The device does not acknowledge its address: the clock stays pulled, and `started` set. -/
theorem not_cleansUp :
    ¬ CleansUp nobody gecPins (.write 0x34 0x10 [0x55]) ⟨false, ⟨fun _ => 0, ()⟩⟩ := by
  intro h
  have hfail : (Transfer.perform nobody.bus gecPins.scl gecPins.sda (.write 0x34 0x10 [0x55])
      ⟨false, ⟨fun _ => 0, ()⟩⟩).1 = false := by decide
  exact absurd (h hfail).scl (by decide)

end Gec6818Bl1.I2c.ErrorPath
