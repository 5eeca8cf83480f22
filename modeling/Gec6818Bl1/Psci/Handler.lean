import Gec6818Bl1.Lib.Lts
import Gec6818Bl1.Psci.Power

/-!
# The PSCI handler

`cpus[]`, the SMC handler over it, and the two ways a core gets into the non-secure world: through
`psciSecondaryEntry` after a power-up, and back out of its own `CPU_OFF` call. Here one SMC, one
power-up and one wake-up from `wfi` is one step.

The handler's state is `Psci`. Beside the variables of the source it holds where each core is,
and the `events` of each core, a record nothing reads: the successful `CPU_ON`s for it and its
entries into the non-secure world.
-/

namespace Gec6818Bl1

abbrev Word := BitVec 64

/-- The result codes the handler returns. -/
inductive PsciErrorCodes where
  | success
  | notSupported
  | invalidParameters
  | alreadyOn
  | onPending
  deriving DecidableEq, Repr

namespace PsciErrorCodes

def code : PsciErrorCodes → Word
  | success => 0
  | notSupported => -1
  | invalidParameters => -2
  | alreadyOn => -4
  | onPending => -5

theorem code_eq_zero {r : PsciErrorCodes} : r.code = 0 ↔ r = success := by
  cases r <;> decide

end PsciErrorCodes

/-! The function ids, as the handler sees them in the low half of `x0`. -/

namespace PsciFunction

def version : Word := 0x84000000
def cpuSuspend : Word := 0x84000001
def cpuSuspend64 : Word := 0xC4000001
def cpuOff : Word := 0x84000002
def cpuOn : Word := 0x84000003
def cpuOn64 : Word := 0xC4000003
def affinityInfo : Word := 0x84000004
def affinityInfo64 : Word := 0xC4000004
def migrateInfoType : Word := 0x84000006
def systemOff : Word := 0x84000008
def systemReset : Word := 0x84000009
def features : Word := 0x8400000A

end PsciFunction

/-- The state of a core, as `AFFINITY_INFO` returns it. -/
inductive PsciCpuState where
  | on
  | off
  | onPending
  deriving DecidableEq, Repr

def PsciCpuState.code : PsciCpuState → Word
  | on => 0
  | off => 1
  | onPending => 2

/-- An element of `cpus[]`. -/
structure CpuSlot where
  state : PsciCpuState
  entry : Word
  context : Word
  deriving DecidableEq, Repr

/-- The saved `x0` to `x30` of the core that made the call. -/
abbrev Regs := Fin 31 → Word

/-- What the numerals of registers rest on, in whatever module they stand. -/
instance neZero_regs : @NeZero ℕ Zero.ofOfNat0 31 := ⟨by decide⟩

inductive CoreLoc where
  /-- Not powered yet. -/
  | unpowered
  | nonSecure
  /-- In `waitForCpuOn`, called from `cpuOff` with these saved registers. -/
  | parkedInSmc (regs : Regs)
  /-- In `waitForCpuOn`, called from `psciSecondaryEntry`. -/
  | parkedAtEntry
  /-- `SYSTEM_OFF` and `boardReset` do not return. -/
  | stopped

inductive PsciEvent where
  /-- A `CPU_ON` for this core returned success. -/
  | cpuOn (entry context : Word)
  /-- The core left EL3 for `pc`. -/
  | enter (pc x0 : Word)
  deriving DecidableEq, Repr

structure Psci where
  cpus : CpuId → CpuSlot
  power : PowerRegs
  loc : CpuId → CoreLoc
  events : CpuId → List PsciEvent

/-- After `psciInit(boot)`, with the rest of `cpus[]` as `.bss` leaves it. -/
def psciInit (boot : CpuId) (power : PowerRegs) : Psci where
  cpus i := { state := if i = boot then .on else .off, entry := 0, context := 0 }
  power
  loc i := if i = boot then .nonSecure else .unpowered
  events _ := []

/-- MPIDR (Aff1 = cluster, Aff0 = core) to an index; `none` for the `-1` of the source. -/
def mpidrToCpu (mpidr : Word) : Option CpuId :=
  if mpidr &&& 0xFF00FF0000 ≠ 0 ∨ mpidr &&& 0xFF > 3 then none
  else some (Fin.ofNat 8 ((mpidr &&& 3) ||| (if mpidr &&& 0xFF00 ≠ 0 then 4 else 0)).toNat)

namespace Psci

variable (startup : Word)

def setSlot (s : Psci) (cpu : CpuId) (slot : CpuSlot) : Psci :=
  { s with cpus := Function.update s.cpus cpu slot }

def setLoc (s : Psci) (cpu : CpuId) (loc : CoreLoc) : Psci :=
  { s with loc := Function.update s.loc cpu loc }

def record (s : Psci) (cpu : CpuId) (e : PsciEvent) : Psci :=
  { s with events := Function.update s.events cpu (s.events cpu ++ [e]) }

/-- The end of `waitForCpuOn`, when the core finds itself `ON_PENDING`. -/
def leaveWait (s : Psci) (cpu : CpuId) : Psci :=
  s.setSlot cpu { s.cpus cpu with state := .on }

def cpuOn (s : Psci) (targetCpu entryPoint contextId : Word) : PsciErrorCodes × Psci :=
  match mpidrToCpu targetCpu with
  | none => (.invalidParameters, s)
  | some cpu =>
    match (s.cpus cpu).state with
    | .on => (.alreadyOn, s)
    | .onPending => (.onPending, s)
    | .off =>
      let s := s.setSlot cpu { state := .onPending, entry := entryPoint, context := contextId }
      let s := { s with power := s.power.powerOnSecondaryCPU startup cpu }
      (.success, s.record cpu (.cpuOn entryPoint contextId))

def affinityInfo (s : Psci) (targetAffinity lowestLevel : Word) : Word :=
  match mpidrToCpu targetAffinity with
  | none => PsciErrorCodes.invalidParameters.code
  | some cpu =>
    if lowestLevel ≠ 0 then PsciErrorCodes.invalidParameters.code else (s.cpus cpu).state.code

/-- `CPU_SUSPEND` is a `wfi`; powerdown states are refused. -/
def cpuSuspend (powerState : Word) : PsciErrorCodes :=
  if powerState.getLsbD 16 then .invalidParameters else .success

def psciFeatures (function : Word) : PsciErrorCodes :=
  if function ∈ [PsciFunction.cpuSuspend, PsciFunction.cpuSuspend64, PsciFunction.version,
    PsciFunction.cpuOff, PsciFunction.cpuOn, PsciFunction.cpuOn64, PsciFunction.affinityInfo,
    PsciFunction.affinityInfo64, PsciFunction.migrateInfoType, PsciFunction.systemOff,
    PsciFunction.systemReset, PsciFunction.features]
  then .success else .notSupported

/-- `cpuOff` up to its `wfi`: the slot was just set, so the wait does not end at its first test. -/
def cpuOff (s : Psci) (cpu : CpuId) (regs : Regs) : Psci :=
  (s.setSlot cpu { s.cpus cpu with state := .off }).setLoc cpu (.parkedInSmc regs)

/-- What becomes of the caller: back in the non-secure world with these registers, or not. -/
def psciHandler (s : Psci) (cpu : CpuId) (regs : Regs) : Psci × Option Regs :=
  let function := regs 0 &&& 0xFFFFFFFF
  let ret (result : Word) : Option Regs := some (Function.update regs 0 result)
  if function = PsciFunction.version then (s, ret 0x10000)
  else if function = PsciFunction.cpuSuspend ∨ function = PsciFunction.cpuSuspend64 then
    (s, ret (cpuSuspend (regs 1)).code)
  else if function = PsciFunction.cpuOff then (s.cpuOff cpu regs, none)
  else if function = PsciFunction.cpuOn ∨ function = PsciFunction.cpuOn64 then
    let (result, s) := s.cpuOn startup (regs 1) (regs 2) (regs 3)
    (s, ret result.code)
  else if function = PsciFunction.affinityInfo ∨ function = PsciFunction.affinityInfo64 then
    (s, ret (s.affinityInfo (regs 1) (regs 2)))
  else if function = PsciFunction.migrateInfoType then (s, ret 2)
  else if function = PsciFunction.systemOff ∨ function = PsciFunction.systemReset then
    (s.setLoc cpu .stopped, none)
  else if function = PsciFunction.features then
    (s, ret (psciFeatures (regs 1 &&& 0xFFFFFFFF)).code)
  else (s, ret PsciErrorCodes.notSupported.code)

/-- `psciSecondaryEntry` when its wait ends: `EnterNonSecure(entry, context)`. -/
def enterFromStartup (s : Psci) (cpu : CpuId) : Psci :=
  let s := s.leaveWait cpu
  (s.record cpu (.enter (s.cpus cpu).entry (s.cpus cpu).context)).setLoc cpu .nonSecure

/-- `cpuOff` when its wait ends: `PrepareNonSecureEntry` sets the return address, and the
exception handler restores the saved registers with the new `regs[0]`. -/
def enterFromSmc (s : Psci) (cpu : CpuId) (regs : Regs) : Psci :=
  let s := s.leaveWait cpu
  let elr := (s.cpus cpu).entry
  let regs := Function.update regs 0 (s.cpus cpu).context
  (s.record cpu (.enter elr (regs 0))).setLoc cpu .nonSecure

/-- A power-up: `Startup`, then `SubCPUBoot` down to the first test of the wait. -/
def subCPUBoot (s : Psci) (cpu : CpuId) : Psci :=
  let s := { s with power := s.power.clearWakeup }
  if (s.cpus cpu).state = .onPending then s.enterFromStartup cpu
  else s.setLoc cpu .parkedAtEntry

/-- The `wfi` of a parked core ends, and it tests its slot again. -/
def wakeUp (s : Psci) (cpu : CpuId) : Option Psci :=
  match s.loc cpu with
  | .parkedInSmc regs =>
    some (if (s.cpus cpu).state = .onPending then s.enterFromSmc cpu regs else s)
  | .parkedAtEntry =>
    some (if (s.cpus cpu).state = .onPending then s.enterFromStartup cpu else s)
  | _ => none

inductive Action where
  /-- A core in the non-secure world executes `smc #0` with these registers. -/
  | smc (cpu : CpuId) (regs : Regs)
  | powerUp (cpu : CpuId)
  | wakeUp (cpu : CpuId)

def step (s : Psci) : Action → Option Psci
  | .smc cpu regs =>
    match s.loc cpu with
    | .nonSecure => some (s.psciHandler startup cpu regs).1
    | _ => none
  | .powerUp cpu => some (s.subCPUBoot cpu)
  | .wakeUp cpu => s.wakeUp cpu

/-! ## What a call can do -/

theorem cpuOn_cases (s : Psci) (target entry context : Word) :
    ((s.cpuOn startup target entry context).1 ≠ .success ∧
      (s.cpuOn startup target entry context).2 = s) ∨
    ∃ cpu, mpidrToCpu target = some cpu ∧ (s.cpus cpu).state = .off ∧
      s.cpuOn startup target entry context = (.success,
        record { s.setSlot cpu { state := .onPending, entry, context } with
          power := s.power.powerOnSecondaryCPU startup cpu } cpu (.cpuOn entry context)) := by
  unfold cpuOn
  cases htarget : mpidrToCpu target with
  | none => exact Or.inl ⟨by simp, rfl⟩
  | some cpu =>
    cases hstate : (s.cpus cpu).state with
    | on => exact Or.inl ⟨by simp [hstate], by simp only [hstate]⟩
    | onPending => exact Or.inl ⟨by simp [hstate], by simp only [hstate]⟩
    | off => exact Or.inr ⟨cpu, rfl, hstate, by simp only [hstate, setSlot]⟩

theorem psciHandler_cases (s : Psci) (cpu : CpuId) (regs : Regs) :
    (s.psciHandler startup cpu regs).1 = s ∨
    (s.psciHandler startup cpu regs).1 = s.cpuOff cpu regs ∨
    (s.psciHandler startup cpu regs).1 = (s.cpuOn startup (regs 1) (regs 2) (regs 3)).2 ∨
    (s.psciHandler startup cpu regs).1 = s.setLoc cpu .stopped := by
  unfold psciHandler
  dsimp only
  split_ifs <;> simp

/-- A `CPU_ON` call is `cpuOn`, with its result code in `x0`. -/
theorem psciHandler_cpuOn (s : Psci) (cpu : CpuId) {regs : Regs}
    (h : regs 0 &&& 0xFFFFFFFF = PsciFunction.cpuOn ∨
      regs 0 &&& 0xFFFFFFFF = PsciFunction.cpuOn64) :
    s.psciHandler startup cpu regs =
      ((s.cpuOn startup (regs 1) (regs 2) (regs 3)).2, some (Function.update regs 0
        (s.cpuOn startup (regs 1) (regs 2) (regs 3)).1.code)) := by
  unfold psciHandler
  rcases h with h | h <;> simp only [h] <;> rfl

end Psci

end Gec6818Bl1
