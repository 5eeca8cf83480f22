import Gec6818Bl1.Psci.Handler

/-!
# The slot of one core, access by access

`cpuOn`, `waitForCpuOn` and `cpuOff` once more, this time cut at every volatile access to the slot
`cpus[c]` of one core `c`. Each access is one step, and the steps of any number of `cpuOn` calls
(`ι` of them, with arguments `args`) and of the core itself interleave freely.

A call has stored `ON_PENDING` before it raises its power-on request. A raised request counts in
`requests`; at any later time it restarts the core through `Startup`, or it lapses. `entered`
records the pairs the core has left EL3 with.

`moves_of_step` says once what a step can do. Run without interference, the steps of a call are
the `cpuOn` of the handler (`call_alone`).
-/

namespace Gec6818Bl1

/-- The next access of a `cpuOn` call. -/
inductive CallerPc where
  /-- `cpus[cpu].state == PSCI_STATE_ON`. -/
  | checkOn
  /-- `cpus[cpu].state == PSCI_STATE_ON_PENDING`. -/
  | checkPending
  | storeEntry
  | storeContext
  | storePending
  /-- `PowerOnSecondaryCPU(cpu)`. -/
  | powerOn
  | done (result : PsciErrorCodes)
  deriving DecidableEq, Repr

/-- Who called `waitForCpuOn`. -/
inductive WaitCaller where
  | cpuOff
  | psciSecondaryEntry
  deriving DecidableEq, Repr

/-- The next access of the core. -/
inductive CorePc where
  | unpowered
  /-- The loop test of `waitForCpuOn`. -/
  | testSlot (caller : WaitCaller)
  /-- In `wfi`. -/
  | asleep (caller : WaitCaller)
  /-- `cpus[cpu].state = PSCI_STATE_ON`, after the loop. -/
  | storeOn (caller : WaitCaller)
  /-- The `printf` of `psciSecondaryEntry` reads the entry point too. -/
  | printEntry
  | loadEntry (caller : WaitCaller)
  | loadContext (caller : WaitCaller) (entry : Word)
  | nonSecure
  /-- `cpus[cpu].state = PSCI_STATE_OFF` of `cpuOff`. -/
  | storeOff
  deriving DecidableEq, Repr

structure SlotSys (ι : Type*) where
  slot : CpuSlot
  caller : ι → CallerPc
  core : CorePc
  requests : ℕ
  entered : List (Word × Word)

inductive SlotAction (ι : Type*) where
  /-- The next access of a call. -/
  | call (i : ι)
  /-- The next access of the core, inside `cpuOff` or `psciSecondaryEntry`. -/
  | core
  /-- The core, in the non-secure world, calls `CPU_OFF`. -/
  | cpuOff
  /-- A raised request restarts the core through `Startup` and `SubCPUBoot`. -/
  | restart
  /-- A raised request does nothing. -/
  | lapse
  /-- The `wfi` of the core ends. -/
  | wake
  deriving DecidableEq, Repr

namespace SlotSys

variable {ι : Type*} [DecidableEq ι] (args : ι → Word × Word)

def setCaller (s : SlotSys ι) (i : ι) (pc : CallerPc) : SlotSys ι :=
  { s with caller := Function.update s.caller i pc }

def stepCall (s : SlotSys ι) (i : ι) : Option (SlotSys ι) :=
  match s.caller i with
  | .checkOn =>
    some (s.setCaller i (if s.slot.state = .on then .done .alreadyOn else .checkPending))
  | .checkPending =>
    some (s.setCaller i (if s.slot.state = .onPending then .done .onPending else .storeEntry))
  | .storeEntry =>
    some ({ s with slot := { s.slot with entry := (args i).1 } }.setCaller i .storeContext)
  | .storeContext =>
    some ({ s with slot := { s.slot with context := (args i).2 } }.setCaller i .storePending)
  | .storePending =>
    some ({ s with slot := { s.slot with state := .onPending } }.setCaller i .powerOn)
  | .powerOn => some ({ s with requests := s.requests + 1 }.setCaller i (.done .success))
  | .done _ => none

def stepCore (s : SlotSys ι) : Option (SlotSys ι) :=
  match s.core with
  | .testSlot f =>
    some { s with core := if s.slot.state = .onPending then .storeOn f else .asleep f }
  | .storeOn .cpuOff =>
    some { s with slot := { s.slot with state := .on }, core := .loadEntry .cpuOff }
  | .storeOn .psciSecondaryEntry =>
    some { s with slot := { s.slot with state := .on }, core := .printEntry }
  | .printEntry => some { s with core := .loadEntry .psciSecondaryEntry }
  | .loadEntry f => some { s with core := .loadContext f s.slot.entry }
  | .loadContext _ entry =>
    some { s with core := .nonSecure, entered := s.entered ++ [(entry, s.slot.context)] }
  | .storeOff =>
    some { s with slot := { s.slot with state := .off }, core := .testSlot .cpuOff }
  | .unpowered | .asleep _ | .nonSecure => none

/-- One turn. A restart takes effect when the core arrives in `waitForCpuOn`: its way there, from
the reset vector on, touches nothing of the slot. -/
def step (s : SlotSys ι) : SlotAction ι → Option (SlotSys ι)
  | .call i => s.stepCall args i
  | .core => s.stepCore
  | .cpuOff => if s.core = .nonSecure then some { s with core := .storeOff } else none
  | .restart =>
    if s.requests = 0 then none
    else some { s with core := .testSlot .psciSecondaryEntry, requests := s.requests - 1 }
  | .lapse => if s.requests = 0 then none else some { s with requests := s.requests - 1 }
  | .wake =>
    match s.core with
    | .asleep f => some { s with core := .testSlot f }
    | _ => none

/-! ## What a step can do -/

/-- One access of the call `i`. -/
inductive CallAccess (s : SlotSys ι) (i : ι) : SlotSys ι → Prop
  | alreadyOn (hpc : s.caller i = .checkOn) (hon : s.slot.state = .on) :
      CallAccess s i (s.setCaller i (.done .alreadyOn))
  | notOn (hpc : s.caller i = .checkOn) (hon : s.slot.state ≠ .on) :
      CallAccess s i (s.setCaller i .checkPending)
  | onPending (hpc : s.caller i = .checkPending) (hpending : s.slot.state = .onPending) :
      CallAccess s i (s.setCaller i (.done .onPending))
  | passes (hpc : s.caller i = .checkPending) (hpending : s.slot.state ≠ .onPending) :
      CallAccess s i (s.setCaller i .storeEntry)
  | storeEntry (hpc : s.caller i = .storeEntry) :
      CallAccess s i
        ({ s with slot := { s.slot with entry := (args i).1 } }.setCaller i .storeContext)
  | storeContext (hpc : s.caller i = .storeContext) :
      CallAccess s i
        ({ s with slot := { s.slot with context := (args i).2 } }.setCaller i .storePending)
  | storePending (hpc : s.caller i = .storePending) :
      CallAccess s i
        ({ s with slot := { s.slot with state := .onPending } }.setCaller i .powerOn)
  | powerOn (hpc : s.caller i = .powerOn) :
      CallAccess s i ({ s with requests := s.requests + 1 }.setCaller i (.done .success))

/-- One access of the core. -/
inductive CoreAccess (s : SlotSys ι) : SlotSys ι → Prop
  | leaves {f : WaitCaller} (hcore : s.core = .testSlot f) (hpending : s.slot.state = .onPending) :
      CoreAccess s { s with core := .storeOn f }
  | sleeps {f : WaitCaller} (hcore : s.core = .testSlot f) (hpending : s.slot.state ≠ .onPending) :
      CoreAccess s { s with core := .asleep f }
  | storeOn {f : WaitCaller} {core : CorePc} (hcore : s.core = .storeOn f)
      (hnext : core = .loadEntry .cpuOff ∨ core = .printEntry) :
      CoreAccess s { s with slot := { s.slot with state := .on }, core }
  | printEntry (hcore : s.core = .printEntry) :
      CoreAccess s { s with core := .loadEntry .psciSecondaryEntry }
  | loadEntry {f : WaitCaller} (hcore : s.core = .loadEntry f) :
      CoreAccess s { s with core := .loadContext f s.slot.entry }
  | loadContext {f : WaitCaller} {entry : Word} (hcore : s.core = .loadContext f entry) :
      CoreAccess s
        { s with core := .nonSecure, entered := s.entered ++ [(entry, s.slot.context)] }
  | storeOff (hcore : s.core = .storeOff) :
      CoreAccess s { s with slot := { s.slot with state := .off }, core := .testSlot .cpuOff }

/-- One step. -/
inductive Moves (s : SlotSys ι) : SlotAction ι → SlotSys ι → Prop
  | call {i : ι} {s' : SlotSys ι} (haccess : CallAccess args s i s') : Moves s (.call i) s'
  | core {s' : SlotSys ι} (haccess : CoreAccess s s') : Moves s .core s'
  | cpuOff (hcore : s.core = .nonSecure) : Moves s .cpuOff { s with core := .storeOff }
  | restart (hrequests : s.requests ≠ 0) :
      Moves s .restart
        { s with core := .testSlot .psciSecondaryEntry, requests := s.requests - 1 }
  | lapse (hrequests : s.requests ≠ 0) : Moves s .lapse { s with requests := s.requests - 1 }
  | wake {f : WaitCaller} (hcore : s.core = .asleep f) :
      Moves s .wake { s with core := .testSlot f }

variable {args} in
theorem callAccess_of_stepCall {s s' : SlotSys ι} {i : ι} (h : s.stepCall args i = some s') :
    CallAccess args s i s' := by
  cases hpc : s.caller i <;>
    simp only [stepCall, hpc, Option.some.injEq, reduceCtorEq] at h <;> subst h
  case checkOn =>
    by_cases hon : s.slot.state = .on
    · rw [if_pos hon]
      exact .alreadyOn hpc hon
    · rw [if_neg hon]
      exact .notOn hpc hon
  case checkPending =>
    by_cases hpending : s.slot.state = .onPending
    · rw [if_pos hpending]
      exact .onPending hpc hpending
    · rw [if_neg hpending]
      exact .passes hpc hpending
  case storeEntry => exact .storeEntry hpc
  case storeContext => exact .storeContext hpc
  case storePending => exact .storePending hpc
  case powerOn => exact .powerOn hpc

omit [DecidableEq ι] in
theorem coreAccess_of_stepCore {s s' : SlotSys ι} (h : s.stepCore = some s') :
    CoreAccess s s' := by
  cases hcore : s.core
  case storeOn f =>
    cases f <;> simp only [stepCore, hcore, Option.some.injEq] at h <;> subst h
    case cpuOff => exact .storeOn hcore (.inl rfl)
    case psciSecondaryEntry => exact .storeOn hcore (.inr rfl)
  all_goals simp only [stepCore, hcore, Option.some.injEq, reduceCtorEq] at h <;> subst h
  case testSlot f =>
    by_cases hpending : s.slot.state = .onPending
    · rw [if_pos hpending]
      exact .leaves hcore hpending
    · rw [if_neg hpending]
      exact .sleeps hcore hpending
  case printEntry => exact .printEntry hcore
  case loadEntry => exact .loadEntry hcore
  case loadContext => exact .loadContext hcore
  case storeOff => exact .storeOff hcore

variable {args} in
/-- **Inversion.** What is said of every step is said of these. -/
theorem moves_of_step {s s' : SlotSys ι} {a : SlotAction ι} (h : s.step args a = some s') :
    Moves args s a s' := by
  cases a with
  | call i => exact .call (callAccess_of_stepCall h)
  | core => exact .core (coreAccess_of_stepCore h)
  | cpuOff =>
    simp only [step, Option.ite_none_right_eq_some, Option.some.injEq] at h
    obtain ⟨hcore, rfl⟩ := h
    exact .cpuOff hcore
  | restart =>
    simp only [step, Option.ite_none_left_eq_some, Option.some.injEq] at h
    obtain ⟨hrequests, rfl⟩ := h
    exact .restart hrequests
  | lapse =>
    simp only [step, Option.ite_none_left_eq_some, Option.some.injEq] at h
    obtain ⟨hrequests, rfl⟩ := h
    exact .lapse hrequests
  | wake =>
    cases hcore : s.core <;> simp only [step, hcore, reduceCtorEq, Option.some.injEq] at h
    exact h ▸ .wake hcore

/-! ## A call on its own -/

section Alone

variable {s : SlotSys ι} {i : ι}

@[simp] theorem setCaller_self (s : SlotSys ι) (i : ι) (pc : CallerPc) :
    (s.setCaller i pc).caller i = pc := Function.update_self ..

@[simp] theorem setCaller_slot (s : SlotSys ι) (i : ι) (pc : CallerPc) :
    (s.setCaller i pc).slot = s.slot := rfl

theorem setCaller_of_ne {i j : ι} (h : j ≠ i) (s : SlotSys ι) (pc : CallerPc) :
    (s.setCaller i pc).caller j = s.caller j := Function.update_of_ne h ..

/-- What holds of every call, after one of them has moved. -/
theorem forall_setCaller (s : SlotSys ι) (i : ι) (pc : CallerPc) (P : ι → CallerPc → Prop) :
    (∀ j, P j ((s.setCaller i pc).caller j)) ↔ P i pc ∧ ∀ j, j ≠ i → P j (s.caller j) :=
  Function.forall_update_iff _ P

/-- With nobody between its accesses, a call returns what `cpuOn` returns and leaves the slot as
`cpuOn` does. -/
theorem call_alone (startup : Word) (p : Psci) {target : Word} {cpu : CpuId}
    (htarget : mpidrToCpu target = some cpu) (hslot : s.slot = p.cpus cpu)
    (hpc : s.caller i = .checkOn) :
    ∃ n s', Lts.run (step args) s (List.replicate n (.call i)) = some s' ∧
      s'.caller i = .done (p.cpuOn startup target (args i).1 (args i).2).1 ∧
      s'.slot = (p.cpuOn startup target (args i).1 (args i).2).2.cpus cpu := by
  cases hstate : (p.cpus cpu).state with
  | on =>
    refine ⟨1, s.setCaller i (.done .alreadyOn), ?_, ?_, ?_⟩
    · simp [Lts.run, step, stepCall, hpc, hslot, hstate]
    · simp [Psci.cpuOn, htarget, hstate]
    · simp [Psci.cpuOn, htarget, hstate, hslot]
  | onPending =>
    refine ⟨2, (s.setCaller i .checkPending).setCaller i (.done .onPending), ?_, ?_, ?_⟩
    · simp [Lts.run, step, stepCall, hpc, hslot, hstate]
    · simp [Psci.cpuOn, htarget, hstate]
    · simp [Psci.cpuOn, htarget, hstate, hslot]
  | off =>
    refine ⟨6, ?_⟩
    simp only [List.replicate, Lts.run, step, stepCall, hpc, hslot, hstate, setCaller_self,
      setCaller_slot, reduceCtorEq, if_false, Option.bind_some]
    refine ⟨_, rfl, ?_, ?_⟩
    · simp [Psci.cpuOn, htarget, hstate]
    · simp [Psci.cpuOn, htarget, hstate, Psci.setSlot, Psci.record]

end Alone

end SlotSys

end Gec6818Bl1
