import Gec6818Bl1.Psci.Handler

/-!
# PSCI run safety

What a run of the handler looks like from one core. The three-valued slot, the pair in it and the
place the core is at move together, in four ways: the core is moved about at EL3, it calls
`CPU_OFF`, a `CPU_ON` for it succeeds, it enters the non-secure world. `CoreMove` is this life
cycle, and every step of the handler is a move of each core (`step_coreMove`).

**Run safety.** In every run from `psciInit(boot)`, the successful `CPU_ON`s for a core and its
entries alternate, and each entry is at the entry point of the `CPU_ON` before it, with its
context in `x0`. The invariant is that the slot is `ON_PENDING`, with the pair of the last
`CPU_ON`, exactly while that `CPU_ON` still waits for its entry; a core in the non-secure world
has its slot `ON`, so neither `CPU_ON` nor a wake-up touches it.

Nothing here limits how often a core is powered up or woken.
-/

namespace Gec6818Bl1

/-! ## The record of one core -/

/-- `CPU_ON`s and entries alternate, and each entry has the pair of the `CPU_ON` before it. -/
def Matched : List PsciEvent → Prop
  | [] => True
  | [.cpuOn _ _] => True
  | .cpuOn entry context :: .enter pc x0 :: l => pc = entry ∧ x0 = context ∧ Matched l
  | _ => False

/-- The `CPU_ON` that has not been entered yet. -/
def outstanding (l : List PsciEvent) : Option (Word × Word) :=
  match l.getLast? with
  | some (.cpuOn entry context) => some (entry, context)
  | _ => none

@[simp] theorem outstanding_nil : outstanding [] = none := rfl

@[simp] theorem outstanding_append_cpuOn (l : List PsciEvent) (entry context : Word) :
    outstanding (l ++ [.cpuOn entry context]) = some (entry, context) := by
  simp [outstanding]

@[simp] theorem outstanding_append_enter (l : List PsciEvent) (pc x0 : Word) :
    outstanding (l ++ [.enter pc x0]) = none := by
  simp [outstanding]

/-- A finished pair at the front is not what is outstanding. -/
theorem outstanding_pair (e : PsciEvent) (pc x0 : Word) (l : List PsciEvent) :
    outstanding (e :: .enter pc x0 :: l) = outstanding l := by
  cases l with
  | nil => rfl
  | cons e' l => simp only [outstanding, List.getLast?_cons_cons]

theorem Matched.cpuOn {l : List PsciEvent} (h : Matched l) (hout : outstanding l = none)
    (entry context : Word) : Matched (l ++ [.cpuOn entry context]) := by
  fun_induction Matched l with
  | case1 => trivial
  | case2 => simp [outstanding] at hout
  | case3 e x pc x0 l ih =>
    obtain ⟨hpc, hx0, hl⟩ := h
    exact ⟨hpc, hx0, ih hl (outstanding_pair _ _ _ l ▸ hout)⟩
  | case4 => exact h.elim

theorem Matched.enter {l : List PsciEvent} (h : Matched l) {entry context : Word}
    (hout : outstanding l = some (entry, context)) :
    Matched (l ++ [.enter entry context]) := by
  fun_induction Matched l with
  | case1 => simp [outstanding] at hout
  | case2 e x =>
    obtain ⟨rfl, rfl⟩ := Prod.mk.inj (Option.some.inj hout)
    exact ⟨rfl, rfl, trivial⟩
  | case3 e x pc x0 l ih =>
    obtain ⟨hpc, hx0, hl⟩ := h
    exact ⟨hpc, hx0, ih hl (outstanding_pair _ _ _ l ▸ hout)⟩
  | case4 => exact h.elim

/-! ## The life cycle of one core -/

structure CoreView where
  slot : CpuSlot
  loc : CoreLoc
  events : List PsciEvent

def Psci.view (s : Psci) (cpu : CpuId) : CoreView := ⟨s.cpus cpu, s.loc cpu, s.events cpu⟩

/-- What one step of the handler can do to a core. -/
inductive CoreMove : CoreView → CoreView → Prop where
  /-- Nothing, or a move at EL3 that leaves the slot alone. -/
  | stay {slot : CpuSlot} {loc loc' : CoreLoc} {events : List PsciEvent}
      (h : loc' = loc ∨ loc' ≠ .nonSecure) : CoreMove ⟨slot, loc, events⟩ ⟨slot, loc', events⟩
  | off {slot : CpuSlot} {events : List PsciEvent} (regs : Regs) :
      CoreMove ⟨slot, .nonSecure, events⟩
        ⟨{ slot with state := .off }, .parkedInSmc regs, events⟩
  | on {slot : CpuSlot} {loc : CoreLoc} {events : List PsciEvent} (h : slot.state = .off)
      (entry context : Word) : CoreMove ⟨slot, loc, events⟩
        ⟨⟨.onPending, entry, context⟩, loc, events ++ [.cpuOn entry context]⟩
  | enter {slot : CpuSlot} {loc : CoreLoc} {events : List PsciEvent}
      (h : slot.state = .onPending) : CoreMove ⟨slot, loc, events⟩
        ⟨{ slot with state := .on }, .nonSecure, events ++ [.enter slot.entry slot.context]⟩

theorem CoreMove.refl (v : CoreView) : CoreMove v v := CoreMove.stay (Or.inl rfl)

/-- The only way into the non-secure world is an entry. -/
theorem CoreMove.entered {v v' : CoreView} (h : CoreMove v v') (hout : v.loc ≠ .nonSecure)
    (hin : v'.loc = .nonSecure) :
    v'.events = v.events ++ [.enter v.slot.entry v.slot.context] := by
  cases h with
  | stay h =>
    rcases h with rfl | hne
    · exact absurd hin hout
    · exact absurd hin hne
  | off regs => cases hin
  | on => exact absurd hin hout
  | enter => rfl

/-- The slot and the record of a core agree, and a core outside EL3 is on. The boot core is there
from the start, the others have entered. -/
structure CoreInv (isBoot : Prop) (v : CoreView) : Prop where
  matched : Matched v.events
  pending : outstanding v.events =
    if v.slot.state = .onPending then some (v.slot.entry, v.slot.context) else none
  running : v.loc = .nonSecure → v.slot.state = .on
  entered : v.loc = .nonSecure → isBoot ∨ ∃ pc x0, .enter pc x0 ∈ v.events

theorem CoreInv.move {isBoot : Prop} {v v' : CoreView} (hv : CoreInv isBoot v)
    (h : CoreMove v v') : CoreInv isBoot v' := by
  obtain ⟨hmatched, hpending, hrunning, hentered⟩ := hv
  cases h with
  | stay h =>
    rcases h with rfl | hne
    · exact ⟨hmatched, hpending, hrunning, hentered⟩
    · exact ⟨hmatched, hpending, fun hns => absurd hns hne, fun hns => absurd hns hne⟩
  | off regs =>
    have hon := hrunning rfl
    simp only at hon
    refine ⟨hmatched, ?_, nofun, nofun⟩
    rw [hpending, if_neg (by simp [hon]), if_neg (by simp)]
  | on hoff entry context =>
    simp only [hoff, reduceCtorEq, if_false] at hpending
    refine ⟨hmatched.cpuOn hpending entry context, ?_, fun hns => ?_, fun hns => ?_⟩
    · rw [outstanding_append_cpuOn, if_pos rfl]
    · have hon := hrunning hns
      simp [hoff] at hon
    · obtain hboot | ⟨pc, x0, hmem⟩ := hentered hns
      · exact Or.inl hboot
      · exact Or.inr ⟨pc, x0, List.mem_append_left _ hmem⟩
  | enter hslot =>
    simp only [hslot, if_true] at hpending
    refine ⟨hmatched.enter hpending, ?_, fun _ => rfl, fun _ => Or.inr ?_⟩
    · rw [outstanding_append_enter, if_neg (by simp)]
    · exact ⟨_, _, List.mem_append_right _ (List.mem_singleton_self _)⟩

/-! ## Every step is a move of each core -/

namespace Psci

variable {startup : Word} {s s' : Psci} {cpu c : CpuId}

theorem setLoc_move {loc : CoreLoc} (h : loc ≠ .nonSecure) :
    CoreMove (s.view c) ((s.setLoc cpu loc).view c) := by
  by_cases hc : c = cpu
  · subst hc
    simp only [view, setLoc, Function.update_self]
    exact .stay (Or.inr h)
  · simp only [view, setLoc, Function.update_of_ne hc]
    exact CoreMove.refl _

theorem cpuOff_move (regs : Regs) (hloc : s.loc cpu = .nonSecure) :
    CoreMove (s.view c) ((s.cpuOff cpu regs).view c) := by
  by_cases hc : c = cpu
  · subst hc
    simp only [view, cpuOff, setLoc, setSlot, Function.update_self, hloc]
    exact .off regs
  · simp only [view, cpuOff, setLoc, setSlot, Function.update_of_ne hc]
    exact CoreMove.refl _

theorem cpuOn_move (target entry context : Word) :
    CoreMove (s.view c) ((s.cpuOn startup target entry context).2.view c) := by
  rcases cpuOn_cases startup s target entry context with ⟨-, hsame⟩ | ⟨cpu, -, hoff, hon⟩
  · rw [hsame]
    exact CoreMove.refl _
  · rw [hon]
    by_cases hc : c = cpu
    · subst hc
      simp only [view, record, setSlot, Function.update_self]
      exact .on hoff entry context
    · simp only [view, record, setSlot, Function.update_of_ne hc]
      exact CoreMove.refl _

theorem enterFromStartup_move (h : (s.cpus cpu).state = .onPending) :
    CoreMove (s.view c) ((s.enterFromStartup cpu).view c) := by
  by_cases hc : c = cpu
  · subst hc
    simp only [view, enterFromStartup, leaveWait, setLoc, setSlot, record, Function.update_self]
    exact .enter h
  · simp only [view, enterFromStartup, leaveWait, setLoc, setSlot, record,
      Function.update_of_ne hc]
    exact CoreMove.refl _

/-- The saved registers carry the context back in `x0`: both ways out of EL3 are the same entry. -/
theorem enterFromSmc_eq (regs : Regs) : s.enterFromSmc cpu regs = s.enterFromStartup cpu := by
  simp only [enterFromSmc, enterFromStartup, Function.update_self]

theorem step_coreMove {a : Action} (h : s.step startup a = some s') (c : CpuId) :
    CoreMove (s.view c) (s'.view c) := by
  cases a with
  | smc cpu regs =>
    cases hloc : s.loc cpu <;> simp only [step, hloc, Option.some.injEq, reduceCtorEq] at h
    subst h
    rcases psciHandler_cases startup s cpu regs with h | h | h | h <;> rw [h]
    · exact CoreMove.refl _
    · exact cpuOff_move regs hloc
    · exact cpuOn_move _ _ _
    · exact setLoc_move nofun
  | powerUp cpu =>
    obtain rfl := Option.some.inj h
    unfold subCPUBoot
    by_cases hpending : (s.cpus cpu).state = .onPending
    · simp only [hpending, if_true]
      exact enterFromStartup_move (s := { s with power := s.power.clearWakeup }) hpending
    · simp only [hpending, if_false]
      exact setLoc_move (s := { s with power := s.power.clearWakeup }) nofun
  | wakeUp cpu =>
    cases hloc : s.loc cpu <;> simp only [step, wakeUp, hloc, Option.some.injEq, reduceCtorEq] at h
    · subst h
      split
      · rename_i hpending
        rw [enterFromSmc_eq]
        exact enterFromStartup_move hpending
      · exact CoreMove.refl _
    · subst h
      split
      · rename_i hpending
        exact enterFromStartup_move hpending
      · exact CoreMove.refl _

theorem psciInit_inv (boot : CpuId) (power : PowerRegs) (c : CpuId) :
    CoreInv (c = boot) ((psciInit boot power).view c) := by
  by_cases hc : c = boot
  · exact ⟨trivial, by simp [view, psciInit, hc], fun _ => by simp [view, psciInit, hc],
      fun _ => Or.inl hc⟩
  · exact ⟨trivial, by simp [view, psciInit, hc], by simp [view, psciInit, hc],
      by simp [view, psciInit, hc]⟩

theorem run_inv {boot : CpuId} {power : PowerRegs} {as : List Action}
    (h : Lts.run (step startup) (psciInit boot power) as = some s) (c : CpuId) :
    CoreInv (c = boot) (s.view c) :=
  Lts.run_invariant (P := fun s => ∀ c, CoreInv (c = boot) (view s c))
    (fun _ _ _ hs hstep c => (hs c).move (step_coreMove hstep c)) (psciInit_inv boot power) h c

/-- A `CPU_ON` that returns an error changes nothing. -/
theorem cpuOn_error {regs regs' : Regs}
    (hfn : regs 0 &&& 0xFFFFFFFF = PsciFunction.cpuOn ∨
      regs 0 &&& 0xFFFFFFFF = PsciFunction.cpuOn64)
    (h : s.psciHandler startup cpu regs = (s', some regs')) (herr : regs' 0 ≠ 0) :
    s' = s := by
  rw [psciHandler_cpuOn startup s cpu hfn, Prod.mk.injEq, Option.some.injEq] at h
  obtain ⟨rfl, rfl⟩ := h
  rw [Function.update_self, ne_eq, PsciErrorCodes.code_eq_zero] at herr
  rcases cpuOn_cases startup s (regs 1) (regs 2) (regs 3) with ⟨-, hsame⟩ | ⟨_, -, -, hon⟩
  · exact hsame
  · exact absurd (by rw [hon]) herr

/-- A `CPU_ON` that returns success is on its target's record. -/
theorem cpuOn_success {regs regs' : Regs}
    (hfn : regs 0 &&& 0xFFFFFFFF = PsciFunction.cpuOn ∨
      regs 0 &&& 0xFFFFFFFF = PsciFunction.cpuOn64)
    (h : s.psciHandler startup cpu regs = (s', some regs')) (hok : regs' 0 = 0) :
    ∃ t, mpidrToCpu (regs 1) = some t ∧
      s'.events t = s.events t ++ [.cpuOn (regs 2) (regs 3)] := by
  rw [psciHandler_cpuOn startup s cpu hfn, Prod.mk.injEq, Option.some.injEq] at h
  obtain ⟨rfl, rfl⟩ := h
  rw [Function.update_self, PsciErrorCodes.code_eq_zero] at hok
  rcases cpuOn_cases startup s (regs 1) (regs 2) (regs 3) with ⟨herr, -⟩ | ⟨t, ht, -, hon⟩
  · exact absurd hok herr
  · refine ⟨t, ht, ?_⟩
    rw [hon]
    simp only [record, setSlot, Function.update_self]

/-- A `CPU_ON` returns success exactly if it is put on its target's record. -/
theorem cpuOn_success_iff {regs regs' : Regs}
    (hfn : regs 0 &&& 0xFFFFFFFF = PsciFunction.cpuOn ∨
      regs 0 &&& 0xFFFFFFFF = PsciFunction.cpuOn64)
    (h : s.psciHandler startup cpu regs = (s', some regs')) :
    regs' 0 = 0 ↔ ∃ t, mpidrToCpu (regs 1) = some t ∧
      s'.events t = s.events t ++ [.cpuOn (regs 2) (regs 3)] := by
  constructor
  · exact cpuOn_success hfn h
  · rintro ⟨t, -, hrecord⟩
    by_contra herr
    rw [cpuOn_error hfn h herr, List.self_eq_append_right] at hrecord
    cases hrecord

theorem enterFromStartup_events (c : CpuId) :
    (s.enterFromStartup cpu).events c = s.events c ∨
      ∃ pc x0, (s.enterFromStartup cpu).events c = s.events c ++ [.enter pc x0] := by
  by_cases hc : c = cpu
  · subst hc
    simp only [enterFromStartup, leaveWait, setLoc, setSlot, record, Function.update_self]
    exact Or.inr ⟨_, _, rfl⟩
  · simp only [enterFromStartup, leaveWait, setLoc, setSlot, record, Function.update_of_ne hc]
    exact Or.inl trivial

/-- A step that is no `CPU_ON` records an entry at most. -/
theorem step_events {a : Action} (h : s.step startup a = some s')
    (hother : ∀ cpu regs, a = .smc cpu regs → ¬ (regs 0 &&& 0xFFFFFFFF = PsciFunction.cpuOn ∨
      regs 0 &&& 0xFFFFFFFF = PsciFunction.cpuOn64)) (c : CpuId) :
    s'.events c = s.events c ∨ ∃ pc x0, s'.events c = s.events c ++ [.enter pc x0] := by
  cases a with
  | smc cpu regs =>
    cases hloc : s.loc cpu <;> simp only [step, hloc, Option.some.injEq, reduceCtorEq] at h
    subst h
    refine Or.inl ?_
    unfold psciHandler
    dsimp only
    rw [if_neg (hother cpu regs rfl)]
    split_ifs <;> rfl
  | powerUp cpu =>
    obtain rfl := Option.some.inj h
    unfold subCPUBoot
    dsimp only
    split
    · exact enterFromStartup_events (s := { s with power := s.power.clearWakeup }) c
    · exact Or.inl rfl
  | wakeUp cpu =>
    cases hloc : s.loc cpu <;> simp only [step, wakeUp, hloc, Option.some.injEq, reduceCtorEq] at h
    · subst h
      split
      · rw [enterFromSmc_eq]
        exact enterFromStartup_events c
      · exact Or.inl rfl
    · subst h
      split
      · exact enterFromStartup_events c
      · exact Or.inl rfl

/-- Only a `CPU_ON` puts one on the record. -/
theorem step_records_cpuOn {a : Action} {entry context : Word} (h : s.step startup a = some s')
    (hrecord : s'.events c = s.events c ++ [.cpuOn entry context]) :
    ∃ cpu regs, a = .smc cpu regs ∧ (regs 0 &&& 0xFFFFFFFF = PsciFunction.cpuOn ∨
      regs 0 &&& 0xFFFFFFFF = PsciFunction.cpuOn64) := by
  by_contra hno
  obtain hsame | ⟨pc, x0, henter⟩ :=
    step_events h (fun cpu regs ha hfn => hno ⟨cpu, regs, ha, hfn⟩) c
  · rw [hsame, List.self_eq_append_right] at hrecord
    cases hrecord
  · rw [henter, List.append_cancel_left_eq] at hrecord
    cases hrecord

/-- **Run safety.** After `psciInit(boot)`, whatever calls, power-ups and wake-ups follow: `CPU_ON`s
and entries match on every core's record. The record is what happens: a `CPU_ON` is on it exactly
if it returns success, and every way into the non-secure world is. -/
theorem psci_run_safe {boot : CpuId} {power : PowerRegs} {as : List Action}
    (h : Lts.run (step startup) (psciInit boot power) as = some s) :
    (∀ c, Matched (s.events c)) ∧
    (∀ c, s.loc c = .nonSecure → c = boot ∨ ∃ pc x0, .enter pc x0 ∈ s.events c) ∧
    (∀ cpu regs regs' s', (regs 0 &&& 0xFFFFFFFF = PsciFunction.cpuOn ∨
      regs 0 &&& 0xFFFFFFFF = PsciFunction.cpuOn64) →
      s.psciHandler startup cpu regs = (s', some regs') →
      (regs' 0 = 0 ↔ ∃ t, mpidrToCpu (regs 1) = some t ∧
        s'.events t = s.events t ++ [.cpuOn (regs 2) (regs 3)]) ∧
      (regs' 0 ≠ 0 → s'.cpus = s.cpus ∧ s'.power = s.power)) ∧
    ∀ a s' c, s.step startup a = some s' →
      (∀ entry context, s'.events c = s.events c ++ [.cpuOn entry context] →
        ∃ cpu regs, a = .smc cpu regs ∧ (regs 0 &&& 0xFFFFFFFF = PsciFunction.cpuOn ∨
          regs 0 &&& 0xFFFFFFFF = PsciFunction.cpuOn64)) ∧
      (s.loc c ≠ .nonSecure → s'.loc c = .nonSecure →
        s'.events c = s.events c ++ [.enter (s.cpus c).entry (s.cpus c).context]) := by
  refine ⟨fun c => (run_inv h c).matched, fun c => (run_inv h c).entered, ?_, ?_⟩
  · intro cpu regs regs' s' hfn hcall
    refine ⟨cpuOn_success_iff hfn hcall, fun herr => ?_⟩
    obtain rfl := cpuOn_error hfn hcall herr
    exact ⟨rfl, rfl⟩
  · intro a s' c hstep
    exact ⟨fun _ _ hrecord => step_records_cpuOn hstep hrecord, (step_coreMove hstep c).entered⟩

/-- Core 0 turns core 1 on, core 1 turns itself off, and core 0 turns it on again. -/
def hotplug : List Action :=
  let call (function x1 x2 x3 : Word) : Regs := fun i =>
    if i = 0 then function else if i = 1 then x1 else if i = 2 then x2
    else if i = 3 then x3 else 0
  [.smc 0 (call PsciFunction.cpuOn64 1 0x8000 7), .powerUp 1,
    .smc 1 (call PsciFunction.cpuOff 0 0 0),
    .smc 0 (call PsciFunction.cpuOn64 1 0x9000 8), .wakeUp 1]

def resetPower : PowerRegs := { tieoffreg := fun _ => 0, cpuresetmode := 0, cpupoweronreq := 0 }

def hotplugEnd : Psci :=
  (Lts.run (step 0xFFFF0200) (psciInit 0 resetPower) hotplug).getD (psciInit 0 resetPower)

theorem psci_hotplug_safe :
    hotplugEnd.events 1 =
      [.cpuOn 0x8000 7, .enter 0x8000 7, .cpuOn 0x9000 8, .enter 0x9000 8] ∧
    Matched (hotplugEnd.events 1) := by
  have hrun : Lts.run (step 0xFFFF0200) (psciInit 0 resetPower) hotplug = some hotplugEnd := rfl
  exact ⟨by decide, (psci_run_safe hrun).1 1⟩

end Psci

end Gec6818Bl1
