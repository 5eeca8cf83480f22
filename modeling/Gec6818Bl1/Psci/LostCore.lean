import Gec6818Bl1.Psci.Interleaving
import Mathlib.Data.Fintype.Basic

/-!
# A core that sleeps while it is on

A core that calls `CPU_OFF` stores `OFF` and tests its slot before it sleeps. A `CPU_ON` can fall in
between: the core then finds itself `ON_PENDING` at its first test, leaves the wait and runs, and
only afterwards does the caller raise the power-on request. If this request restarts the core, it
comes back to `waitForCpuOn` with its slot `ON`, where nothing wakes it any more.

**Lost core.** In a run from a core in the non-secure world, the slot is never `ON` while the core
is inside `waitForCpuOn` exactly if no request restarts the core while its slot is `ON`. This
holds for any number of `cpuOn` calls and `cpuOff`s. The core's own accesses are not to blame: it
comes to the wait with the slot just set to `OFF`, no call stores `ON`, and its own store of `ON`
takes it out of the wait.
-/

namespace Gec6818Bl1

/-- At the loop test, in `wfi`, or about to store `ON`. -/
def CorePc.InWait (pc : CorePc) : Prop :=
  (∃ f, pc = testSlot f) ∨ (∃ f, pc = asleep f) ∨ ∃ f, pc = storeOn f

namespace SlotSys

variable {ι : Type*} {args : ι → Word × Word} {s s' : SlotSys ι}

/-- The core runs in the non-secure world, and no call has begun. -/
def running (entry context : Word) : SlotSys ι where
  slot := { state := .on, entry, context }
  caller _ := .checkOn
  core := .nonSecure
  requests := 0
  entered := []

/-- The kernel was told that the core is on, and it is asleep at EL3. -/
def Lost (s : SlotSys ι) : Prop := s.slot.state = .on ∧ s.core.InWait

/-- A request restarts the core only while its slot is not `ON`. -/
def RestartsOff (s : SlotSys ι) : SlotAction ι → Prop
  | .restart => s.slot.state ≠ .on
  | _ => True

instance (s : SlotSys ι) : (a : SlotAction ι) → Decidable (s.RestartsOff a)
  | .restart => inferInstanceAs (Decidable (s.slot.state ≠ .on))
  | .call _ | .core | .cpuOff | .lapse | .wake => isTrue trivial

theorem not_lost_coreAccess (h : ¬ s.Lost) (haccess : CoreAccess s s') : ¬ s'.Lost := by
  rintro ⟨hon, hwait⟩
  cases haccess with
  | leaves hcore _ => exact h ⟨hon, Or.inl ⟨_, hcore⟩⟩
  | sleeps hcore _ => exact h ⟨hon, Or.inl ⟨_, hcore⟩⟩
  | storeOn _ hnext => rcases hnext with rfl | rfl <;> simp [CorePc.InWait] at hwait
  | storeOff _ => simp at hon
  | _ => simp [CorePc.InWait] at hwait

section Run

variable [DecidableEq ι]

/-- The accesses of a call move neither the core nor the slot to `ON`. -/
theorem not_lost_callAccess {i : ι} (h : ¬ s.Lost) (haccess : CallAccess args s i s') :
    ¬ s'.Lost := by
  cases haccess with
  | storePending _ =>
    rintro ⟨hon, -⟩
    simp [setCaller] at hon
  | _ => exact h

theorem not_lost_step {a : SlotAction ι} (h : ¬ s.Lost) (hguard : s.RestartsOff a)
    (hstep : s.step args a = some s') : ¬ s'.Lost := by
  cases moves_of_step hstep with
  | call haccess => exact not_lost_callAccess h haccess
  | core haccess => exact not_lost_coreAccess h haccess
  | cpuOff _ =>
    rintro ⟨-, hwait⟩
    simp [CorePc.InWait] at hwait
  | restart _ => exact fun hlost => hguard hlost.1
  | lapse _ => exact h
  | wake hcore => exact fun hlost => h ⟨hlost.1, Or.inr (Or.inl ⟨_, hcore⟩)⟩

/-- A restart with the slot `ON` loses the core at once. -/
theorem lost_of_restart {a : SlotAction ι} (hstep : s.step args a = some s') (h : ¬ s'.Lost) :
    s.RestartsOff a := by
  cases moves_of_step hstep with
  | restart _ => exact fun hon => h ⟨hon, Or.inl ⟨_, rfl⟩⟩
  | _ => trivial

/-- **Lost core.** A run loses the core in none of its states iff every restart finds the slot not
`ON`. -/
theorem never_lost_iff (entry context : Word) (as : List (SlotAction ι)) :
    Lts.Always (SlotSys.step args) (fun s => ¬ s.Lost) (running entry context) as ↔
      Lts.Guarded (SlotSys.step args) RestartsOff (running entry context) as := by
  have hstart : ¬ (running (ι := ι) entry context).Lost := fun ⟨_, hwait⟩ => by
    simp [running, CorePc.InWait] at hwait
  constructor
  · exact fun h => Lts.guarded_of_always (fun _ _ _ hs hg hstep => not_lost_step hs hg hstep)
      (fun _ _ _ _ hstep hs' => lost_of_restart hstep hs') hstart h
  · exact fun h => Lts.always_of_invariant
      (fun _ _ _ hs hg hstep => not_lost_step hs hg hstep) hstart h

end Run

/-! ## A request that comes too late -/

/-- The core stores `OFF`; a call runs up to its request; the core leaves its wait and runs; the
request is raised and restarts it. -/
def lateRequest : List (SlotAction Unit) :=
  [.cpuOff, .core] ++ List.replicate 5 (.call ()) ++ List.replicate 4 .core ++
    [.call (), .restart, .core]

/-- The core ends asleep in `waitForCpuOn` with its slot `ON`, after a `CPU_ON` that returned
success. -/
theorem lateRequest_lost :
    ∃ s, Lts.run (step fun _ => (0x8000, 7)) (running 0 0) lateRequest = some s ∧
      s.caller () = .done .success ∧ s.entered = [(0x8000, 7)] ∧
      s.core = .asleep .psciSecondaryEntry ∧ s.Lost :=
  ⟨_, rfl, rfl, rfl, rfl, rfl, Or.inr (Or.inl ⟨_, rfl⟩)⟩

end SlotSys

end Gec6818Bl1
