import Gec6818Bl1.Psci.Interleaving
import Mathlib.Data.Fintype.Basic

/-!
# Who turns the core on

Any number of `cpuOn` calls for one core whose slot is `OFF`, interleaved access by access. The two
tests and the three stores of `cpuOn` are separate accesses without a lock, so two calls can pass
the tests before either has stored `ON_PENDING`; both then return success, and the pair in the slot
can be a mix of theirs. A call can also find the slot `OFF` at its first test and `ON`, not
`ON_PENDING`, at its second.

**Mutual exclusion.** In every run in which a call passes its second test only while the slot is
`OFF` and no other call is between that test and its store of `ON_PENDING` (`PassesAlone`), at
most one call succeeds, the others return `ALREADY_ON` or `ON_PENDING`, and the core enters
with the pair of the successful call. Two calls that race do break it (`cpuOn_race_mixes`).

The invariant is that at most one call is past its second test, and that the slot has left `OFF`
exactly when this call has stored `ON_PENDING`. While it stores, the slot is still `OFF` and the
core asleep, so nobody reads the half-written pair.
-/

namespace Gec6818Bl1

/-! ## How far a call is -/

namespace CallerPc

/-- Between its second test and its store of `ON_PENDING`. -/
def Storing (pc : CallerPc) : Prop := pc = storeEntry ∨ pc = storeContext ∨ pc = storePending

/-- After its store of `ON_PENDING`. -/
def Committed (pc : CallerPc) : Prop := pc = powerOn ∨ pc = done .success

def Passed (pc : CallerPc) : Prop := pc.Storing ∨ pc.Committed

def EntryStored (pc : CallerPc) : Prop := pc = storeContext ∨ pc = storePending ∨ pc.Committed

def ContextStored (pc : CallerPc) : Prop := pc = storePending ∨ pc.Committed

instance (pc : CallerPc) : Decidable pc.Storing := inferInstanceAs (Decidable (_ ∨ _))

theorem ContextStored.entryStored {pc : CallerPc} (h : pc.ContextStored) : pc.EntryStored :=
  Or.inr h

theorem EntryStored.passed {pc : CallerPc} (h : pc.EntryStored) : pc.Passed := by
  rcases h with h | h | h
  · exact Or.inl (Or.inr (Or.inl h))
  · exact Or.inl (Or.inr (Or.inr h))
  · exact Or.inr h

/-- Before its second test, and if a test fails, a call has stored nothing. -/
theorem unpassed (pc : CallerPc) (h : pc = checkOn ∨ pc = checkPending ∨ pc = done .alreadyOn ∨
    pc = done .onPending) : ¬ pc.Passed ∧ ¬ pc.EntryStored := by
  rcases h with rfl | rfl | rfl | rfl <;> simp [Passed, Storing, EntryStored, Committed]

end CallerPc

/-- The core has left the wait and not yet the handler. -/
def CorePc.Leaving (pc : CorePc) : Prop :=
  pc = printEntry ∨ (∃ f, pc = loadEntry f) ∨ ∃ f e, pc = loadContext f e

namespace SlotSys

variable {ι : Type*} {args : ι → Word × Word} {s s' : SlotSys ι} {i : ι}

/-- The slot is `OFF`, the core waits or is not powered, and every call is about to start. -/
structure AllCalling (s : SlotSys ι) : Prop where
  slot : s.slot.state = .off
  caller : ∀ i, s.caller i = .checkOn
  core : s.core = .unpowered ∨ (∃ f, s.core = .testSlot f) ∨ ∃ f, s.core = .asleep f
  entered : s.entered = []

/-- A call that passes its second test does so with the slot `OFF` and no other call storing. -/
def PassesAlone (s : SlotSys ι) : SlotAction ι → Prop
  | .call i => s.caller i = .checkPending → s.slot.state ≠ .onPending →
      s.slot.state = .off ∧ ∀ j, j ≠ i → ¬ (s.caller j).Storing
  | _ => True

instance [Fintype ι] [DecidableEq ι] (s : SlotSys ι) (a : SlotAction ι) :
    Decidable (s.PassesAlone a) := by
  cases a <;> unfold PassesAlone <;> infer_instance

/-- What one successful `CPU_ON` means, in any state of a run. -/
structure OneSuccess (args : ι → Word × Word) (s : SlotSys ι) : Prop where
  unique : ∀ i j, s.caller i = .done .success → s.caller j = .done .success → i = j
  results : ∀ i r, s.caller i = .done r → r = .success ∨ r = .alreadyOn ∨ r = .onPending
  /-- Once all calls have returned, one of them succeeded. -/
  exists_success : Nonempty ι → (∀ i, ∃ r, s.caller i = .done r) → ∃ i, s.caller i = .done .success
  /-- An entry has the pair of the call that succeeds, and of no other one. -/
  entered : ∀ p ∈ s.entered, ∃ i, p = args i ∧ (s.caller i).Committed ∧
    ∀ j, (s.caller j).Committed → j = i

/-! ## The invariant -/

structure RaceInv (args : ι → Word × Word) (s : SlotSys ι) : Prop where
  alone : ∀ i j, (s.caller i).Passed → (s.caller j).Passed → i = j
  committed : ∀ i, (s.caller i).Committed → s.slot.state ≠ .off
  on_committed : s.slot.state ≠ .off → ∃ i, (s.caller i).Committed
  results : ∀ i r, s.caller i = .done r →
    r = .success ∨ (r = .alreadyOn ∨ r = .onPending) ∧ s.slot.state ≠ .off
  entry : ∀ i, (s.caller i).EntryStored → s.slot.entry = (args i).1
  context : ∀ i, (s.caller i).ContextStored → s.slot.context = (args i).2
  storeOn : ∀ f, s.core = .storeOn f → s.slot.state = .onPending
  not_storeOff : s.core ≠ .storeOff
  leaving : s.core.Leaving → s.slot.state = .on
  loaded : ∀ f e, s.core = .loadContext f e → e = s.slot.entry
  entered : ∀ p ∈ s.entered, s.slot.state = .on ∧ p = (s.slot.entry, s.slot.context)

theorem AllCalling.raceInv (h : s.AllCalling) : RaceInv args s := by
  obtain ⟨hslot, hcaller, hcore, hentered⟩ := h
  have hpassed : ∀ i, ¬ (s.caller i).Passed := by
    intro i
    simp [hcaller i, CallerPc.Passed, CallerPc.Storing, CallerPc.Committed]
  refine ⟨fun i _ hi => absurd hi (hpassed i), fun i hi => absurd (Or.inr hi) (hpassed i),
    fun hon => absurd hslot hon, fun i r hr => ?_, fun i hi => ?_, fun i hi => ?_,
    fun f hf => ?_, fun hf => ?_, fun hl => ?_, fun f e hf => ?_, ?_⟩
  · simp [hcaller i] at hr
  · simp [hcaller i, CallerPc.EntryStored, CallerPc.Committed] at hi
  · simp [hcaller i, CallerPc.ContextStored, CallerPc.Committed] at hi
  · rcases hcore with h | ⟨_, h⟩ | ⟨_, h⟩ <;> simp [h] at hf
  · rcases hcore with h | ⟨_, h⟩ | ⟨_, h⟩ <;> simp [h] at hf
  · rcases hcore with h | ⟨_, h⟩ | ⟨_, h⟩ <;> simp [h, CorePc.Leaving] at hl
  · rcases hcore with h | ⟨_, h⟩ | ⟨_, h⟩ <;> simp [h] at hf
  · simp [hentered]

theorem RaceInv.oneSuccess (h : RaceInv args s) : OneSuccess args s := by
  have hcommitted : ∀ i j, (s.caller i).Committed → (s.caller j).Committed → i = j :=
    fun i j hi hj => h.alone i j (Or.inr hi) (Or.inr hj)
  refine ⟨fun i j hi hj => hcommitted i j (Or.inr hi) (Or.inr hj), fun i r hr => ?_,
    fun ⟨i⟩ hall => ?_, fun p hp => ?_⟩
  · rcases h.results i r hr with hr | ⟨hr, -⟩
    · exact Or.inl hr
    · exact Or.inr hr
  · -- the result of any call shows that the slot has left `OFF`
    obtain ⟨r, hr⟩ := hall i
    rcases h.results i r hr with rfl | ⟨-, hon⟩
    · exact ⟨i, hr⟩
    · obtain ⟨k, hk | hk⟩ := h.on_committed hon
      · obtain ⟨r', hr'⟩ := hall k
        simp [hk] at hr'
      · exact ⟨k, hk⟩
  · obtain ⟨hon, rfl⟩ := h.entered p hp
    obtain ⟨k, hk⟩ := h.on_committed (by rw [hon]; decide)
    refine ⟨k, Prod.ext (h.entry k (Or.inr (Or.inr hk))) (h.context k (Or.inr hk)), hk, ?_⟩
    exact fun j hj => hcommitted j k hj hk

/-- As long as the slot is `OFF`, nobody reads the pair in it. -/
theorem RaceInv.quiet (h : RaceInv args s) (hoff : s.slot.state = .off) :
    s.entered = [] ∧ (∀ f, s.core ≠ .storeOn f) ∧ ¬ s.core.Leaving := by
  refine ⟨List.eq_nil_iff_forall_not_mem.2 fun p hp => ?_, fun f hf => ?_, fun hl => ?_⟩
  · have hon := (h.entered p hp).1
    simp [hoff] at hon
  · have hpending := h.storeOn f hf
    simp [hoff] at hpending
  · have hon := h.leaving hl
    simp [hoff] at hon

/-- While a call stores, the slot is `OFF`. -/
theorem RaceInv.storing (h : RaceInv args s) (hi : (s.caller i).Storing) :
    s.slot.state = .off ∧ ∀ j, j ≠ i → ¬ (s.caller j).Passed := by
  refine ⟨?_, fun j hj hp => hj (h.alone j i hp (Or.inl hi))⟩
  by_contra hon
  obtain ⟨k, hk⟩ := h.on_committed hon
  obtain rfl := h.alone k i (Or.inr hk) (Or.inl hi)
  rcases hi with hi | hi | hi <;> rw [hi] at hk <;> simp [CallerPc.Committed] at hk

/-! ## One access of a call -/

section Call

variable [DecidableEq ι]

/-- A step that leaves the slot alone and the call on the same side of its second test. -/
theorem RaceInv.setCaller_unpassed (h : RaceInv args s) {pc : CallerPc}
    (hold : ¬ (s.caller i).Passed) (hnew : ¬ pc.Passed)
    (hres : ∀ r, pc = .done r → (r = .alreadyOn ∨ r = .onPending) ∧ s.slot.state ≠ .off)
    (hentry : ¬ pc.EntryStored) : RaceInv args (s.setCaller i pc) := by
  have hpassed : ∀ j, ((s.setCaller i pc).caller j).Passed → (s.caller j).Passed :=
    (forall_setCaller s i pc fun j pc => pc.Passed → (s.caller j).Passed).2
      ⟨fun hp => absurd hp hnew, fun _ _ hp => hp⟩
  have hother : ∀ k, (s.caller k).Committed → k ≠ i := by
    rintro k hk rfl
    exact hold (Or.inr hk)
  obtain ⟨halone, hcomm, hon, hresults, hent, hctx, hso, hnso, hlv, hld, hen⟩ := h
  refine ⟨fun j k hj hk => halone j k (hpassed j hj) (hpassed k hk), ?_, ?_, ?_, ?_, ?_, hso, hnso,
    hlv, hld, hen⟩
  · apply (forall_setCaller s i pc fun _ pc => pc.Committed → s.slot.state ≠ .off).2
    exact ⟨fun hc => absurd (Or.inr hc) hnew, fun j _ => hcomm j⟩
  · intro hstate
    obtain ⟨k, hk⟩ := hon hstate
    exact ⟨k, by rwa [setCaller_of_ne (hother k hk)]⟩
  · apply (forall_setCaller s i pc fun _ pc => ∀ r, pc = .done r →
      r = .success ∨ (r = .alreadyOn ∨ r = .onPending) ∧ s.slot.state ≠ .off).2
    exact ⟨fun r hr => Or.inr (hres r hr), fun j _ => hresults j⟩
  · apply (forall_setCaller s i pc fun j pc => pc.EntryStored → s.slot.entry = (args j).1).2
    exact ⟨fun he => absurd he hentry, fun j _ => hent j⟩
  · apply (forall_setCaller s i pc fun j pc => pc.ContextStored → s.slot.context = (args j).2).2
    exact ⟨fun hc => absurd hc.entryStored hentry, fun j _ => hctx j⟩

/-- A step of the one call that is storing, while nobody reads the slot. -/
theorem RaceInv.setCaller_storing (h : RaceInv args s) {pc : CallerPc} {slot : CpuSlot}
    (hoff : s.slot.state = .off) (hothers : ∀ j, j ≠ i → ¬ (s.caller j).Passed)
    (hpc : ∀ r, pc ≠ .done r) (hstate : pc.Committed ↔ slot.state ≠ .off)
    (hentry : pc.EntryStored → slot.entry = (args i).1)
    (hcontext : pc.ContextStored → slot.context = (args i).2) :
    RaceInv args ({ s with slot }.setCaller i pc) := by
  obtain ⟨hentered, hcore, hleaving⟩ := h.quiet hoff
  have honly : ∀ j, (({ s with slot }.setCaller i pc).caller j).Passed → j = i :=
    (forall_setCaller { s with slot } i pc fun j pc => pc.Passed → j = i).2
      ⟨fun _ => rfl, fun j hj hp => absurd hp (hothers j hj)⟩
  refine ⟨fun j k hj hk => (honly j hj).trans (honly k hk).symm, ?_, ?_, ?_, ?_, ?_,
    fun f hf => absurd hf (hcore f), h.not_storeOff, fun hl => absurd hl hleaving, ?_, ?_⟩
  · intro j hj
    obtain rfl := honly j (Or.inr hj)
    rw [setCaller_self] at hj
    exact hstate.1 hj
  · intro hs
    exact ⟨i, by rw [setCaller_self]; exact hstate.2 hs⟩
  · apply (forall_setCaller { s with slot } i pc fun _ pc => ∀ r, pc = .done r →
      r = .success ∨ (r = .alreadyOn ∨ r = .onPending) ∧ slot.state ≠ .off).2
    refine ⟨fun r hr => absurd hr (hpc r), fun j hj r hr => ?_⟩
    -- the result of another call would have come of a slot that is not `OFF`
    rcases h.results j r hr with rfl | ⟨-, hne⟩
    · exact absurd (Or.inr (Or.inr hr)) (hothers j hj)
    · exact absurd hoff hne
  · apply (forall_setCaller { s with slot } i pc fun j pc =>
      pc.EntryStored → slot.entry = (args j).1).2
    exact ⟨hentry, fun j hj he => absurd he.passed (hothers j hj)⟩
  · apply (forall_setCaller { s with slot } i pc fun j pc =>
      pc.ContextStored → slot.context = (args j).2).2
    exact ⟨hcontext, fun j hj hc => absurd hc.entryStored.passed (hothers j hj)⟩
  · intro f e hf
    exact absurd (Or.inr (Or.inr ⟨f, e, hf⟩)) hleaving
  · intro p hp
    change p ∈ s.entered at hp
    simp [hentered] at hp

/-- The last step of the successful call. -/
theorem RaceInv.setCaller_success (h : RaceInv args s) (hi : s.caller i = .powerOn) (n : ℕ) :
    RaceInv args ({ s with requests := n }.setCaller i (.done .success)) := by
  have hsame : ∀ P : CallerPc → Prop, (P (.done .success) ↔ P .powerOn) → ∀ j,
      (P (({ s with requests := n }.setCaller i (.done .success)).caller j) ↔
        P (s.caller j)) := by
    intro P hP j
    by_cases hji : j = i
    · subst hji
      rw [setCaller_self, hi]
      exact hP
    · rw [setCaller_of_ne hji]
  have hpassed := hsame CallerPc.Passed
    (by simp [CallerPc.Passed, CallerPc.Storing, CallerPc.Committed])
  have hcommitted := hsame CallerPc.Committed (by simp [CallerPc.Committed])
  have hentry := hsame CallerPc.EntryStored (by simp [CallerPc.EntryStored, CallerPc.Committed])
  have hcontext := hsame CallerPc.ContextStored
    (by simp [CallerPc.ContextStored, CallerPc.Committed])
  refine ⟨fun j k hj hk => h.alone j k ((hpassed j).1 hj) ((hpassed k).1 hk),
    fun j hj => h.committed j ((hcommitted j).1 hj), fun hs => ?_, fun j r hr => ?_,
    fun j hj => h.entry j ((hentry j).1 hj), fun j hj => h.context j ((hcontext j).1 hj),
    h.storeOn, h.not_storeOff, h.leaving, h.loaded, h.entered⟩
  · obtain ⟨k, hk⟩ := h.on_committed hs
    exact ⟨k, (hcommitted k).2 hk⟩
  · revert j r
    apply (forall_setCaller { s with requests := n } i (.done .success) fun _ pc => ∀ r,
      pc = .done r → r = .success ∨ (r = .alreadyOn ∨ r = .onPending) ∧ s.slot.state ≠ .off).2
    exact ⟨fun r hr => Or.inl (CallerPc.done.inj hr).symm, fun j _ => h.results j⟩

/-- A call's access keeps the invariant. -/
theorem RaceInv.callAccess (h : RaceInv args s) (hguard : s.PassesAlone (.call i))
    (haccess : CallAccess args s i s') : RaceInv args s' := by
  cases haccess with
  | alreadyOn hpc hon =>
    obtain ⟨hnew, hentry⟩ := CallerPc.unpassed (.done .alreadyOn) (by simp)
    refine h.setCaller_unpassed (CallerPc.unpassed _ (.inl hpc)).1 hnew ?_ hentry
    rintro r ⟨⟩
    exact ⟨Or.inl rfl, by rw [hon]; decide⟩
  | notOn hpc hon =>
    obtain ⟨hnew, hentry⟩ := CallerPc.unpassed .checkPending (by simp)
    exact h.setCaller_unpassed (CallerPc.unpassed _ (.inl hpc)).1 hnew (by simp) hentry
  | onPending hpc hpending =>
    obtain ⟨hnew, hentry⟩ := CallerPc.unpassed (.done .onPending) (by simp)
    refine h.setCaller_unpassed (CallerPc.unpassed _ (.inr (.inl hpc))).1 hnew ?_ hentry
    rintro r ⟨⟩
    exact ⟨Or.inr rfl, by rw [hpending]; decide⟩
  | passes hpc hpending =>
    -- by the guard, nobody else is past the test
    obtain ⟨hoff, halone⟩ := hguard hpc hpending
    refine @RaceInv.setCaller_storing _ args s i _ h .storeEntry s.slot hoff
      (fun j hj hp => ?_) (by simp) ?_ ?_ ?_
    · rcases hp with hp | hp
      · exact halone j hj hp
      · exact h.committed j hp hoff
    · simp [CallerPc.Committed, hoff]
    · simp [CallerPc.EntryStored, CallerPc.Committed]
    · simp [CallerPc.ContextStored, CallerPc.Committed]
  | storeEntry hpc =>
    obtain ⟨hoff, hothers⟩ := h.storing (i := i) (Or.inl hpc)
    refine h.setCaller_storing hoff hothers (by simp) ?_ (fun _ => rfl) ?_
    · simp [CallerPc.Committed, hoff]
    · simp [CallerPc.ContextStored, CallerPc.Committed]
  | storeContext hpc =>
    obtain ⟨hoff, hothers⟩ := h.storing (i := i) (Or.inr (Or.inl hpc))
    refine h.setCaller_storing hoff hothers (by simp) ?_ (fun _ => ?_) (fun _ => rfl)
    · simp [CallerPc.Committed, hoff]
    · exact h.entry i (Or.inl hpc)
  | storePending hpc =>
    obtain ⟨hoff, hothers⟩ := h.storing (i := i) (Or.inr (Or.inr hpc))
    refine h.setCaller_storing hoff hothers (by simp) ?_ (fun _ => ?_) (fun _ => ?_)
    · simp [CallerPc.Committed]
    · exact h.entry i (Or.inr (Or.inl hpc))
    · exact h.context i (Or.inl hpc)
  | powerOn hpc => exact h.setCaller_success hpc _

end Call

/-! ## One access of the core -/

/-- The core has no part in the calls: what is left to show is about the slot's readers. -/
theorem RaceInv.setCore (h : RaceInv args s) {slot : CpuSlot} {core : CorePc}
    {entered : List (Word × Word)} {n : ℕ} (hoff : slot.state = .off ↔ s.slot.state = .off)
    (hpair : slot.entry = s.slot.entry ∧ slot.context = s.slot.context)
    (hstoreOn : ∀ f, core = .storeOn f → slot.state = .onPending) (hnot : core ≠ .storeOff)
    (hleaving : core.Leaving → slot.state = .on)
    (hloaded : ∀ f e, core = .loadContext f e → e = slot.entry)
    (hentered : ∀ p ∈ entered, slot.state = .on ∧ p = (slot.entry, slot.context)) :
    RaceInv args { s with slot, core, entered, requests := n } := by
  have hne : slot.state ≠ .off ↔ s.slot.state ≠ .off := not_congr hoff
  refine ⟨h.alone, fun i hi => hne.2 (h.committed i hi), fun hs => h.on_committed (hne.1 hs),
    fun i r hr => ?_, fun i hi => hpair.1.trans (h.entry i hi),
    fun i hi => hpair.2.trans (h.context i hi), hstoreOn, hnot, hleaving, hloaded, hentered⟩
  rcases h.results i r hr with hr | ⟨hr, hs⟩
  · exact Or.inl hr
  · exact Or.inr ⟨hr, hne.2 hs⟩

theorem RaceInv.coreAccess (h : RaceInv args s) (haccess : CoreAccess s s') :
    RaceInv args s' := by
  cases haccess with
  | leaves hcore hpending =>
    refine h.setCore Iff.rfl ⟨rfl, rfl⟩ (fun _ _ => hpending) (by simp) ?_ (by simp) h.entered
    simp [CorePc.Leaving]
  | sleeps hcore hpending =>
    refine h.setCore Iff.rfl ⟨rfl, rfl⟩ (by simp) (by simp) ?_ (by simp) h.entered
    simp [CorePc.Leaving]
  | storeOn hcore hnext =>
    have hpending := h.storeOn _ hcore
    have hnone : ∀ p ∈ s.entered, False := by
      intro p hp
      have hon := (h.entered p hp).1
      simp [hpending] at hon
    refine h.setCore ?_ ⟨rfl, rfl⟩ ?_ ?_ (fun _ => rfl) ?_ fun p hp => (hnone p hp).elim
    · simp [hpending]
    all_goals rcases hnext with rfl | rfl <;> simp
  | printEntry hcore =>
    have hon := h.leaving (Or.inl hcore)
    exact h.setCore Iff.rfl ⟨rfl, rfl⟩ (by simp) (by simp) (fun _ => hon) (by simp) h.entered
  | loadEntry hcore =>
    have hon := h.leaving (Or.inr (Or.inl ⟨_, hcore⟩))
    refine h.setCore Iff.rfl ⟨rfl, rfl⟩ (by simp) (by simp) (fun _ => hon) ?_ h.entered
    rintro _ _ ⟨⟩
    rfl
  | loadContext hcore =>
    have hon := h.leaving (Or.inr (Or.inr ⟨_, _, hcore⟩))
    obtain rfl := h.loaded _ _ hcore
    refine h.setCore Iff.rfl ⟨rfl, rfl⟩ (by simp) (by simp) ?_ (by simp) fun p hp => ?_
    · simp [CorePc.Leaving]
    · rcases List.mem_append.1 hp with hp | hp
      · exact h.entered p hp
      · exact ⟨hon, List.mem_singleton.1 hp⟩
  | storeOff hcore => exact absurd hcore h.not_storeOff

/-! ## Every run -/

section Run

variable [DecidableEq ι]

theorem RaceInv.step (h : RaceInv args s) {a : SlotAction ι} (hact : a ≠ .cpuOff)
    (hguard : s.PassesAlone a) (hstep : s.step args a = some s') : RaceInv args s' := by
  cases moves_of_step hstep with
  | call haccess => exact h.callAccess hguard haccess
  | core haccess => exact h.coreAccess haccess
  | cpuOff => exact absurd rfl hact
  | restart =>
    refine h.setCore Iff.rfl ⟨rfl, rfl⟩ (by simp) (by simp) ?_ (by simp) h.entered
    simp [CorePc.Leaving]
  | lapse =>
    exact h.setCore Iff.rfl ⟨rfl, rfl⟩ h.storeOn h.not_storeOff h.leaving h.loaded h.entered
  | wake =>
    refine h.setCore Iff.rfl ⟨rfl, rfl⟩ (by simp) (by simp) ?_ (by simp) h.entered
    simp [CorePc.Leaving]

/-- As long as calls pass the second test alone, every state of a run is as one successful call
leaves it. -/
theorem always_oneSuccess {as : List (SlotAction ι)} (hstart : s.AllCalling)
    (hoff : .cpuOff ∉ as) (hguard : Lts.Guarded (SlotSys.step args) PassesAlone s as) :
    Lts.Always (SlotSys.step args) (OneSuccess args) s as := by
  have hact : ∀ a ∈ as, a ≠ .cpuOff := by
    rintro a ha rfl
    exact hoff ha
  have hinv : Lts.Always (SlotSys.step args) (RaceInv args) s as :=
    Lts.always_of_invariant (fun s a s' hs hg hstep => hs.step hg.1 hg.2 hstep) hstart.raceInv
      (hguard.and_actions hact)
  exact hinv.mono fun _ hs => hs.oneSuccess

/-! ## Runs in which a call does not pass alone -/

/-- What holds without the guard: somebody has turned the core on, or is about to. -/
structure TurnedOn (s : SlotSys ι) : Prop where
  not_storeOff : s.core ≠ .storeOff
  storeOn : ∀ f, s.core = .storeOn f → s.slot.state ≠ .off
  on_committed : s.slot.state ≠ .off → ∃ i, (s.caller i).Committed

/-- A call does not go back behind a point after its second test. -/
theorem caller_stays {P : CallerPc → Prop} (hon : ¬ P .checkOn) (hpending : ¬ P .checkPending)
    (hentry : P .storeEntry → P .storeContext) (hcontext : P .storeContext → P .storePending)
    (hstore : P .storePending → P .powerOn) (hpower : P .powerOn → P (.done .success))
    {a : SlotAction ι} {j : ι} (h : P (s.caller j)) (hstep : s.step args a = some s') :
    P (s'.caller j) := by
  cases moves_of_step hstep with
  | call haccess =>
    rename_i i
    by_cases hji : j = i
    · subst hji
      cases haccess with
      | alreadyOn hpc => exact absurd (hpc ▸ h) hon
      | notOn hpc => exact absurd (hpc ▸ h) hon
      | onPending hpc => exact absurd (hpc ▸ h) hpending
      | passes hpc => exact absurd (hpc ▸ h) hpending
      | storeEntry hpc =>
        rw [setCaller_self]
        exact hentry (hpc ▸ h)
      | storeContext hpc =>
        rw [setCaller_self]
        exact hcontext (hpc ▸ h)
      | storePending hpc =>
        rw [setCaller_self]
        exact hstore (hpc ▸ h)
      | powerOn hpc =>
        rw [setCaller_self]
        exact hpower (hpc ▸ h)
    · cases haccess <;> rwa [setCaller_of_ne hji]
  | core haccess => cases haccess <;> exact h
  | _ => exact h

theorem passed_stays {a : SlotAction ι} {j : ι} (h : (s.caller j).Passed)
    (hstep : s.step args a = some s') : (s'.caller j).Passed := by
  refine caller_stays ?_ ?_ ?_ ?_ ?_ ?_ h hstep <;>
    simp [CallerPc.Passed, CallerPc.Storing, CallerPc.Committed]

theorem committed_stays {a : SlotAction ι} {j : ι} (h : (s.caller j).Committed)
    (hstep : s.step args a = some s') : (s'.caller j).Committed := by
  refine caller_stays ?_ ?_ ?_ ?_ ?_ ?_ h hstep <;> simp [CallerPc.Committed]

/-- The slot leaves `OFF` by the store of a call only, and the core does not turn itself off. -/
theorem TurnedOn.step (h : s.TurnedOn) {a : SlotAction ι} (hact : a ≠ .cpuOff)
    (hstep : s.step args a = some s') : s'.TurnedOn := by
  have hkeep : s.slot.state ≠ .off → ∃ i, (s'.caller i).Committed := by
    intro hs
    obtain ⟨i, hi⟩ := h.on_committed hs
    exact ⟨i, committed_stays hi hstep⟩
  cases moves_of_step hstep with
  | call haccess =>
    rename_i i
    cases haccess with
    | storePending =>
      exact ⟨h.not_storeOff, fun _ _ => by simp,
        fun _ => ⟨i, by rw [setCaller_self]; exact Or.inl rfl⟩⟩
    | _ => exact ⟨h.not_storeOff, h.storeOn, hkeep⟩
  | core haccess =>
    cases haccess with
    | storeOff hcore => exact absurd hcore h.not_storeOff
    | storeOn hcore hnext =>
      have hs := h.storeOn _ hcore
      rcases hnext with rfl | rfl
      · exact ⟨by simp, by simp, fun _ => hkeep hs⟩
      · exact ⟨by simp, by simp, fun _ => hkeep hs⟩
    | leaves _ hpending => exact ⟨by simp, fun _ _ => by rw [hpending]; decide, hkeep⟩
    | _ => exact ⟨by simp, by simp, hkeep⟩
  | cpuOff => exact absurd rfl hact
  | lapse => exact ⟨h.not_storeOff, h.storeOn, hkeep⟩
  | _ => exact ⟨by simp, by simp, hkeep⟩

omit [DecidableEq ι] in
theorem AllCalling.turnedOn (h : s.AllCalling) : s.TurnedOn := by
  have hinv : RaceInv (fun _ => (0, 0)) s := h.raceInv
  refine ⟨hinv.not_storeOff, fun f hf => ?_, hinv.on_committed⟩
  rw [hinv.storeOn f hf]
  decide

/-- A call that passes, but not alone, is one of two that are past the test. -/
theorem TurnedOn.passes_second (h : s.TurnedOn) {a : SlotAction ι} (hnot : ¬ s.PassesAlone a)
    (hstep : s.step args a = some s') :
    ∃ i j, i ≠ j ∧ (s'.caller i).Passed ∧ (s'.caller j).Passed := by
  cases a with
  | call i =>
    simp only [PassesAlone, not_forall] at hnot
    obtain ⟨hpc, hpending, hnot⟩ := hnot
    have hi : (s'.caller i).Passed := by
      simp only [SlotSys.step, SlotSys.stepCall, hpc, if_neg hpending, Option.some.injEq] at hstep
      subst hstep
      rw [setCaller_self]
      exact Or.inl (Or.inl rfl)
    by_cases hoff : s.slot.state = .off
    · simp only [hoff, true_and, not_forall, not_not] at hnot
      obtain ⟨j, hj, hstoring⟩ := hnot
      exact ⟨i, j, Ne.symm hj, hi, passed_stays (Or.inl hstoring) hstep⟩
    · obtain ⟨j, hj⟩ := h.on_committed hoff
      refine ⟨i, j, ?_, hi, passed_stays (Or.inr hj) hstep⟩
      rintro rfl
      simp [hpc, CallerPc.Committed] at hj
  | _ => exact absurd trivial hnot

theorem passed_stays_run {as : List (SlotAction ι)} {j : ι} (h : (s.caller j).Passed)
    (hrun : Lts.run (SlotSys.step args) s as = some s') : (s'.caller j).Passed :=
  Lts.run_invariant (P := fun s => (caller s j).Passed)
    (fun _ _ _ hs hstep => passed_stays hs hstep) h hrun

/-- Two calls succeed at the end of a run in which one did not pass alone. -/
theorem two_succeed {as : List (SlotAction ι)} (hstart : s.TurnedOn) (hoff : .cpuOff ∉ as)
    (hrun : Lts.run (SlotSys.step args) s as = some s') (hdone : ∀ i, ∃ r, s'.caller i = .done r)
    (hnot : ¬ Lts.Guarded (SlotSys.step args) PassesAlone s as) :
    ∃ i j, i ≠ j ∧ s'.caller i = .done .success ∧ s'.caller j = .done .success := by
  have hsuccess : ∀ i, (s'.caller i).Passed → s'.caller i = .done .success := by
    intro i hi
    obtain ⟨r, hr⟩ := hdone i
    simpa [hr, CallerPc.Passed, CallerPc.Storing, CallerPc.Committed] using hi
  induction as generalizing s with
  | nil => exact absurd trivial hnot
  | cons a as ih =>
    obtain ⟨s₁, hs₁, hrest⟩ := Lts.run_cons hrun
    rw [Lts.guarded_cons_some hs₁, not_and_or] at hnot
    rcases hnot with hnot | hnot
    · obtain ⟨i, j, hij, hi, hj⟩ := hstart.passes_second hnot hs₁
      exact ⟨i, j, hij, hsuccess i (passed_stays_run hi hrest),
        hsuccess j (passed_stays_run hj hrest)⟩
    · refine ih (hstart.step ?_ hs₁) (fun h => hoff (List.mem_cons_of_mem _ h)) hrest hnot
      rintro rfl
      exact hoff (List.mem_cons_self ..)

/-- **Mutual exclusion.** In whatever order the calls and the core take their steps: if calls
pass the second test alone, then one call succeeds. And if all have returned and only one has
succeeded, then they did. -/
theorem cpuOn_exclusive {as : List (SlotAction ι)} (hstart : s.AllCalling)
    (hoff : .cpuOff ∉ as) :
    (Lts.Guarded (SlotSys.step args) PassesAlone s as →
      Lts.Always (SlotSys.step args) (OneSuccess args) s as) ∧
    ∀ s', Lts.run (SlotSys.step args) s as = some s' → (∀ i, ∃ r, s'.caller i = .done r) →
      OneSuccess args s' → Lts.Guarded (SlotSys.step args) PassesAlone s as := by
  refine ⟨always_oneSuccess hstart hoff, fun s' hrun hdone hone => ?_⟩
  by_contra hnot
  obtain ⟨i, j, hij, hi, hj⟩ := two_succeed hstart.turnedOn hoff hrun hdone hnot
  exact hij (hone.unique i j hi hj)

end Run

/-! ## Two calls -/

def twoCalls (i : Fin 2) : Word × Word := if i = 0 then (0x1000, 1) else (0x2000, 2)

def beforeCalls : SlotSys (Fin 2) where
  slot := { state := .off, entry := 0, context := 0 }
  caller _ := .checkOn
  core := .unpowered
  requests := 0
  entered := []

theorem beforeCalls_allCalling : beforeCalls.AllCalling :=
  ⟨rfl, fun _ => rfl, Or.inl rfl, rfl⟩

/-- Call 0 runs to its end, the core comes up, and call 1 finds it on. -/
def inTurn : List (SlotAction (Fin 2)) :=
  List.replicate 6 (.call 0) ++ [.restart] ++ List.replicate 5 .core ++ [.call 1]

/-- Both calls pass their tests before either stores. -/
def racing : List (SlotAction (Fin 2)) :=
  [.call 0, .call 0, .call 1, .call 1, .call 0, .call 1, .call 1, .call 0, .call 0, .call 1,
    .call 0, .call 1, .restart] ++ List.replicate 5 .core

theorem cpuOn_inTurn_exclusive :
    Lts.Always (step twoCalls) (OneSuccess twoCalls) beforeCalls inTurn :=
  (cpuOn_exclusive beforeCalls_allCalling (by decide)).1 (by decide)

/-- Two racing calls both return success, and the core enters at the entry point of one with the
context of the other. -/
theorem cpuOn_race_mixes :
    beforeCalls.AllCalling ∧ .cpuOff ∉ racing ∧
      ∃ s, Lts.run (step twoCalls) beforeCalls racing = some s ∧
        s.caller 0 = .done .success ∧ s.caller 1 = .done .success ∧
        s.entered = [(0x2000, 1)] ∧ ¬ OneSuccess twoCalls s := by
  refine ⟨beforeCalls_allCalling, by decide, _, rfl, rfl, rfl, rfl, fun h => ?_⟩
  exact absurd (h.unique 0 1 rfl rfl) (by decide)

end SlotSys

end Gec6818Bl1
