import Gec6818Bl1.Psci.Affinity

/-!
# The upper halves of a 32-bit call

A call with an SMC32 id, `0x8400000x`, passes its arguments in `w1` to `w3`, and what the upper
halves of the registers hold is nobody's business. `psciHandler` masks the function id and the
argument of `PSCI_FEATURES`, and hands the other arguments on at full width, for `CPU_ON` and
`AFFINITY_INFO` to the functions that also serve the 64-bit ids.

Two register files that agree in their lower halves are two runs of the same call. They have the
same outcome (`SameOutcome`: `x0`, the slots, the power-on registers) unless

* `Aff3`, which is in the upper half of `x1`, makes the target invalid in only one of them;
* a `CPU_ON` that succeeds stores the upper halves of `x2` and `x3` with the rest;
* `lowest_affinity_level`, compared with `0` at full width, is `0` in only one of them.

`sameOutcome_iff` is the exact condition.
-/

namespace Gec6818Bl1.Psci

/-- The lower halves are equal. -/
def LowEq (a b : Word) : Prop := a.setWidth 32 = b.setWidth 32

instance (a b : Word) : Decidable (LowEq a b) :=
  inferInstanceAs (Decidable (a.setWidth 32 = b.setWidth 32))

/-- Two runs of one SMC32 call. -/
structure SameCall (regs regs' : Regs) : Prop where
  smc32 : (regs 0).setWidth 32 >>> 4 = 0x8400000#32
  x0 : LowEq (regs 0) (regs' 0)
  x1 : LowEq (regs 1) (regs' 1)
  x2 : LowEq (regs 2) (regs' 2)
  x3 : LowEq (regs 3) (regs' 3)

/-- What the caller gets in `x0`, the slots and the power-on registers. -/
def SameOutcome (startup : Word) (s : Psci) (cpu : CpuId) (regs regs' : Regs) : Prop :=
  (s.psciHandler startup cpu regs).2.map (· 0) = (s.psciHandler startup cpu regs').2.map (· 0) ∧
    (s.psciHandler startup cpu regs).1.cpus = (s.psciHandler startup cpu regs').1.cpus ∧
    (s.psciHandler startup cpu regs).1.power = (s.psciHandler startup cpu regs').1.power

/-- The upper halves do not matter to this `CPU_ON`. -/
def CpuOnAgrees (s : Psci) (regs regs' : Regs) : Prop :=
  mpidrToCpu (regs 1) = mpidrToCpu (regs' 1) ∧
    ∀ cpu, mpidrToCpu (regs 1) = some cpu → (s.cpus cpu).state = .off →
      regs 2 = regs' 2 ∧ regs 3 = regs' 3

/-- The upper halves do not matter to this `AFFINITY_INFO`. -/
def AffinityInfoAgrees (regs regs' : Regs) : Prop :=
  mpidrToCpu (regs 1) ≠ none ∧ regs 2 = 0 ↔ mpidrToCpu (regs' 1) ≠ none ∧ regs' 2 = 0

/-- The condition on the state and the two register files. -/
def UpperHalvesAgree (s : Psci) (regs regs' : Regs) : Prop :=
  (regs 0 &&& 0xFFFFFFFF = PsciFunction.cpuOn → s.CpuOnAgrees regs regs') ∧
    (regs 0 &&& 0xFFFFFFFF = PsciFunction.affinityInfo → AffinityInfoAgrees regs regs')

/-! ## Lower halves -/

variable {a b : Word}

theorem LowEq.getLsbD (h : LowEq a b) {i : ℕ} (hi : i < 32) : a.getLsbD i = b.getLsbD i := by
  have hbit := congrArg (fun v => BitVec.getLsbD v i) h
  simpa [hi] using hbit

theorem LowEq.and_eq (h : LowEq a b) : a &&& 0xFFFFFFFF = b &&& 0xFFFFFFFF := by
  have hmask : ∀ i < 64, (0xFFFFFFFF#64).getLsbD i = decide (i < 32) := by decide
  show a &&& 0xFFFFFFFF#64 = b &&& 0xFFFFFFFF#64
  apply BitVec.eq_of_getLsbD_eq
  intro i hi
  rw [BitVec.getLsbD_and, BitVec.getLsbD_and, hmask i hi]
  by_cases h32 : i < 32
  · rw [h.getLsbD h32]
  · rw [decide_eq_false h32, Bool.and_false, Bool.and_false]

theorem lowEq_and (a : Word) : LowEq a (a &&& 0xFFFFFFFF) := by
  rw [LowEq, BitVec.setWidth_and]
  exact BitVec.and_allOnes.symm

theorem LowEq.extractLsb'_eq (h : LowEq a b) {s n : ℕ} (hs : s + n ≤ 32) :
    a.extractLsb' s n = b.extractLsb' s n := by
  apply BitVec.eq_of_getLsbD_eq
  intro i hi
  rw [BitVec.getLsbD_extractLsb', BitVec.getLsbD_extractLsb', h.getLsbD (by omega)]

/-- Of the fields that `mpidrToCpu` looks at, only `Aff3` is in the upper half. -/
theorem LowEq.mpidrToCpu_unique (h : LowEq a b) {cpu cpu' : CpuId}
    (ha : mpidrToCpu a = some cpu) (hb : mpidrToCpu b = some cpu') : cpu = cpu' := by
  obtain ⟨-, -, -, ha⟩ := mpidrToCpu_eq_some_iff.1 ha
  obtain ⟨-, -, -, hb⟩ := mpidrToCpu_eq_some_iff.1 hb
  have h0 : aff0 a = aff0 b := h.extractLsb'_eq (by decide)
  have h1 : aff1 a = aff1 b := h.extractLsb'_eq (by decide)
  exact Fin.ext (by rw [ha, hb, h0, h1])

/-! ## The two calls that look at the upper halves -/

variable {startup : Word} {s : Psci} {cpu : CpuId} {regs regs' : Regs}

theorem psciHandler_affinityInfo
    (h : regs 0 &&& 0xFFFFFFFF = PsciFunction.affinityInfo) :
    s.psciHandler startup cpu regs =
      (s, some (Function.update regs 0 (s.affinityInfo (regs 1) (regs 2)))) := by
  unfold psciHandler
  simp only [h]
  rfl

theorem code_injective : Function.Injective PsciErrorCodes.code := by
  intro r r' h
  cases r <;> cases r' <;> first | rfl | exact absurd h (by decide)

theorem sameOutcome_cpuOn (hcall : SameCall regs regs')
    (hf : regs 0 &&& 0xFFFFFFFF = PsciFunction.cpuOn) :
    SameOutcome startup s cpu regs regs' ↔ s.CpuOnAgrees regs regs' := by
  have hf' : regs' 0 &&& 0xFFFFFFFF = PsciFunction.cpuOn := hcall.x0.and_eq ▸ hf
  have hx0 : ∀ (regs : Regs) (r : PsciErrorCodes),
      Option.map (· 0) (some (Function.update regs 0 r.code)) = some r.code :=
    fun regs r => congrArg some (Function.update_self 0 _ _)
  rw [SameOutcome, psciHandler_cpuOn startup s cpu (.inl hf),
    psciHandler_cpuOn startup s cpu (.inl hf'), hx0, hx0, Option.some_inj, code_injective.eq_iff]
  -- A target is refused, found on or on its way, or found off, in either run.
  cases h : mpidrToCpu (regs 1) with
  | none =>
    cases h' : mpidrToCpu (regs' 1) with
    | none => simp [cpuOn, CpuOnAgrees, h, h']
    | some c => cases hst : (s.cpus c).state <;> simp [cpuOn, CpuOnAgrees, h, h', hst]
  | some c =>
    cases h' : mpidrToCpu (regs' 1) with
    | none => cases hst : (s.cpus c).state <;> simp [cpuOn, CpuOnAgrees, h, h', hst]
    | some c' =>
      obtain rfl := hcall.x1.mpidrToCpu_unique h h'
      cases hst : (s.cpus c).state with
      | on => simp [cpuOn, CpuOnAgrees, h, h', hst]
      | onPending => simp [cpuOn, CpuOnAgrees, h, h', hst]
      | off =>
        have hslot : ∀ entry context entry' context' : Word,
            Function.update s.cpus c ⟨.onPending, entry, context⟩ =
              Function.update s.cpus c ⟨.onPending, entry', context'⟩ ↔
                entry = entry' ∧ context = context' := by
          intro entry context entry' context'
          rw [(Function.update_injective s.cpus c).eq_iff]
          simp
        simp [cpuOn, CpuOnAgrees, h, h', hst, record, setSlot, hslot]

theorem affinityInfo_of_some {target level : Word} {c : CpuId} (h : mpidrToCpu target = some c)
    (hl : level = 0) : s.affinityInfo target level = (s.cpus c).state.code := by
  simp only [affinityInfo, h, hl, ne_eq, not_true, if_false]

theorem affinityInfo_eq_invalid_iff {target level : Word} :
    s.affinityInfo target level = PsciErrorCodes.invalidParameters.code ↔
      ¬(mpidrToCpu target ≠ none ∧ level = 0) := by
  have hstate : ∀ st : PsciCpuState, st.code ≠ PsciErrorCodes.invalidParameters.code := by
    intro st
    cases st <;> decide
  unfold affinityInfo
  cases h : mpidrToCpu target with
  | none => simp
  | some c =>
    by_cases hl : level = 0
    · simp only [hl, ne_eq, not_true, if_false]
      exact iff_of_false (hstate _) (by simp)
    · simp only [hl, ne_eq, not_false_iff, if_true, and_false]

theorem sameOutcome_affinityInfo (hcall : SameCall regs regs')
    (hf : regs 0 &&& 0xFFFFFFFF = PsciFunction.affinityInfo) :
    SameOutcome startup s cpu regs regs' ↔ AffinityInfoAgrees regs regs' := by
  have hf' : regs' 0 &&& 0xFFFFFFFF = PsciFunction.affinityInfo := hcall.x0.and_eq ▸ hf
  rw [SameOutcome, psciHandler_affinityInfo hf, psciHandler_affinityInfo hf', AffinityInfoAgrees]
  simp only [Option.map_some, Function.update_self, Option.some_inj, and_self, and_true]
  by_cases hv : mpidrToCpu (regs 1) ≠ none ∧ regs 2 = 0
  · by_cases hv' : mpidrToCpu (regs' 1) ≠ none ∧ regs' 2 = 0
    · obtain ⟨c, hc⟩ := Option.ne_none_iff_exists'.1 hv.1
      obtain ⟨c', hc'⟩ := Option.ne_none_iff_exists'.1 hv'.1
      obtain rfl := hcall.x1.mpidrToCpu_unique hc hc'
      rw [affinityInfo_of_some hc hv.2, affinityInfo_of_some hc' hv'.2]
      exact iff_of_true rfl (iff_of_true hv hv')
    · rw [affinityInfo_eq_invalid_iff.2 hv', affinityInfo_eq_invalid_iff]
      exact iff_of_false (not_not.2 hv) fun h => hv' (h.1 hv)
  · rw [affinityInfo_eq_invalid_iff.2 hv, eq_comm, affinityInfo_eq_invalid_iff]
    constructor
    · intro hv'
      exact iff_of_false hv hv'
    · intro h
      exact fun hv' => hv (h.2 hv')

/-! ## The other calls -/

theorem sameOutcome_other (hcall : SameCall regs regs')
    (hon : regs 0 &&& 0xFFFFFFFF ≠ PsciFunction.cpuOn)
    (haff : regs 0 &&& 0xFFFFFFFF ≠ PsciFunction.affinityInfo) :
    SameOutcome startup s cpu regs regs' := by
  have hf' : regs' 0 &&& 0xFFFFFFFF = regs 0 &&& 0xFFFFFFFF := hcall.x0.and_eq.symm
  have h1 : regs' 1 &&& 0xFFFFFFFF = regs 1 &&& 0xFFFFFFFF := hcall.x1.and_eq.symm
  have hsuspend : cpuSuspend (regs' 1) = cpuSuspend (regs 1) := by
    rw [cpuSuspend, cpuSuspend, hcall.x1.getLsbD (by decide)]
  -- The 64-bit ids do not begin with `0x8400000`.
  have h64 : ∀ f : Word, f.setWidth 32 >>> 4 ≠ 0x8400000#32 → regs 0 &&& 0xFFFFFFFF ≠ f := by
    intro f hne hf
    have hlow : (regs 0).setWidth 32 = f.setWidth 32 := hf ▸ lowEq_and (regs 0)
    exact hne (hlow ▸ hcall.smc32)
  unfold SameOutcome psciHandler
  simp only [hf', h1, hsuspend, hon, haff, h64 PsciFunction.cpuOn64 (by decide),
    h64 PsciFunction.affinityInfo64 (by decide), or_self, if_false]
  split_ifs <;> simp [cpuOff, setLoc, setSlot]

/-- **The SMC32 convention.** Two runs of a 32-bit call have the same outcome exactly if what is
in the upper halves makes no difference to `CPU_ON` or `AFFINITY_INFO`. -/
theorem sameOutcome_iff (startup : Word) (s : Psci) (cpu : CpuId) (regs regs' : Regs)
    (hcall : SameCall regs regs') :
    SameOutcome startup s cpu regs regs' ↔ s.UpperHalvesAgree regs regs' := by
  by_cases hon : regs 0 &&& 0xFFFFFFFF = PsciFunction.cpuOn
  · rw [sameOutcome_cpuOn hcall hon]
    constructor
    · intro h
      exact ⟨fun _ => h, fun haff => absurd (hon.symm.trans haff) (by decide)⟩
    · intro h
      exact h.1 hon
  · by_cases haff : regs 0 &&& 0xFFFFFFFF = PsciFunction.affinityInfo
    · rw [sameOutcome_affinityInfo hcall haff]
      constructor
      · intro h
        exact ⟨fun h' => absurd h' hon, fun _ => h⟩
      · intro h
        exact h.2 haff
    · exact iff_of_true (sameOutcome_other hcall hon haff)
        ⟨fun h => absurd h hon, fun h => absurd h haff⟩

/-- `CPU_ON` of core 1, entry `0x40000000`, context `x3`. -/
def cpuOnCall (x1 x3 : Word) : Regs
  | 0 => 0x84000003
  | 1 => x1
  | 2 => 0x40000000
  | 3 => x3
  | _ => 0

theorem sameOutcome_iff_cpuOnCall :
    SameCall (cpuOnCall 1 0) (cpuOnCall 1 0x500000000) ∧
      (SameOutcome 0 (psciInit 0 ⟨fun _ => 0, 0, 0⟩) 0 (cpuOnCall 1 0) (cpuOnCall 1 0x500000000) ↔
        (psciInit 0 ⟨fun _ => 0, 0, 0⟩).UpperHalvesAgree (cpuOnCall 1 0)
          (cpuOnCall 1 0x500000000)) := by
  have hcall : SameCall (cpuOnCall 1 0) (cpuOnCall 1 0x500000000) := by constructor <;> decide
  exact ⟨hcall, sameOutcome_iff 0 _ 0 _ _ hcall⟩

/-- With a bit of `Aff3` left over in `x1` the same 32-bit call is refused. -/
theorem not_sameOutcome : SameCall (cpuOnCall 1 0) (cpuOnCall 0x100000001 0) ∧
    ¬ SameOutcome 0 (psciInit 0 ⟨fun _ => 0, 0, 0⟩) 0 (cpuOnCall 1 0)
      (cpuOnCall 0x100000001 0) := by
  refine ⟨by constructor <;> decide, ?_⟩
  rintro ⟨hx0, -, -⟩
  exact absurd hx0 (by decide)

end Gec6818Bl1.Psci
