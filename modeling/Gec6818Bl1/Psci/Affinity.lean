import Gec6818Bl1.Psci.Handler

/-!
# Which core an affinity names

A core is numbered three times. Its `MPIDR` has the affinity fields that the tie-offs give to its
cluster, `mpidrToCpu` numbers the target of a call by them, and `GetCPUID` numbers the core that
runs.

* `mpidrToCpu` wants `Aff3` and `Aff2` to be `0` and `Aff0` to be at most `3`. `Aff1` only says
  whether it is cluster 1, by not being `0`: with `CONFIG_RESET_AFFINITY_ID` it is `1` there, else
  `4` (`mpidrToCpu_eq_some_iff`).
* On the affinities that the cores have, it agrees with `GetCPUID` (`mpidrToCpu_mpidr`).
-/

namespace Gec6818Bl1

/-! ## The fields of an MPIDR -/

def aff0 (mpidr : Word) : BitVec 8 := mpidr.extractLsb' 0 8
def aff1 (mpidr : Word) : BitVec 8 := mpidr.extractLsb' 8 8
def aff2 (mpidr : Word) : BitVec 8 := mpidr.extractLsb' 16 8
def aff3 (mpidr : Word) : BitVec 8 := mpidr.extractLsb' 32 8

/-- An MPIDR without its other bits, as a caller names a core. -/
def affinityFields (mpidr : Word) : Word := mpidr &&& 0xFF00FFFFFF

/-- `GetCPUID`, on a core with this `MPIDR_EL1`. -/
def getCPUID (mpidr : Word) : Word :=
  let x1 := mpidr &&& 0x3
  if mpidr &&& 0xFF00 ≠ 0 then x1 ||| 4 else x1

/-- "Set Affinity ID" of `BootMain`: level 1 and level 2 of cluster 1. -/
def setAffinityId (tieoffreg : ℕ → BitVec 32) : ℕ → BitVec 32 :=
  let tieoffreg := Function.update tieoffreg 95 ((tieoffreg 95 &&& 0x00FFFFFF#32) ||| 1#32 <<< 24)
  Function.update tieoffreg 96 (tieoffreg 96 &&& 0xF0#32)

/-- What the cores of a chip read from `MPIDR_EL1` under these tie-offs: cluster 0 is `0.0.0`, and
the fields of cluster 1 are wired to the two words. -/
structure MpidrOf (tieoffreg : ℕ → BitVec 32) (mpidr : CpuId → Word) : Prop where
  aff0 : ∀ cpu, (aff0 (mpidr cpu)).toNat = cpu.val &&& 3
  aff1 : ∀ cpu, aff1 (mpidr cpu) =
    if cpu.val &&& 4 ≠ 0 then (tieoffreg 95).extractLsb' 24 8 else 0
  aff2 : ∀ cpu, aff2 (mpidr cpu) =
    if cpu.val &&& 4 ≠ 0 then ((tieoffreg 96).extractLsb' 0 4).setWidth 8 else 0
  aff3 : ∀ cpu, aff3 (mpidr cpu) = 0

/-! ## Masks and fields -/

section Masks

variable {w : ℕ} {x m : BitVec w}

theorem and_eq_zero_iff_getLsbD :
    x &&& m = 0#w ↔ ∀ i < w, m.getLsbD i = true → x.getLsbD i = false := by
  constructor
  · intro h i hi hm
    have hbit := congrArg (fun v => BitVec.getLsbD v i) h
    simpa [hm] using hbit
  · intro h
    apply BitVec.eq_of_getLsbD_eq
    intro i hi
    cases hm : m.getLsbD i with
    | false => simp [hm]
    | true => simp [h i hi hm]

theorem extractLsb'_eq_zero_iff {s n : ℕ} :
    x.extractLsb' s n = 0#n ↔ ∀ i < n, x.getLsbD (s + i) = false := by
  constructor
  · intro h i hi
    have hbit := congrArg (fun v => BitVec.getLsbD v i) h
    simpa [hi] using hbit
  · intro h
    apply BitVec.eq_of_getLsbD_eq
    intro i hi
    simp [hi, h i hi]

end Masks

variable {a b mpidr : Word}

theorem and_upper_eq_zero_iff : a &&& 0xFF00FF0000 = 0 ↔ aff3 a = 0 ∧ aff2 a = 0 := by
  have hmask : ∀ i < 64, (0xFF00FF0000#64).getLsbD i = true ↔
      16 ≤ i ∧ i < 24 ∨ 32 ≤ i ∧ i < 40 := by decide
  show a &&& 0xFF00FF0000#64 = 0#64 ↔ a.extractLsb' 32 8 = 0#8 ∧ a.extractLsb' 16 8 = 0#8
  rw [and_eq_zero_iff_getLsbD, extractLsb'_eq_zero_iff, extractLsb'_eq_zero_iff]
  constructor
  · intro h
    exact ⟨fun i hi => h _ (by omega) ((hmask _ (by omega)).2 (by omega)),
      fun i hi => h _ (by omega) ((hmask _ (by omega)).2 (by omega))⟩
  · rintro ⟨h3, h2⟩ i hi hm
    rcases (hmask i hi).1 hm with ⟨hlo, hhi⟩ | ⟨hlo, hhi⟩
    · have hbit := h2 (i - 16) (by omega)
      rwa [Nat.add_sub_cancel' hlo] at hbit
    · have hbit := h3 (i - 32) (by omega)
      rwa [Nat.add_sub_cancel' hlo] at hbit

theorem and_aff1_eq_zero_iff : a &&& 0xFF00 = 0 ↔ aff1 a = 0 := by
  have hmask : ∀ i < 64, (0xFF00#64).getLsbD i = true ↔ 8 ≤ i ∧ i < 16 := by decide
  show a &&& 0xFF00#64 = 0#64 ↔ a.extractLsb' 8 8 = 0#8
  rw [and_eq_zero_iff_getLsbD, extractLsb'_eq_zero_iff]
  constructor
  · intro h i hi
    exact h _ (by omega) ((hmask _ (by omega)).2 (by omega))
  · intro h i hi hm
    obtain ⟨hlo, hhi⟩ := (hmask i hi).1 hm
    have hbit := h (i - 8) (by omega)
    rwa [Nat.add_sub_cancel' hlo] at hbit

theorem toNat_aff0 (a : Word) : (aff0 a).toNat = a.toNat % 256 := by
  rw [aff0, BitVec.extractLsb'_toNat]
  rfl

theorem toNat_and_aff0 (a : Word) : (a &&& 0xFF).toNat = (aff0 a).toNat := by
  rw [toNat_aff0, BitVec.toNat_and]
  exact Nat.and_two_pow_sub_one_eq_mod a.toNat 8

theorem toNat_and_three (a : Word) : (a &&& 3).toNat = (aff0 a).toNat % 4 := by
  rw [toNat_aff0, BitVec.toNat_and, Nat.mod_mod_of_dvd _ (by decide : 4 ∣ 256)]
  exact Nat.and_two_pow_sub_one_eq_mod a.toNat 2

/-- The number of a core by its place in a cluster, whichever of the two. -/
theorem toNat_and_three_or (a : Word) (cluster1 : Prop) [Decidable cluster1] :
    ((a &&& 3) ||| if cluster1 then 4 else 0).toNat =
      (aff0 a).toNat % 4 + if cluster1 then 4 else 0 := by
  have hor : ∀ k < 4, k ||| 4 = k + 4 := by decide
  have hlt : (aff0 a).toNat % 4 < 4 := Nat.mod_lt _ (by decide)
  by_cases h : cluster1
  · simp only [h, if_true, BitVec.toNat_or, toNat_and_three]
    exact hor _ hlt
  · simp only [h, if_false, Nat.add_zero]
    exact (congrArg BitVec.toNat BitVec.or_zero).trans (toNat_and_three a)

/-! ## The two numberings -/

/-- The two tests of the fields, and the index behind them. -/
theorem mpidrToCpu_eq (a : Word) : mpidrToCpu a =
    if aff3 a ≠ 0 ∨ aff2 a ≠ 0 ∨ 3 < (aff0 a).toNat then none
    else some (Fin.ofNat 8 ((aff0 a).toNat % 4 + if aff1 a ≠ 0 then 4 else 0)) := by
  have htest : (a &&& 0xFF00FF0000 ≠ 0 ∨ a &&& 0xFF > 3) ↔
      aff3 a ≠ 0 ∨ aff2 a ≠ 0 ∨ 3 < (aff0 a).toNat := by
    have hbig : a &&& 0xFF > 3 ↔ 3 < (aff0 a).toNat := by
      rw [← toNat_and_aff0]
      rfl
    rw [hbig, Ne, and_upper_eq_zero_iff, not_and_or, or_assoc]
  have haff1 : a &&& 0xFF00 ≠ 0 ↔ aff1 a ≠ 0 := and_aff1_eq_zero_iff.not
  simp only [mpidrToCpu, toNat_and_three_or, htest, haff1]

theorem mpidrToCpu_eq_none_iff : mpidrToCpu a = none ↔
    aff3 a ≠ 0 ∨ aff2 a ≠ 0 ∨ 3 < (aff0 a).toNat := by
  rw [mpidrToCpu_eq]
  split_ifs with h
  · exact iff_of_true rfl h
  · exact iff_of_false id h

/-- **What a target names**: one place in one of the two clusters. -/
theorem mpidrToCpu_eq_some_iff {cpu : CpuId} : mpidrToCpu a = some cpu ↔
    aff3 a = 0 ∧ aff2 a = 0 ∧ (aff0 a).toNat ≤ 3 ∧
      cpu.val = (aff0 a).toNat + if aff1 a ≠ 0 then 4 else 0 := by
  rw [mpidrToCpu_eq]
  by_cases h : aff3 a ≠ 0 ∨ aff2 a ≠ 0 ∨ 3 < (aff0 a).toNat
  · rw [if_pos h]
    refine iff_of_false (Option.some_ne_none _).symm ?_
    rintro ⟨h3, h2, h0, -⟩
    rcases h with h | h | h
    · exact h h3
    · exact h h2
    · omega
  · rw [if_neg h]
    simp only [not_or, not_not, Nat.not_lt] at h
    obtain ⟨h3, h2, h0⟩ := h
    have hlt : (aff0 a).toNat % 4 + (if aff1 a ≠ 0 then 4 else 0) < 8 := by
      split_ifs <;> omega
    rw [Option.some_inj, Fin.ext_iff, Fin.val_ofNat, Nat.mod_eq_of_lt hlt,
      Nat.mod_eq_of_lt (by omega)]
    constructor
    · intro hcpu
      exact ⟨h3, h2, h0, hcpu.symm⟩
    · intro hcpu
      exact hcpu.2.2.2.symm

theorem toNat_getCPUID (mpidr : Word) :
    (getCPUID mpidr).toNat = (aff0 mpidr).toNat % 4 + if aff1 mpidr ≠ 0 then 4 else 0 := by
  have haff1 : mpidr &&& 0xFF00 ≠ 0 ↔ aff1 mpidr ≠ 0 := and_aff1_eq_zero_iff.not
  have h := toNat_and_three_or mpidr (aff1 mpidr ≠ 0)
  unfold getCPUID
  simp only [haff1]
  split_ifs at h ⊢ with h1
  · exact h
  · exact (congrArg BitVec.toNat BitVec.or_zero).symm.trans h

/-! ## The cores of the chip -/

theorem extractLsb'_affinityFields (mpidr : Word) {s : ℕ} (hs : s ∈ [0, 8, 16, 32]) :
    (affinityFields mpidr).extractLsb' s 8 = mpidr.extractLsb' s 8 := by
  have hmask : ∀ s ∈ [0, 8, 16, 32], ∀ i < 8, (0xFF00FFFFFF#64).getLsbD (s + i) = true := by decide
  apply BitVec.eq_of_getLsbD_eq
  intro i hi
  rw [BitVec.getLsbD_extractLsb', BitVec.getLsbD_extractLsb', affinityFields, BitVec.getLsbD_and]
  exact congrArg _ ((congrArg _ (hmask s hs i hi)).trans (Bool.and_true _))

/-- Cluster 1 is `1` at level 1, and `0` at level 2. -/
theorem setAffinityId_fields (tieoffreg : ℕ → BitVec 32) :
    (setAffinityId tieoffreg 95).extractLsb' 24 8 = 1 ∧
      (setAffinityId tieoffreg 96).extractLsb' 0 4 = 0 := by
  have h95 : setAffinityId tieoffreg 95 = (tieoffreg 95 &&& 0x00FFFFFF#32) ||| 1#32 <<< 24 := by
    simp [setAffinityId]
  have h96 : setAffinityId tieoffreg 96 = tieoffreg 96 &&& 0xF0#32 := by simp [setAffinityId]
  rw [h95, h96]
  constructor
  · have hmask : ∀ i < 8, (0x00FFFFFF#32).getLsbD (24 + i) = false ∧
        (1#32 <<< 24).getLsbD (24 + i) = (1#8).getLsbD i := by decide
    apply BitVec.eq_of_getLsbD_eq
    intro i hi
    rw [BitVec.getLsbD_extractLsb', BitVec.getLsbD_or, BitVec.getLsbD_and, (hmask i hi).1,
      (hmask i hi).2, Bool.and_false, Bool.false_or, decide_eq_true hi, Bool.true_and]
    rfl
  · have hmask : ∀ i < 4, (0xF0#32).getLsbD i = false := by decide
    apply extractLsb'_eq_zero_iff.2
    intro i hi
    rw [BitVec.getLsbD_and, Nat.zero_add, hmask i hi, Bool.and_false]

variable {tieoffreg : ℕ → BitVec 32} {mpidr : CpuId → Word}

/-- `mpidrToCpu` and `GetCPUID` give a core the same number, which is its index. -/
theorem mpidrToCpu_mpidr (h : MpidrOf (setAffinityId tieoffreg) mpidr) (cpu : CpuId) :
    mpidrToCpu (affinityFields (mpidr cpu)) = some cpu ∧
      (getCPUID (mpidr cpu)).toNat = cpu.val := by
  have hindex : ∀ cpu : CpuId, cpu.val &&& 3 ≤ 3 ∧
      (cpu.val &&& 3) + (if cpu.val &&& 4 ≠ 0 then 4 else 0) = cpu.val := by decide
  obtain ⟨hle, hsum⟩ := hindex cpu
  obtain ⟨h95, h96⟩ := setAffinityId_fields tieoffreg
  have h0 := h.aff0 cpu
  have h1 : aff1 (mpidr cpu) ≠ 0 ↔ cpu.val &&& 4 ≠ 0 := by
    rw [h.aff1, h95]
    split_ifs with hc
    · exact iff_of_true (by decide) hc
    · exact iff_of_false (by decide) hc
  have h2 : aff2 (mpidr cpu) = 0 := by
    rw [h.aff2, h96]
    split_ifs <;> rfl
  constructor
  · have e0 : aff0 (affinityFields (mpidr cpu)) = aff0 (mpidr cpu) :=
      extractLsb'_affinityFields _ (by decide)
    have e1 : aff1 (affinityFields (mpidr cpu)) = aff1 (mpidr cpu) :=
      extractLsb'_affinityFields _ (by decide)
    have e2 : aff2 (affinityFields (mpidr cpu)) = aff2 (mpidr cpu) :=
      extractLsb'_affinityFields _ (by decide)
    have e3 : aff3 (affinityFields (mpidr cpu)) = aff3 (mpidr cpu) :=
      extractLsb'_affinityFields _ (by decide)
    rw [mpidrToCpu_eq_some_iff, e0, e1, e2, e3, h0]
    simp only [h1]
    exact ⟨h.aff3 cpu, h2, hle, hsum.symm⟩
  · rw [toNat_getCPUID, h0, Nat.mod_eq_of_lt (by omega)]
    simp only [h1]
    exact hsum

/-- **Target affinities.** Targets of one core agree in `Aff3`, `Aff2` and `Aff0`, and in whether
`Aff1` is `0`; the others are refused by `CPU_ON` and `AFFINITY_INFO`, and each core is numbered
by `GetCPUID` as its own affinity is. -/
theorem target_affinity :
    (∀ (a b : Word) (cpu : CpuId), mpidrToCpu a = some cpu → mpidrToCpu b = some cpu →
      aff3 a = aff3 b ∧ aff2 a = aff2 b ∧ (aff1 a = 0 ↔ aff1 b = 0) ∧ aff0 a = aff0 b) ∧
    (∀ a : Word, aff3 a ≠ 0 ∨ aff2 a ≠ 0 ∨ 3 < (aff0 a).toNat →
      ∀ (s : Psci) (startup entryPoint contextId lowestLevel : Word),
        s.cpuOn startup a entryPoint contextId = (.invalidParameters, s) ∧
          s.affinityInfo a lowestLevel = PsciErrorCodes.invalidParameters.code) ∧
    ∀ (tieoffreg : ℕ → BitVec 32) (mpidr : CpuId → Word),
      MpidrOf (setAffinityId tieoffreg) mpidr → ∀ cpu,
        mpidrToCpu (affinityFields (mpidr cpu)) = some cpu ∧
          (getCPUID (mpidr cpu)).toNat = cpu.val := by
  refine ⟨?_, ?_, fun _ _ h cpu => mpidrToCpu_mpidr h cpu⟩
  · intro a b cpu ha hb
    obtain ⟨ha3, ha2, ha0, ha⟩ := mpidrToCpu_eq_some_iff.1 ha
    obtain ⟨hb3, hb2, hb0, hb⟩ := mpidrToCpu_eq_some_iff.1 hb
    refine ⟨ha3.trans hb3.symm, ha2.trans hb2.symm, ?_, ?_⟩
    · by_cases h1 : aff1 a = 0 <;> by_cases h1' : aff1 b = 0 <;>
        simp only [h1, h1', ne_eq, not_true, not_false_iff, if_true, if_false] at ha hb ⊢ <;> omega
    · apply BitVec.eq_of_toNat_eq
      split_ifs at ha hb <;> omega
  · intro a ha s startup entryPoint contextId lowestLevel
    have hnone := mpidrToCpu_eq_none_iff.2 ha
    exact ⟨by simp only [Psci.cpuOn, hnone], by simp only [Psci.affinityInfo, hnone]⟩

/-- The `MPIDR_EL1`s of the chip: `0x100` to `0x103` in cluster 1. -/
def chipMpidr (cpu : CpuId) : Word :=
  0x80000000#64 ||| (if cpu.val &&& 4 ≠ 0 then 0x100#64 else 0#64) |||
    BitVec.ofNat 64 (cpu.val &&& 3)

theorem target_affinity_chip :
    (aff3 0x103 = aff3 0x403 ∧ aff2 0x103 = aff2 0x403 ∧ (aff1 0x103 = 0 ↔ aff1 0x403 = 0) ∧
      aff0 0x103 = aff0 0x403) ∧
    (psciInit 0 ⟨fun _ => 0, 0, 0⟩).affinityInfo 0x10000 0 =
      PsciErrorCodes.invalidParameters.code ∧
    mpidrToCpu (affinityFields (chipMpidr 6)) = some 6 := by
  have hchip : MpidrOf (setAffinityId fun _ => 0) chipMpidr := by
    constructor <;> decide
  exact ⟨target_affinity.1 0x103 0x403 7 (by decide) (by decide),
    (target_affinity.2.1 0x10000 (by decide) _ 0 0 0 0).2,
    (target_affinity.2.2 _ chipMpidr hchip 6).1⟩

/-- `0x200` is on no chip, and is core 4. -/
theorem mpidrToCpu_alias :
    mpidrToCpu 0x100 = some 4 ∧ mpidrToCpu 0x200 = some 4 ∧ aff1 0x100 ≠ aff1 0x200 := by
  decide

end Gec6818Bl1
