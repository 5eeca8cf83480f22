import Gec6818Bl1.Lib.Lts
import Gec6818Bl1.Ddr.InitDDR3

/-!
# The mode registers in service

A run is a sequence of calls of `init_DDR3(0)`, `enterSelfRefresh` and `exitSelfRefresh`, each with
whatever readings the hardware gives it. The DRAM is in service when the last call was an
`init_DDR3` that succeeded or an `exitSelfRefresh`, and then the mode registers of each rank should
say what the header says (`Programmed`).

MR0, MR2 and MR3 do. MR1 does not: the stores to the one-bit fields keep bit 0 of `x & (1 << 1)`, so
that the high bit of the drive strength and the two high bits of the termination are lost, and write
levelling leaves a drive strength and a termination of its own. `MeetsHeader` says for each call
when this makes no difference, and the runs whose calls all meet it are exactly those in which the
mode registers are right whenever the DRAM is in service (`run_programmed_iff`).
-/

namespace Gec6818Bl1.Ddr

/-- The range of the header's fields. -/
structure SecondBootInfo.InRange (sbi : SecondBootInfo) : Prop where
  chipNum_pos : 1 ≤ sbi.chipNum.toNat
  chipNum_le : sbi.chipNum.toNat ≤ 2
  cl_ge : 5 ≤ sbi.cl.toNat
  cl_le : sbi.cl.toNat ≤ 13
  cwl_ge : 5 ≤ sbi.cwl.toNat
  cwl_le : sbi.cwl.toNat ≤ 12
  mr0Wr_lt : sbi.mr0Wr.toNat < 8
  mr1Al_lt : sbi.mr1Al.toNat < 4
  mr1Ods_lt : sbi.mr1Ods.toNat < 4
  mr1RttNom_lt : sbi.mr1RttNom.toNat < 8
  mr2RttWr_lt : sbi.mr2RttWr.toNat < 4

/-- The mode registers of a rank say what the header says. -/
structure Programmed (sbi : SecondBootInfo) (regs : ModeReg → Option U16) : Prop where
  mr0 : ∃ w, regs .mr0 = some w ∧
    casLatency (SdramMr0.ofReg w).cl = some sbi.cl.toNat ∧
    (SdramMr0.ofReg w).wr.toNat = sbi.mr0Wr.toNat
  mr1 : ∃ w, regs .mr1 = some w ∧
    (SdramMr1.ofReg w).ods.toNat = sbi.mr1Ods.toNat ∧
    (SdramMr1.ofReg w).rttNom.toNat = sbi.mr1RttNom.toNat ∧
    (SdramMr1.ofReg w).al.toNat = sbi.mr1Al.toNat ∧
    (SdramMr1.ofReg w).dll = 0 ∧ (SdramMr1.ofReg w).wl = 0
  mr2 : ∃ w, regs .mr2 = some w ∧
    (SdramMr2.ofReg w).rttWr.toNat = sbi.mr2RttWr.toNat ∧
    (SdramMr2.ofReg w).cwl.toNat = sbi.cwl.toNat - 5
  mr3 : ∃ w, regs .mr3 = some w ∧ (SdramMr3.ofReg w).mpr = 0

/-! ## Runs -/

inductive Call where
  | initDDR3 (rd : Readings) (fuel : ℕ)
  | enterSelfRefresh (rd : Readings) (fuel : ℕ)
  | exitSelfRefresh (rd : Readings)

/-- The machine, whether `init_DDR3` has returned before, and whether the DRAM is in service. -/
structure Dram where
  machine : Machine
  started : Bool
  inService : Bool

/-- A call, if it returns. -/
def Dram.step (sbi : SecondBootInfo) (s : Dram) : Call → Option Dram
  | .initDDR3 rd fuel => (initDDR3 rd sbi 0 fuel s.machine).map fun (ret, machine) =>
      ⟨machine, true, ret⟩
  | .enterSelfRefresh rd fuel => (enterSelfRefresh rd sbi fuel s.machine).map fun machine =>
      ⟨machine, s.started, false⟩
  | .exitSelfRefresh rd => some ⟨exitSelfRefresh rd sbi s.machine, s.started, true⟩

/-- In service, every rank is programmed as the header says. -/
def Right (sbi : SecondBootInfo) (s : Dram) : Prop :=
  s.inService = true →
    ∀ rank < sbi.chipNum.toNat, Programmed sbi (modeRegs s.machine.log rank)

/-- The bits of the header that survive the stores to MR1. -/
def SecondBootInfo.LowMr1 (sbi : SecondBootInfo) : Prop :=
  sbi.mr1Ods.toNat < 2 ∧ sbi.mr1RttNom.toNat < 2

/-- The values that write levelling leaves in MR1. -/
def SecondBootInfo.LevelingMr1 (sbi : SecondBootInfo) : Prop :=
  sbi.mr1Ods.toNat = 1 ∧ sbi.mr1RttNom.toNat = 3

/-- When a call leaves MR1 as the header has it, or the DRAM out of service. -/
def MeetsHeader (sbi : SecondBootInfo) (s : Dram) : Call → Prop
  | .initDDR3 rd _ => (sbi.trains .gateLeveling = true ∧ GateFails rd) ∨
      if sbi.trains .writeLeveling then sbi.LevelingMr1 else sbi.LowMr1
  | .enterSelfRefresh _ _ => True
  | .exitSelfRefresh _ => s.started = true ∧ sbi.LowMr1

/-! ## What the words say -/

section Words

variable {sbi : SecondBootInfo} {regs : ModeReg → Option U16}

/-- Only the drive strength and the termination can be wrong. -/
theorem programmed_iff (hsbi : sbi.InRange) {mr1 : SdramMr1}
    (hmr0 : regs .mr0 = some (sbi.modeWords .mr0)) (hmr1 : regs .mr1 = some mr1.reg)
    (hmr2 : regs .mr2 = some (sbi.modeWords .mr2)) (hmr3 : regs .mr3 = some (sbi.modeWords .mr3))
    (hal : mr1.al = sbi.mr1Al.setWidth 2) (hdll : mr1.dll = 0) (hwl : mr1.wl = 0) :
    Programmed sbi regs ↔
      mr1.ods.toNat = sbi.mr1Ods.toNat ∧ mr1.rttNom.toNat = sbi.mr1RttNom.toNat := by
  constructor
  · intro h
    obtain ⟨w, hw, hods, hrtt, -⟩ := h.mr1
    obtain rfl := Option.some.inj (hmr1.symm.trans hw)
    rw [SdramMr1.ofReg_reg] at hods hrtt
    exact ⟨hods, hrtt⟩
  · rintro ⟨hods, hrtt⟩
    refine ⟨⟨_, hmr0, ?_, ?_⟩, ⟨_, hmr1, ?_⟩, ⟨_, hmr2, ?_, ?_⟩, ⟨_, hmr3, ?_⟩⟩
    · rw [SecondBootInfo.modeWords, SdramMr0.ofReg_reg]
      exact sbi.casLatency_mr0 hsbi.cl_ge hsbi.cl_le
    · rw [SecondBootInfo.modeWords, SdramMr0.ofReg_reg]
      exact (BitVec.toNat_setWidth ..).trans (Nat.mod_eq_of_lt hsbi.mr0Wr_lt)
    · rw [SdramMr1.ofReg_reg]
      refine ⟨hods, hrtt, ?_, hdll, hwl⟩
      rw [hal]
      exact (BitVec.toNat_setWidth ..).trans (Nat.mod_eq_of_lt hsbi.mr1Al_lt)
    · rw [SecondBootInfo.modeWords, SdramMr2.ofReg_reg]
      exact (BitVec.toNat_setWidth ..).trans (Nat.mod_eq_of_lt hsbi.mr2RttWr_lt)
    · rw [SecondBootInfo.modeWords, SdramMr2.ofReg_reg]
      exact sbi.toNat_mr2_cwl _ _ hsbi.cwl_ge hsbi.cwl_le
    · rw [SecondBootInfo.modeWords, SdramMr3.ofReg_reg]
      rfl

theorem mod_two_eq_self {n : ℕ} : n % 2 = n ↔ n < 2 := by
  omega

theorem programmed_modeWords_iff (hsbi : sbi.InRange)
    (h : regs = fun mrx => some (sbi.modeWords mrx)) : Programmed sbi regs ↔ sbi.LowMr1 := by
  subst h
  rw [@programmed_iff sbi _ hsbi (sbi.mr1 0) rfl rfl rfl rfl rfl rfl rfl, sbi.toNat_mr1_ods,
    sbi.toNat_mr1_rttNom, mod_two_eq_self, mod_two_eq_self]
  rfl

theorem programmed_initWords_iff (hsbi : sbi.InRange)
    (h : regs = fun mrx => some (sbi.initWords mrx)) : Programmed sbi regs ↔
      if sbi.trains .writeLeveling then sbi.LevelingMr1 else sbi.LowMr1 := by
  unfold SecondBootInfo.initWords at h
  split_ifs at h ⊢
  · subst h
    rw [@programmed_iff sbi _ hsbi (sbi.levelingMr1 0) rfl rfl rfl rfl rfl rfl rfl,
      sbi.toNat_levelingMr1_ods, sbi.toNat_levelingMr1_rttNom]
    exact and_congr eq_comm eq_comm
  · exact programmed_modeWords_iff hsbi h

end Words

/-! ## What a call does -/

section Steps

variable {sbi : SecondBootInfo} {s s' : Dram} {c : Call} {rd : Readings} {fuel : ℕ}

theorem Dram.step_initDDR3 : s.step sbi (.initDDR3 rd fuel) = some s' ↔
    ∃ ret m', initDDR3 rd sbi 0 fuel s.machine = some (ret, m') ∧ ⟨m', true, ret⟩ = s' :=
  Option.map_eq_some_iff.trans Prod.exists

theorem Dram.step_enterSelfRefresh : s.step sbi (.enterSelfRefresh rd fuel) = some s' ↔
    ∃ m', enterSelfRefresh rd sbi fuel s.machine = some m' ∧ ⟨m', s.started, false⟩ = s' :=
  Option.map_eq_some_iff

/-- Once `init_DDR3` has returned, MR0 and MR3 are what it has made them; before, MR0 is unset. -/
def Dram.Inv (sbi : SecondBootInfo) (s : Dram) : Prop :=
  ∀ rank, sbi.Present rank →
    if s.started then
      modeRegs s.machine.log rank .mr0 = some (sbi.modeWords .mr0) ∧
        modeRegs s.machine.log rank .mr3 = some (sbi.modeWords .mr3)
    else modeRegs s.machine.log rank .mr0 = none

theorem Dram.Inv.step (hs : s.Inv sbi) (h : s.step sbi c = some s') : s'.Inv sbi := by
  intro rank hrank
  have hinv := hs rank hrank
  cases c with
  | initDDR3 rd fuel =>
    obtain ⟨ret, m', hinit, rfl⟩ := Dram.step_initDDR3.1 h
    rw [modeRegs_initDDR3 hinit hrank, if_pos rfl]
    exact ⟨congrArg some (sbi.initWords_of_ne (by decide)),
      congrArg some (sbi.initWords_of_ne (by decide))⟩
  | enterSelfRefresh rd fuel =>
    obtain ⟨m', henter, rfl⟩ := Dram.step_enterSelfRefresh.1 h
    rw [modeRegs_enterSelfRefresh henter hrank]
    exact hinv
  | exitSelfRefresh rd =>
    obtain rfl := Option.some.inj h
    rw [modeRegs_exitSelfRefresh hrank]
    exact hinv

/-- All ranks get the same words, and there is one. -/
theorem forall_rank_iff (hsbi : sbi.InRange) {m : Machine} {Q : Prop}
    (hQ : ∀ rank, sbi.Present rank → (Programmed sbi (modeRegs m.log rank) ↔ Q)) :
    (∀ rank < sbi.chipNum.toNat, Programmed sbi (modeRegs m.log rank)) ↔ Q := by
  constructor
  · intro hall
    exact (hQ 0 (.inl rfl)).1 (hall 0 hsbi.chipNum_pos)
  · intro hq rank hrank
    exact (hQ rank (SecondBootInfo.present_of_lt hsbi.chipNum_le hrank)).2 hq

theorem programmed_exitSelfRefresh_iff {rank : ℕ} (hsbi : sbi.InRange)
    (hs : s.Inv sbi) (hrank : sbi.Present rank) :
    Programmed sbi (modeRegs (exitSelfRefresh rd sbi s.machine).log rank) ↔
      s.started = true ∧ sbi.LowMr1 := by
  have hinv := hs rank hrank
  rw [modeRegs_exitSelfRefresh hrank]
  by_cases hstarted : s.started = true
  · rw [if_pos hstarted] at hinv
    rw [and_iff_right hstarted]
    refine programmed_modeWords_iff hsbi (funext fun mrx => ?_)
    cases mrx with
    | mr0 => exact hinv.1
    | mr1 => rfl
    | mr2 => rfl
    | mr3 => exact hinv.2
  · rw [if_neg hstarted] at hinv
    refine iff_of_false (fun hprog => ?_) fun hboth => hstarted hboth.1
    obtain ⟨w, hw, -⟩ := hprog.mr0
    exact Option.some_ne_none w (hw.symm.trans hinv)

/-- Whether a call leaves the right words is a matter of the header, the readings and what has been
called before. -/
theorem right_iff (hsbi : sbi.InRange) (hs : s.Inv sbi) (h : s.step sbi c = some s') :
    Right sbi s' ↔ MeetsHeader sbi s c := by
  cases c with
  | initDDR3 rd fuel =>
    obtain ⟨ret, m', hinit, rfl⟩ := Dram.step_initDDR3.1 h
    have hwords := forall_rank_iff hsbi fun rank hrank =>
      programmed_initWords_iff hsbi (modeRegs_initDDR3 hinit hrank)
    simp only [Right, MeetsHeader]
    rw [hwords, initDDR3_ret hinit]
    by_cases hgate : sbi.trains .gateLeveling = true ∧ GateFails rd
    · exact iff_of_true (fun hok => absurd hgate.2 (hok hgate.1)) (.inl hgate)
    · rw [or_iff_right hgate, forall_prop_of_true fun htrains hfails => hgate ⟨htrains, hfails⟩]
  | enterSelfRefresh rd fuel =>
    obtain ⟨m', henter, rfl⟩ := Dram.step_enterSelfRefresh.1 h
    exact iff_of_true (fun hservice => absurd hservice Bool.false_ne_true) trivial
  | exitSelfRefresh rd =>
    obtain rfl := Option.some.inj h
    simp only [Right, MeetsHeader]
    rw [forall_rank_iff hsbi fun rank hrank => programmed_exitSelfRefresh_iff hsbi hs hrank]
    exact forall_prop_of_true trivial

end Steps

/-! ## Runs of calls -/

/-- Nothing has been called. -/
def Dram.off (m : Machine) : Dram := ⟨m, false, false⟩

theorem Dram.inv_off {sbi : SecondBootInfo} {m : Machine} (hm : m.log = []) :
    (Dram.off m).Inv sbi := by
  intro rank _
  unfold modeRegs
  rw [Dram.off, hm]
  rfl

/-- **The mode registers in service.** In a run from power on, the mode registers of every rank say
what the header says whenever the DRAM is in service, if and only if every call of the run meets the
header. -/
theorem run_programmed_iff (sbi : SecondBootInfo) (hsbi : sbi.InRange) (m : Machine)
    (hm : m.log = []) (calls : List Call) :
    Lts.Always (Dram.step sbi) (Right sbi) (.off m) calls ↔
      Lts.Guarded (Dram.step sbi) (MeetsHeader sbi) (.off m) calls := by
  apply Lts.always_iff_guarded (P := Dram.Inv sbi)
  · exact fun s c s' hs h => hs.step h
  · exact fun s c s' hs h => right_iff hsbi hs h
  · exact Dram.inv_off hm
  · exact fun hservice => absurd hservice Bool.false_ne_true

/-- A PHY and a controller that are ready at once and pass every training. -/
def promptPhy : Readings
  | .failStat _ _ _ => 0
  | .reg .shiftcCon _ => 0x0492
  | .reg .chipStatus _ => 0x300
  | _ => 0xFFFFFFFF

/-- The board of `raptor1400` with weak bits that fit into the fields. -/
def weakTermination : SecondBootInfo :=
  { raptor1400 with mr1Ods := 1, mr1RttNom := 1 }

/-- A cold start and a suspend with that header. -/
theorem run_programmed_iff_weakTermination :
    Lts.Always (Dram.step weakTermination) (Right weakTermination) (.off powerOn)
      [.initDDR3 promptPhy 2, .enterSelfRefresh promptPhy 2, .exitSelfRefresh promptPhy] := by
  refine (run_programmed_iff weakTermination ?_ powerOn rfl _).2 ?_
  · constructor <;> decide
  · intro s₁ h₁
    refine ⟨.inr ?_, fun s₂ h₂ => ⟨trivial, fun s₃ _ => ⟨⟨?_, by decide, by decide⟩, trivial⟩⟩⟩
    · rw [if_neg (by decide)]
      exact ⟨by decide, by decide⟩
    · obtain ⟨_, _, -, rfl⟩ := Dram.step_initDDR3.1 h₁
      obtain ⟨_, -, rfl⟩ := Dram.step_enterSelfRefresh.1 h₂
      rfl

theorem raptor1400_inRange : raptor1400.InRange := by
  constructor <;> decide

/-- The termination of `raptor1400` is two, and a cold start that succeeds turns it off. -/
theorem raptor1400_termination_lost : ¬∀ sbi : SecondBootInfo, sbi.InRange → ∀ m : Machine,
    m.log = [] → ∀ calls, Lts.Always (Dram.step sbi) (Right sbi) (.off m) calls := by
  intro hall
  have hrun := hall raptor1400 raptor1400_inRange powerOn rfl [.initDDR3 promptPhy 2]
  obtain ⟨p, hinit⟩ : ∃ p, initDDR3 promptPhy raptor1400 0 2 powerOn = some p :=
    Option.isSome_iff_exists.1 (by decide +kernel)
  have hstep : (Dram.off powerOn).step raptor1400 (.initDDR3 promptPhy 2) = some ⟨p.2, true, p.1⟩ :=
    Dram.step_initDDR3.2 ⟨p.1, p.2, hinit, rfl⟩
  have hmeets := (right_iff raptor1400_inRange (Dram.inv_off rfl) hstep).1 (hrun.2 _ hstep)
  rcases hmeets with ⟨-, hfails⟩ | hlow
  · rcases hfails with hno | hcode
    · exact hno ⟨⟨0, by decide, by decide⟩, 0, by decide, by decide⟩
    · exact absurd hcode (by decide)
  · rw [if_neg (by decide)] at hlow
    exact absurd hlow.2 (by decide)

end Gec6818Bl1.Ddr
