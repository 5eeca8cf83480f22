import Gec6818Bl1.Ddr.InitDDR3

/-!
# When a cold start reports success

`init_DDR3(0)` has five training steps to report on and looks at the result of one. Gate levelling
that fails makes it return `CFALSE`; the others may fail unnoticed, and then it returns `CTRUE` with
training values that nobody has read, or that were read before the hardware was ready.

So the report can be trusted exactly when gate levelling fails, or the bits of every other step that
`LvlTr_Mode` asks for come within its tests (`initDDR3_honest_iff`).
-/

namespace Gec6818Bl1.Ddr

section Honesty

variable {rd : Readings} {sbi : SecondBootInfo} {m m' : Machine} {t : Training} {fuel : ℕ}
  {ret : Bool}

/-- After a success, the steps whose bits come have completed. -/
theorem initDDR3_completed (h : initDDR3 rd sbi 0 fuel m = some (true, m'))
    (ht : sbi.trains t = true) (hans : Answers rd t) : Completed rd t m.log m' := by
  obtain ⟨m₁, hlog, -, hret, hquiet⟩ := initDDR3_eq_some h
  have hrun := training_snd hret
  have hdone : Completed rd t m₁.log (training rd sbi m₁).2 := by
    rw [hrun]
    exact completed_of_mem Step.routine nodup_enabled (mem_enabled.2 ht) hans m₁
  exact hdone.mono hlog hquiet.prefix_log (by rw [hquiet.globals_eq])

/-- **Honesty.** A success means that every training step asked for has completed in this call, if
and only if gate levelling fails or every other step asked for is answered. -/
theorem initDDR3_honest_iff (h : initDDR3 rd sbi 0 fuel m = some (ret, m')) :
    (ret = true → ∀ t, sbi.trains t = true → Completed rd t m.log m') ↔
      (sbi.trains .gateLeveling = true ∧ GateFails rd) ∨
        ∀ t, t ≠ .gateLeveling → sbi.trains t = true → Answers rd t := by
  have hret := initDDR3_ret h
  by_cases hgate : sbi.trains .gateLeveling = true ∧ GateFails rd
  · refine iff_of_true (fun hok => ?_) (.inl hgate)
    exact absurd hgate.2 (hret.1 hok hgate.1)
  · have hok : ret = true := hret.2 fun htrains hfails => hgate ⟨htrains, hfails⟩
    subst hok
    constructor
    · intro hdone
      exact .inr fun t _ ht => (hdone rfl t ht).answers
    · rintro (hfails | hans) - t ht
      · exact absurd hfails hgate
      · refine initDDR3_completed h ht ?_
        by_cases hne : t = .gateLeveling
        · subst hne
          exact not_not.1 fun hno => hgate ⟨ht, .inl hno⟩
        · exact hans t hne ht

end Honesty

/-- A PHY that is ready at once, but gives no response to the write training. -/
def deafToWriteDq : Readings
  | .resp .writeDq _ => 0
  | .failStat _ _ _ => 0
  | .reg .shiftcCon _ => 0x0492
  | _ => 0xFFFFFFFF

theorem writeDq_not_answered : ¬Answers deafToWriteDq .writeDq := by
  rintro ⟨⟨k, -, hbit⟩, -⟩
  simp [deafToWriteDq] at hbit

/-- On that board the write training is asked for, and its failure goes unnoticed. -/
theorem initDDR3_hides_failure : ¬∀ (rd : Readings) (sbi : SecondBootInfo) (fuel : ℕ)
    (m m' : Machine), initDDR3 rd sbi 0 fuel m = some (true, m') →
      ∀ t, sbi.trains t = true → Completed rd t m.log m' := by
  intro hall
  obtain ⟨⟨ret, m'⟩, h⟩ : ∃ p, initDDR3 deafToWriteDq raptor1400 0 2 powerOn = some p :=
    Option.isSome_iff_exists.1 (by decide +kernel)
  obtain rfl : ret = true := (initDDR3_ret h).2 fun _ hfails => by
    rcases hfails with hno | hcode
    · exact hno ⟨⟨0, by decide, by decide⟩, 0, by decide, by decide⟩
    · exact absurd hcode (by decide)
  exact writeDq_not_answered
    (hall _ _ _ _ _ h .writeDq (by decide)).answers

/-- The same run is one that `initDDR3_honest_iff` speaks of. -/
theorem initDDR3_honest_iff_deaf : ∃ ret m',
    initDDR3 deafToWriteDq raptor1400 0 2 powerOn = some (ret, m') ∧
      ((ret = true → ∀ t, raptor1400.trains t = true → Completed deafToWriteDq t [] m') ↔
        (raptor1400.trains .gateLeveling = true ∧ GateFails deafToWriteDq) ∨
          ∀ t, t ≠ .gateLeveling → raptor1400.trains t = true → Answers deafToWriteDq t) := by
  obtain ⟨⟨ret, m'⟩, h⟩ : ∃ p, initDDR3 deafToWriteDq raptor1400 0 2 powerOn = some p :=
    Option.isSome_iff_exists.1 (by decide +kernel)
  exact ⟨ret, m', h, initDDR3_honest_iff h⟩

end Gec6818Bl1.Ddr
