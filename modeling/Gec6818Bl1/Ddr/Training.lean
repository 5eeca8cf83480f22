import Gec6818Bl1.Ddr.Driver

/-!
# The training steps

The five training routines of `init_DDR3.c`. Each of them starts its step, waits for the response
bit for at most 100 tests, stops the step and, if it has `CAL_FAIL_STAT` registers to look at, waits
for these as well (`calibrate`).

* A step whose bits come (`Answers`) is completed by its routine: both loops were broken off, and
  what the step left was read after that, into the globals in force (`completed_calibrate`,
  `Step.completed`).
* A routine keeps what the other steps left (`Step.results_eq`), so that a sequence of steps
  completes each of them (`completed_of_mem`).
* Write levelling leaves its own word in MR1, gate levelling and the read training leave MR3 off
  (`modeRegs_writeLeveling`, `modeRegs_gateLeveling`, `modeRegs_readDq`).
-/

namespace Gec6818Bl1.Ddr

open RegTrace

/-- What a completed step has left, and the register it was read from. -/
def Training.results (g : Globals) : Training → List (Reg × U32)
  | .writeLeveling => [(.wrLvlCon 0, g.gWRlvl)]
  | .gateLeveling => [(.calGtVwmc 0, g.gGTcode), (.calGtCyc, g.gGTcycle)]
  | .readDq => [(.calRdVwmc 0, g.gRDvwmc)]
  | .writeLatency => []
  | .writeDq => [(.calWrVwmc 0, g.gWRvwmc)]

/-! ## The routines -/

section Routines

variable (rd : Readings) (sbi : SecondBootInfo)

/-- How a step is stopped after its response loop. -/
def Training.stop : Training → List RegOp
  | .writeLeveling => [
      clearIO32 (.phyCon 3) (0x1#32 <<< 24),
      clearIO32 (.phyCon 3) (0x1#32 <<< 16),
      clearIO32 (.phyCon 0) (0x1#32 <<< 16)]
  | .gateLeveling => [clearIO32 (.phyCon 3) (0x1#32 <<< 18)]
  | .readDq => [clearIO32 (.phyCon 3) (0x1#32 <<< 19)]
  | .writeLatency => [
      clearIO32 (.phyCon 3) (0x1#32 <<< 21),
      clearIO32 (.phyCon 3) (0x1#32 <<< 20),
      clearIO32 .wrtraConfig (0x1#32 <<< 0)]
  | .writeDq => [
      clearIO32 (.phyCon 2) (0x1#32 <<< 27),
      clearIO32 .wrtraConfig (0x1#32 <<< 0)]

/-- The loops of a step. Without `CAL_FAIL_STAT` registers the second one ends at its first test,
which reads nothing. -/
def calibrate (t : Training) (m : Machine) : Bool × Machine :=
  let (ret, m) := m.respLoop rd t
  let m := m.exec rd t.stop
  if ret then m.failLoop rd t else (false, m)

def startWriteLeveling (m : Machine) : Machine :=
  let m := m.exec rd (sendPlain sbi .pall)
  let m := m.exec rd [.read (.phyCon 2)]
  let m := m.exec rd (sendToRanks sbi .mrs .mr1 (sbi.levelingMr1 1).reg)
  m.exec rd [
    setIO32 (.wrlvlConfig 0) (0x1#32 <<< 0),
    writeIO32 (.wrlvlConfig 1) 0x1,
    writeIO32 (.wrlvlConfig 1) 0x0,
    setIO32 (.lpDdrCon 4) (0x3#32 <<< 7),
    setIO32 (.phyCon 0) (0x1#32 <<< 16),
    writeIO32 (.phyCon 3) (0x1#32 <<< 16)]

def finishWriteLeveling (m : Machine) : Machine :=
  let m := m.exec rd [
    clearIO32 (.wrlvlConfig 0) (0x1#32 <<< 0),
    clearIO32 (.lpDdrCon 4) (0x3#32 <<< 7)]
  let m := m.exec rd (sendToRanks sbi .mrs .mr1 (sbi.levelingMr1 0).reg)
  m.exec rd [setIO32 (.phyCon 3) (0x1#32 <<< 0), clearIO32 (.phyCon 3) (0xFF#32 <<< 0)]

def ddrHwWriteLeveling (m : Machine) : Bool × Machine :=
  let (ret, m) := calibrate rd .writeLeveling (startWriteLeveling rd sbi m)
  let (gWRlvl, m) := m.readResult rd .writeLeveling (.wrLvlCon 0)
  (ret, finishWriteLeveling rd sbi { m with gWRlvl })

def startGateLeveling (m : Machine) : Machine :=
  let m := m.exec rd (sendPlain sbi .pall)
  let m := m.exec rd (sendToRanks sbi .mrs .mr3 (mr3 1).reg)
  m.exec rd [
    setIO32 (.phyCon 2) (0x1#32 <<< 24),
    setIO32 (.phyCon 0) (0x5#32 <<< 6),
    clearIO32 (.phyCon 1) (0xF#32 <<< 20),
    writeIO32 (.phyCon 3) (0x1#32 <<< 18)]

/-- From `gate_err_ret` on. -/
def finishGateLeveling (m : Machine) : Machine :=
  let m := m.exec rd [writeIO32 .lpCon 0x0, clearIO32 .rodtCon (0x1#32 <<< 16)]
  m.exec rd (sendToRanks sbi .mrs .mr3 0)

def ddrGateLeveling (m : Machine) : Bool × Machine :=
  let (ret, m) := calibrate rd .gateLeveling (startGateLeveling rd sbi m)
  let m :=
    if ret then
      let (gGTcode, m) := m.readResult rd .gateLeveling (.calGtVwmc 0)
      let (gGTcycle, m) := m.readResult rd .gateLeveling .calGtCyc
      { m with gGTcode, gGTcycle }
    else m
  let m := finishGateLeveling rd sbi m
  (ret && m.gGTcode != 0x08080808, m)

def startReadDq (m : Machine) : Machine :=
  let m := m.exec rd (sendPlain sbi .pall)
  let m := m.exec rd [.modify (.phyCon 1) (· &&& 0xFFFF0000 ||| 0xFF00)]
  let m := m.exec rd (sendToRanks sbi .mrs .mr3 (mr3 1).reg)
  m.exec rd [
    writeIO32 (.lpDdrCon 2) 0,
    setIO32 (.phyCon 2) (0x1#32 <<< 25),
    writeIO32 (.phyCon 3) (0x1#32 <<< 19)]

def ddrReadDqCalibration (m : Machine) : Bool × Machine :=
  let (ret, m) := calibrate rd .readDq (startReadDq rd sbi m)
  let m :=
    if ret then
      let (gRDvwmc, m) := m.readResult rd .readDq (.calRdVwmc 0)
      { m with gRDvwmc }
    else m
  (ret, m.exec rd (sendToRanks sbi .mrs .mr3 0))

def startWriteLatency (m : Machine) : Machine :=
  m.exec rd [
    writeIO32 .wrtraConfig (0x1#32 <<< 0),
    clearIO32 (.phyCon 0) (0x1#32 <<< 14),
    setIO32 (.phyCon 0) (0x1#32 <<< 14),
    setIO32 (.phyCon 3) (0x1#32 <<< 20),
    setIO32 (.phyCon 3) (0x1#32 <<< 21)]

def ddrWriteLatencyCalibration (m : Machine) : Bool × Machine :=
  calibrate rd .writeLatency (startWriteLatency rd m)

def startWriteDq (m : Machine) : Machine :=
  m.exec rd [
    writeIO32 .wrtraConfig (0x1#32 <<< 0),
    setIO32 (.phyCon 2) (0x1#32 <<< 26),
    setIO32 (.phyCon 2) (0x1#32 <<< 27)]

def ddrWriteDqCalibration (m : Machine) : Bool × Machine :=
  let (ret, m) := calibrate rd .writeDq (startWriteDq rd m)
  let m :=
    if ret then
      let (gWRvwmc, m) := m.readResult rd .writeDq (.calWrVwmc 0)
      { m with gWRvwmc }
    else m
  (ret, m)

end Routines

/-! ## Completion -/

/-- The bits that the step waits for come within its 100 tests. -/
def Answers (rd : Readings) (t : Training) : Prop :=
  (∃ k < 100, (rd (.resp t k)).getLsbD t.respBit = true) ∧
    ∃ j < 100, ∀ i ∈ t.failStats, rd (.failStat t i j) = 0

/-- Between `log` and `log'` the response bit was seen and then, if the step looks at them, the
`CAL_FAIL_STAT` registers were seen to be zero, each within 100 tests. -/
def Seen (rd : Readings) (t : Training) (log log' : History) : Prop :=
  ∃ k < 100, ∃ j < 100, ∃ polled waited : History, log <+: polled ∧
    polled ++ [.read (.resp t k)] <+: waited ∧
    log' = waited ++ t.failStats.map (fun i => .read (.failStat t i j)) ∧
    (rd (.resp t k)).getLsbD t.respBit = true ∧ ∀ i ∈ t.failStats, rd (.failStat t i j) = 0

/-- Since `log` the step has completed, and what it left was read after that. -/
def Completed (rd : Readings) (t : Training) (log : History) (m : Machine) : Prop :=
  ∃ done rest, Seen rd t log done ∧ m.log = done ++ rest ∧
    ∀ p ∈ t.results m.toGlobals, .read (.result t p.1) ∈ rest ∧ p.2 = rd (.result t p.1)

variable {rd : Readings} {sbi : SecondBootInfo} {t : Training} {m m' : Machine}

theorem Completed.answers {log : History} (h : Completed rd t log m) : Answers rd t := by
  obtain ⟨_, _, ⟨k, hk, j, hj, _, _, _, _, _, hbit, hzero⟩, -⟩ := h
  exact ⟨⟨k, hk, hbit⟩, j, hj, hzero⟩

/-- Completion lasts as long as nobody overwrites what the step left. -/
theorem Completed.mono {log log' : History} (h : Completed rd t log m) (hlog : log' <+: log)
    (hm : m.log <+: m'.log) (hres : t.results m'.toGlobals = t.results m.toGlobals) :
    Completed rd t log' m' := by
  obtain ⟨done, rest, ⟨k, hk, j, hj, polled, waited, hpolled, hwaited⟩, heq, hread⟩ := h
  obtain ⟨more, hmore⟩ := hm
  refine ⟨done, rest ++ more, ⟨k, hk, j, hj, polled, waited, hlog.trans hpolled, hwaited⟩, ?_, ?_⟩
  · rw [← hmore, heq, List.append_assoc]
  · intro p hp
    rw [hres] at hp
    obtain ⟨hmem, hval⟩ := hread p hp
    exact ⟨List.mem_append_left _ hmem, hval⟩

/-! ## The loops -/

theorem foldr_or_eq_zero (vs : List U32) : vs.foldr (· ||| ·) 0 = 0 ↔ ∀ v ∈ vs, v = 0 := by
  induction vs with
  | nil => simp
  | cons v vs ih =>
    rw [List.forall_mem_cons, ← ih]
    exact BitVec.or_eq_zero_iff

theorem respLoop_eq_true_iff : (m.respLoop rd t).1 = true ↔
    ∃ k < 100, (rd (.resp t k)).getLsbD t.respBit = true := by
  simp only [Machine.respLoop, poll_eq_true_iff, Nat.zero_le, true_and, Nat.zero_add,
    List.map_cons, List.map_nil, List.all_cons, List.all_nil, Bool.and_true]

theorem failLoop_eq_true_iff : (m.failLoop rd t).1 = true ↔
    ∃ j < 100, ∀ i ∈ t.failStats, rd (.failStat t i j) = 0 := by
  simp only [Machine.failLoop, poll_eq_true_iff, Nat.zero_le, true_and, Nat.zero_add, beq_iff_eq,
    foldr_or_eq_zero, List.map_map, List.forall_mem_map, Function.comp_apply]

theorem respLoop_trace (h : (m.respLoop rd t).1 = true) : ∃ k < 100, ∃ polled : History,
    m.log <+: polled ∧ (m.respLoop rd t).2.log = polled ++ [.read (.resp t k)] ∧
      (rd (.resp t k)).getLsbD t.respBit = true := by
  simp only [Machine.respLoop] at h ⊢
  obtain ⟨k, polled, -, hk, hbit, hpolled, heq⟩ := poll_trace h
  simp only [List.map_cons, List.map_nil, List.all_cons, List.all_nil, Bool.and_true] at hbit
  exact ⟨k, by omega, polled, hpolled, heq, hbit⟩

theorem failLoop_trace (h : (m.failLoop rd t).1 = true) : ∃ j < 100, ∃ waited : History,
    m.log <+: waited ∧
      (m.failLoop rd t).2.log = waited ++ t.failStats.map (fun i => .read (.failStat t i j)) ∧
      ∀ i ∈ t.failStats, rd (.failStat t i j) = 0 := by
  simp only [Machine.failLoop] at h ⊢
  obtain ⟨j, waited, -, hj, hzero, hwaited, heq⟩ := poll_trace h
  rw [beq_iff_eq, foldr_or_eq_zero, List.map_map] at hzero
  rw [List.map_map] at heq
  exact ⟨j, by omega, waited, hwaited, heq, List.forall_mem_map.1 hzero⟩

theorem calibrate_eq_true_iff : (calibrate rd t m).1 = true ↔ Answers rd t := by
  unfold Answers
  rw [← @respLoop_eq_true_iff rd t m]
  simp only [calibrate]
  split_ifs with hresp
  · rw [failLoop_eq_true_iff]
    exact ⟨fun h => ⟨hresp, h⟩, fun h => h.2⟩
  · exact ⟨fun h => h.elim, fun h => absurd h.1 hresp⟩

theorem calibrate_seen (h : Answers rd t) : Seen rd t m.log (calibrate rd t m).2.log := by
  have hresp : (m.respLoop rd t).1 = true := respLoop_eq_true_iff.2 h.1
  obtain ⟨k, hk, polled, hpolled, heq, hbit⟩ := respLoop_trace hresp
  obtain ⟨j, hj, waited, hwaited, heq', hzero⟩ :=
    @failLoop_trace rd t ((m.respLoop rd t).2.exec rd t.stop) (failLoop_eq_true_iff.2 h.2)
  simp only [calibrate, hresp, if_true]
  refine ⟨k, hk, j, hj, polled, waited, hpolled, ?_, heq', hbit, hzero⟩
  rw [← heq]
  exact prefix_exec.trans hwaited

theorem Training.silent_stop (t : Training) : Silent t.stop := by
  cases t <;> simp [stop]

theorem Quiet.calibrate : Quiet m (calibrate rd t m).2 := by
  have hloop : Quiet m ((m.respLoop rd t).2.exec rd t.stop) :=
    Quiet.respLoop.trans (.exec t.silent_stop)
  simp only [Ddr.calibrate]
  split_ifs
  · exact hloop.trans .failLoop
  · exact hloop

/-! ## One step -/

/-- What a training step does: it completes if the bits come, and the other steps keep what they
have left. -/
structure Step (rd : Readings) (t : Training) (m m' : Machine) : Prop where
  prefix_log : m.log <+: m'.log
  results_eq : ∀ t' ≠ t, t'.results m'.toGlobals = t'.results m.toGlobals
  completed : Answers rd t → Completed rd t m.log m'

/-- Straight code before and after the loops, which does not touch the globals. -/
structure Around (m m' : Machine) : Prop where
  prefix_log : m.log <+: m'.log
  globals_eq : m'.toGlobals = m.toGlobals

theorem around_startWriteLeveling : Around m (startWriteLeveling rd sbi m) :=
  ⟨((prefix_exec.trans prefix_exec).trans prefix_exec).trans prefix_exec, rfl⟩

theorem around_finishWriteLeveling : Around m (finishWriteLeveling rd sbi m) :=
  ⟨(prefix_exec.trans prefix_exec).trans prefix_exec, rfl⟩

theorem around_startGateLeveling : Around m (startGateLeveling rd sbi m) :=
  ⟨(prefix_exec.trans prefix_exec).trans prefix_exec, rfl⟩

theorem around_finishGateLeveling : Around m (finishGateLeveling rd sbi m) :=
  ⟨prefix_exec.trans prefix_exec, rfl⟩

theorem around_startReadDq : Around m (startReadDq rd sbi m) :=
  ⟨((prefix_exec.trans prefix_exec).trans prefix_exec).trans prefix_exec, rfl⟩

/-- A step is straight code, the loops, the readings of what it left if it completed, and straight
code: `m₁` is where the loops begin and `m₂` is where the readings have been made. -/
theorem Step.of_around {m₁ m₂ : Machine} (hstart : Around m m₁) (hfinish : Around m₂ m')
    (hlog : (calibrate rd t m₁).2.log <+: m₂.log)
    (hother : ∀ t' ≠ t, t'.results m₂.toGlobals = t'.results (calibrate rd t m₁).2.toGlobals)
    (hreads : (calibrate rd t m₁).1 = true → (calibrate rd t m₁).2.log ++
      (t.results m₂.toGlobals).map (fun p => .read (.result t p.1)) = m₂.log ∧
        ∀ p ∈ t.results m₂.toGlobals, p.2 = rd (.result t p.1)) : Step rd t m m' where
  prefix_log := hstart.prefix_log.trans
    ((Quiet.calibrate.prefix_log.trans hlog).trans hfinish.prefix_log)
  results_eq := fun t' ht' => by
    rw [hfinish.globals_eq, hother t' ht', Quiet.calibrate.globals_eq, hstart.globals_eq]
  completed := fun h => by
    obtain ⟨heq, hval⟩ := hreads (calibrate_eq_true_iff.2 h)
    obtain ⟨k, hk, j, hj, polled, waited, hpolled, hseen⟩ := @calibrate_seen rd t m₁ h
    obtain ⟨more, hmore⟩ := hfinish.prefix_log
    refine ⟨_, _, ⟨k, hk, j, hj, polled, waited, hstart.prefix_log.trans hpolled, hseen⟩,
      hmore.symm.trans ((congrArg (· ++ more) heq.symm).trans (List.append_assoc _ _ _)),
      fun p hp => ?_⟩
    rw [hfinish.globals_eq] at hp
    exact ⟨List.mem_append_left _ (List.mem_map_of_mem hp), hval p hp⟩

/-- A step keeps what the others left: one case for each of them. -/
theorem step_writeLeveling : Step rd .writeLeveling m (ddrHwWriteLeveling rd sbi m).2 := by
  refine Step.of_around around_startWriteLeveling around_finishWriteLeveling
    (List.prefix_append _ _) ?_ fun _ => ⟨rfl, List.forall_mem_singleton.2 rfl⟩
  intro t' ht'
  cases t' with
  | writeLeveling => exact absurd rfl ht'
  | gateLeveling => rfl
  | readDq => rfl
  | writeLatency => rfl
  | writeDq => rfl

theorem step_gateLeveling : Step rd .gateLeveling m (ddrGateLeveling rd sbi m).2 := by
  simp only [ddrGateLeveling]
  refine Step.of_around (@around_startGateLeveling rd sbi m) around_finishGateLeveling ?_ ?_
    fun hret => ?_
  · split_ifs
    · exact (List.prefix_append _ _).trans (List.prefix_append _ _)
    · exact List.prefix_rfl
  · intro t' ht'
    split_ifs
    · cases t' with
      | writeLeveling => rfl
      | gateLeveling => exact absurd rfl ht'
      | readDq => rfl
      | writeLatency => rfl
      | writeDq => rfl
    · rfl
  · rw [if_pos hret]
    exact ⟨(List.append_assoc _ [_] [_]).symm,
      List.forall_mem_cons.2 ⟨rfl, List.forall_mem_singleton.2 rfl⟩⟩

theorem step_readDq : Step rd .readDq m (ddrReadDqCalibration rd sbi m).2 := by
  simp only [ddrReadDqCalibration]
  refine Step.of_around (@around_startReadDq rd sbi m) ⟨prefix_exec, rfl⟩ ?_ ?_ fun hret => ?_
  · split_ifs
    · exact List.prefix_append _ _
    · exact List.prefix_rfl
  · intro t' ht'
    split_ifs
    · cases t' with
      | writeLeveling => rfl
      | gateLeveling => rfl
      | readDq => exact absurd rfl ht'
      | writeLatency => rfl
      | writeDq => rfl
    · rfl
  · rw [if_pos hret]
    exact ⟨rfl, List.forall_mem_singleton.2 rfl⟩

theorem around_startWriteLatency : Around m (startWriteLatency rd m) :=
  ⟨prefix_exec, rfl⟩

theorem around_startWriteDq : Around m (startWriteDq rd m) :=
  ⟨prefix_exec, rfl⟩

theorem Around.refl (m : Machine) : Around m m :=
  ⟨List.prefix_rfl, rfl⟩

theorem step_writeLatency :
    Step rd .writeLatency m (ddrWriteLatencyCalibration rd m).2 := by
  refine Step.of_around (@around_startWriteLatency rd m) (.refl _) List.prefix_rfl
    (fun _ _ => rfl) fun _ => ⟨List.append_nil _, ?_⟩
  intro p hp
  cases hp

theorem step_writeDq : Step rd .writeDq m (ddrWriteDqCalibration rd m).2 := by
  simp only [ddrWriteDqCalibration]
  refine Step.of_around (@around_startWriteDq rd m) (.refl _) ?_ ?_ fun hret => ?_
  · split_ifs
    · exact List.prefix_append _ _
    · exact List.prefix_rfl
  · intro t' ht'
    split_ifs
    · cases t' with
      | writeLeveling => rfl
      | gateLeveling => rfl
      | readDq => rfl
      | writeLatency => rfl
      | writeDq => exact absurd rfl ht'
    · rfl
  · rw [if_pos hret]
    exact ⟨rfl, List.forall_mem_singleton.2 rfl⟩

/-- Gate levelling is content with its response and a code that is not all centres. -/
theorem gateLeveling_eq_true_iff : (ddrGateLeveling rd sbi m).1 = true ↔
    Answers rd .gateLeveling ∧ rd (.result .gateLeveling (.calGtVwmc 0)) ≠ 0x08080808 := by
  rw [← @calibrate_eq_true_iff rd .gateLeveling (startGateLeveling rd sbi m)]
  simp only [ddrGateLeveling, Bool.and_eq_true, bne_iff_ne]
  refine and_congr_right fun hret => ?_
  rw [if_pos hret]
  rfl

/-! ## Several steps -/

/-- Steps taken one after another, each of them by a machine function that does what its routine
does. -/
def runSteps (f : Training → Machine → Machine) (ts : List Training) (m : Machine) : Machine :=
  ts.foldl (fun m t => f t m) m

section Several

variable {f : Training → Machine → Machine}

theorem runSteps_frame (hf : ∀ t m, Step rd t m (f t m)) (ts : List Training) (m : Machine) :
    m.log <+: (runSteps f ts m).log ∧
      ∀ t ∉ ts, t.results (runSteps f ts m).toGlobals = t.results m.toGlobals := by
  induction ts generalizing m with
  | nil => exact ⟨List.prefix_rfl, fun _ _ => rfl⟩
  | cons t ts ih =>
    obtain ⟨hlog, hres⟩ := ih (f t m)
    refine ⟨(hf t m).prefix_log.trans hlog, fun t' ht' => ?_⟩
    obtain ⟨hne, hnot⟩ := not_or.1 (mt List.mem_cons.2 ht')
    exact (hres t' hnot).trans ((hf t m).results_eq t' hne)

/-- Each of the steps has completed in the end, if its bits come. -/
theorem completed_of_mem (hf : ∀ t m, Step rd t m (f t m)) {ts : List Training} (hts : ts.Nodup)
    (ht : t ∈ ts) (h : Answers rd t) (m : Machine) : Completed rd t m.log (runSteps f ts m) := by
  induction ts generalizing m with
  | nil => cases ht
  | cons t₁ ts ih =>
    obtain ⟨hnot, hts⟩ := List.nodup_cons.1 hts
    rcases List.mem_cons.1 ht with rfl | ht
    · obtain ⟨hlog, hres⟩ := runSteps_frame hf ts (f t m)
      exact ((hf t m).completed h).mono List.prefix_rfl hlog (hres t hnot)
    · exact (ih hts ht (f t₁ m)).mono (hf t₁ m).prefix_log List.prefix_rfl rfl

end Several

/-! ## The mode registers -/

section ModeRegisters

variable {rank : ℕ}

theorem modeRegs_startWriteLeveling (hrank : sbi.Present rank) :
    modeRegs (startWriteLeveling rd sbi m).log rank =
      Function.update (modeRegs m.log rank) .mr1 (some (sbi.levelingMr1 1).reg) := by
  unfold startWriteLeveling
  rw [(Quiet.exec (by simp)).modeRegs_eq,
    modeRegs_mrs _ _ hrank, (Quiet.exec (by simp)).modeRegs_eq,
    (Quiet.sendPlain .pall (by decide)).modeRegs_eq]

theorem modeRegs_finishWriteLeveling (hrank : sbi.Present rank) :
    modeRegs (finishWriteLeveling rd sbi m).log rank =
      Function.update (modeRegs m.log rank) .mr1 (some (sbi.levelingMr1 0).reg) := by
  unfold finishWriteLeveling
  rw [(Quiet.exec (by simp)).modeRegs_eq,
    modeRegs_mrs _ _ hrank,
    (Quiet.exec (by simp)).modeRegs_eq]

theorem modeRegs_writeLeveling (hrank : sbi.Present rank) :
    modeRegs (ddrHwWriteLeveling rd sbi m).2.log rank =
      Function.update (modeRegs m.log rank) .mr1 (some (sbi.levelingMr1 0).reg) := by
  simp only [ddrHwWriteLeveling, Machine.readResult]
  rw [modeRegs_finishWriteLeveling hrank, modeRegs_read, Quiet.calibrate.modeRegs_eq,
    modeRegs_startWriteLeveling hrank, Function.update_idem]

theorem modeRegs_gateLeveling (hrank : sbi.Present rank) :
    modeRegs (ddrGateLeveling rd sbi m).2.log rank =
      Function.update (modeRegs m.log rank) .mr3 (some 0) := by
  have hstart : modeRegs (startGateLeveling rd sbi m).log rank =
      Function.update (modeRegs m.log rank) .mr3 (some (mr3 1).reg) := by
    unfold startGateLeveling
    rw [(Quiet.exec (by simp)).modeRegs_eq, modeRegs_mrs _ _ hrank,
      (Quiet.sendPlain .pall (by decide)).modeRegs_eq]
  have hfinish : ∀ m : Machine, modeRegs (finishGateLeveling rd sbi m).log rank =
      Function.update (modeRegs m.log rank) .mr3 (some 0) := fun m => by
    unfold finishGateLeveling
    rw [modeRegs_mrs _ _ hrank,
      (Quiet.exec (by simp)).modeRegs_eq]
  simp only [ddrGateLeveling, Machine.readResult]
  rw [hfinish]
  split_ifs
  · rw [modeRegs_read, modeRegs_read, Quiet.calibrate.modeRegs_eq, hstart, Function.update_idem]
  · rw [Quiet.calibrate.modeRegs_eq, hstart, Function.update_idem]

theorem modeRegs_readDq (hrank : sbi.Present rank) :
    modeRegs (ddrReadDqCalibration rd sbi m).2.log rank =
      Function.update (modeRegs m.log rank) .mr3 (some 0) := by
  have hstart : modeRegs (startReadDq rd sbi m).log rank =
      Function.update (modeRegs m.log rank) .mr3 (some (mr3 1).reg) := by
    unfold startReadDq
    rw [(Quiet.exec (by simp)).modeRegs_eq,
      modeRegs_mrs _ _ hrank, (Quiet.exec (by simp)).modeRegs_eq,
      (Quiet.sendPlain .pall (by decide)).modeRegs_eq]
  simp only [ddrReadDqCalibration, Machine.readResult]
  rw [modeRegs_mrs _ _ hrank]
  split_ifs
  · rw [modeRegs_read, Quiet.calibrate.modeRegs_eq, hstart, Function.update_idem]
  · rw [Quiet.calibrate.modeRegs_eq, hstart, Function.update_idem]

theorem modeRegs_writeLatency :
    modeRegs (ddrWriteLatencyCalibration rd m).2.log = modeRegs m.log := by
  simp only [ddrWriteLatencyCalibration, startWriteLatency]
  rw [Quiet.calibrate.modeRegs_eq, (Quiet.exec (by simp)).modeRegs_eq]

theorem modeRegs_writeDq : modeRegs (ddrWriteDqCalibration rd m).2.log = modeRegs m.log := by
  have hstart : modeRegs (startWriteDq rd m).log = modeRegs m.log :=
    (Quiet.exec (by simp)).modeRegs_eq
  simp only [ddrWriteDqCalibration, Machine.readResult]
  split_ifs
  · rw [modeRegs_read, Quiet.calibrate.modeRegs_eq, hstart]
  · rw [Quiet.calibrate.modeRegs_eq, hstart]

end ModeRegisters

end Gec6818Bl1.Ddr
