import Gec6818Bl1.Lib.Lts
import Gec6818Bl1.Psci.Power
import Mathlib.Data.Fintype.Basic

/-!
# Lost updates of the power-on registers

`PowerOnSecondaryCPU` register access by register access, on several cores at once and for
different targets, beside freshly started cores whose `SubCPUBoot` stores `0` to `CPUPOWERONREQ`.
Setting a mode bit and clearing a request bit are a read and a write of a word that other targets
share, and both stores to the request word overwrite all of it.

**No lost update.** In a run from an idle system, these two hold of every state,

* the request bit of a target stays set from its `WriteIO32` to its `ClearIO32`;
* a mode bit and a reset vector, once written, stay, and a raised request bit has both;

exactly if every write-back of a mode word finds the word as it was read, and every store to
the whole request word (`WriteIO32`, and the `0` of `SubCPUBoot`) is made while no other target's
request is up. The guard makes the requests exclusive, so that the `ClearIO32` of one target writes
back what nobody has changed.
-/

namespace Gec6818Bl1

/-- The next register access of a core, and the target it powers on. -/
inductive PowerPc where
  | idle
  | readMode (t : CpuId)
  /-- `regvalue` is the word as it was read. -/
  | writeMode (t : CpuId) (regvalue : BitVec 32)
  | writeRvbar (t : CpuId)
  | writeResetMode (t : CpuId)
  /-- `WriteIO32(CPUPOWERONREQ, 1 << t)`. -/
  | writeReq (t : CpuId)
  /-- The read of `ClearIO32(CPUPOWERONREQ, 1 << t)`, and its write. -/
  | readReq (t : CpuId)
  | clearReq (t : CpuId) (value : BitVec 32)
  /-- `WriteIO32(CPUPOWERONREQ, 0)` in `SubCPUBoot`. -/
  | subCPUBoot
  deriving DecidableEq, Repr

namespace PowerPc

def target : PowerPc → Option CpuId
  | idle | subCPUBoot => none
  | readMode t | writeMode t _ | writeRvbar t | writeResetMode t | writeReq t | readReq t
  | clearReq t _ => some t

/-- Between the `WriteIO32` for `t` and the end of its `ClearIO32`. -/
def Raising (t : CpuId) (pc : PowerPc) : Prop := pc = readReq t ∨ ∃ value, pc = clearReq t value

instance (t : CpuId) : ∀ pc, Decidable (Raising t pc)
  | readReq u => decidable_of_iff (u = t) (by simp [Raising])
  | clearReq u _ => decidable_of_iff (u = t) (by simp [Raising, eq_comm])
  | idle | subCPUBoot | readMode _ | writeMode _ _ | writeRvbar _ | writeResetMode _
  | writeReq _ => .isFalse (by simp [Raising])

/-- The reset vector of `t` has been written, as far as the core at `pc` is concerned. -/
def VectorDone (t : CpuId) (pc : PowerPc) : Prop :=
  pc = writeResetMode t ∨ pc = writeReq t ∨ pc.Raising t

def ModeDone (t : CpuId) (pc : PowerPc) : Prop := pc = writeRvbar t ∨ pc.VectorDone t

theorem Raising.target {t : CpuId} {pc : PowerPc} (h : pc.Raising t) : pc.target = some t := by
  rcases h with rfl | ⟨_, rfl⟩ <;> rfl

end PowerPc

structure PowerSys where
  regs : PowerRegs
  pc : CpuId → PowerPc
  /-- The targets whose mode bit was written by their `SetVectorLocation`; a record only. -/
  moded : CpuId → Bool
  /-- The same for the reset vectors. -/
  vectored : CpuId → Bool

inductive PowerAction where
  /-- Core `k`, idle, calls `PowerOnSecondaryCPU(t)`. -/
  | call (k t : CpuId)
  /-- Core `k` was started and comes to the store of `SubCPUBoot`. -/
  | start (k : CpuId)
  /-- The next register access of core `k`. -/
  | access (k : CpuId)
  deriving DecidableEq, Repr

namespace PowerSys

variable (vector : BitVec 32)

def setPc (s : PowerSys) (k : CpuId) (pc : PowerPc) : PowerSys :=
  { s with pc := Function.update s.pc k pc }

def setReq (s : PowerSys) (value : BitVec 32) : PowerSys :=
  { s with regs := { s.regs with cpupoweronreq := value } }

def writeTieoff (s : PowerSys) (i : ℕ) (value : BitVec 32) : PowerSys :=
  { s with regs := s.regs.writeTieoff i value }

def access (s : PowerSys) (k : CpuId) : Option PowerSys :=
  match s.pc k with
  | .idle => none
  | .readMode t => some (s.setPc k (.writeMode t (s.regs.tieoffreg (modeReg t))))
  | .writeMode t regvalue =>
    some ({ s.writeTieoff (modeReg t) (regvalue ||| 1#32 <<< modeBit t) with
      moded := Function.update s.moded t true }.setPc k (.writeRvbar t))
  | .writeRvbar t =>
    some ({ s.writeTieoff (rvbarReg t) vector with
      vectored := Function.update s.vectored t true }.setPc k (.writeResetMode t))
  | .writeResetMode t =>
    some ({ s with regs := { s.regs with cpuresetmode := 1 } }.setPc k (.writeReq t))
  | .writeReq t => some ((s.setReq (cpuBit t)).setPc k (.readReq t))
  | .readReq t => some (s.setPc k (.clearReq t s.regs.cpupoweronreq))
  | .clearReq t value => some ((s.setReq (value &&& ~~~cpuBit t)).setPc k .idle)
  | .subCPUBoot => some ((s.setReq 0x00).setPc k .idle)

/-- Calls are for distinct targets. -/
def step (s : PowerSys) : PowerAction → Option PowerSys
  | .call k t =>
    if s.pc k = .idle ∧ ∀ k', (s.pc k').target ≠ some t then some (s.setPc k (.readMode t))
    else none
  | .start k => if s.pc k = .idle then some (s.setPc k .subCPUBoot) else none
  | .access k => s.access vector k

/-- No call in progress, and no request bit set. -/
def idle (tieoffreg : ℕ → BitVec 32) (cpuresetmode : BitVec 32) : PowerSys where
  regs := { tieoffreg, cpuresetmode, cpupoweronreq := 0 }
  pc _ := .idle
  moded _ := false
  vectored _ := false

/-! ## What is at stake -/

/-- `t`'s AArch64 bit. -/
def modeSet (s : PowerSys) (t : CpuId) : Prop :=
  (s.regs.tieoffreg (modeReg t)).getLsbD (modeBit t) = true

def vectorSet (s : PowerSys) (t : CpuId) : Prop := s.regs.tieoffreg (rvbarReg t) = vector

def requested (s : PowerSys) (t : CpuId) : Prop := s.regs.cpupoweronreq.getLsbD t.val = true

instance (s : PowerSys) (t : CpuId) : Decidable (s.modeSet t) := inferInstanceAs (Decidable (_ = _))

instance (s : PowerSys) (t : CpuId) : Decidable (s.requested t) :=
  inferInstanceAs (Decidable (_ = _))

structure NoLostUpdate (s : PowerSys) : Prop where
  /-- From `WriteIO32` to `ClearIO32` the request bit stays set. -/
  raising : ∀ k t, (s.pc k).Raising t → s.requested t
  /-- A raised request bit has its mode bit and its reset vector. -/
  configured : ∀ t, s.requested t → s.modeSet t ∧ s.vectorSet vector t
  /-- What a call has written for its target, nobody undoes. -/
  mode_kept : ∀ t, s.moded t = true → s.modeSet t
  vector_kept : ∀ t, s.vectored t = true → s.vectorSet vector t

/-- No core other than `k` has its request up. -/
def NobodyRaising (s : PowerSys) (k : CpuId) : Prop :=
  ∀ k' t, k' ≠ k → ¬ (s.pc k').Raising t

instance (s : PowerSys) (k : CpuId) : Decidable (s.NobodyRaising k) := by
  unfold NobodyRaising; infer_instance

/-- A mode word is written back as it was read, and the request word is overwritten only while no
other request is up. -/
def Undisturbed (s : PowerSys) : PowerAction → Prop
  | .access k =>
    match s.pc k with
    | .writeMode t regvalue => s.regs.tieoffreg (modeReg t) = regvalue
    | .writeReq _ | .subCPUBoot => s.NobodyRaising k
    | _ => True
  | _ => True

/-! ## The invariant -/

/-- What is true of the registers for a core at `pc`. -/
structure PcOk (s : PowerSys) (pc : PowerPc) : Prop where
  raising : ∀ t, pc.Raising t → s.requested t
  read : ∀ t value u, pc = .clearReq t value → value.getLsbD u.val = true →
    s.moded u = true ∧ s.vectored u = true
  mode_done : ∀ t, pc.ModeDone t → s.moded t = true
  vector_done : ∀ t, pc.VectorDone t → s.vectored t = true
  /-- The mode word has gained bits of other targets since it was read, and lost none. -/
  kept : ∀ t value b, pc = .writeMode t value → value.getLsbD b = true →
    (s.regs.tieoffreg (modeReg t)).getLsbD b = true
  gained : ∀ t value b, pc = .writeMode t value →
    (s.regs.tieoffreg (modeReg t)).getLsbD b = true → value.getLsbD b = true ∨
      ∃ u, u ≠ t ∧ s.moded u = true ∧ modeReg u = modeReg t ∧ modeBit u = b

structure RegsOk (s : PowerSys) : Prop where
  req : ∀ t, s.requested t → s.moded t = true ∧ s.vectored t = true
  mode_kept : ∀ t, s.moded t = true → s.modeSet t
  vector_kept : ∀ t, s.vectored t = true → s.vectorSet vector t

structure PowerInv (s : PowerSys) : Prop where
  local_ok : ∀ k, s.PcOk (s.pc k)
  distinct : ∀ k k' t, (s.pc k).target = some t → (s.pc k').target = some t → k = k'
  exclusive : ∀ k k' t t', (s.pc k).Raising t → (s.pc k').Raising t' → k = k'
  regs_ok : s.RegsOk vector

variable {vector} {s s' : PowerSys} {k : CpuId}

theorem PowerInv.noLostUpdate (h : s.PowerInv vector) : s.NoLostUpdate vector := by
  refine ⟨fun k t hk => (h.local_ok k).raising t hk, fun t ht => ?_, h.regs_ok.mode_kept,
    h.regs_ok.vector_kept⟩
  obtain ⟨hmoded, hvectored⟩ := h.regs_ok.req t ht
  exact ⟨h.regs_ok.mode_kept t hmoded, h.regs_ok.vector_kept t hvectored⟩

theorem idle_inv (tieoffreg : ℕ → BitVec 32) (cpuresetmode : BitVec 32) :
    (idle tieoffreg cpuresetmode).PowerInv vector := by
  refine ⟨fun k => ⟨?_, ?_, ?_, ?_, ?_, ?_⟩, ?_, ?_, ⟨?_, ?_, ?_⟩⟩ <;>
    simp [idle, PowerPc.Raising, PowerPc.ModeDone, PowerPc.VectorDone, PowerPc.target, requested]

/-- What at most one core is at, when a core moves there only if no other one is. -/
theorem eq_of_update {f : CpuId → PowerPc} {pc : PowerPc} {P : PowerPc → Prop}
    (hf : ∀ a b, P (f a) → P (f b) → a = b) (hpc : P pc → ∀ k', k' ≠ k → ¬ P (f k')) (a b : CpuId)
    (ha : P (Function.update f k pc a)) (hb : P (Function.update f k pc b)) : a = b := by
  by_cases hak : a = k <;> by_cases hbk : b = k
  · rw [hak, hbk]
  · rw [hak, Function.update_self] at ha
    rw [Function.update_of_ne hbk] at hb
    exact absurd hb (hpc ha b hbk)
  · rw [hbk, Function.update_self] at hb
    rw [Function.update_of_ne hak] at ha
    exact absurd ha (hpc hb a hak)
  · rw [Function.update_of_ne hak] at ha
    rw [Function.update_of_ne hbk] at hb
    exact hf a b ha hb

/-- One core moves to `pc`, the others stay. -/
theorem PowerInv.update (h : s.PowerInv vector) {pc : PowerPc}
    (hpc : s'.pc = Function.update s.pc k pc) (hself : s'.PcOk pc)
    (hother : ∀ k', k' ≠ k → s'.PcOk (s.pc k'))
    (htarget : ∀ t, pc.target = some t → (s.pc k).target = some t ∨
      ∀ k', (s.pc k').target ≠ some t)
    (hraise : ∀ t, pc.Raising t → (s.pc k).Raising t ∨ s.NobodyRaising k)
    (hregs : s'.RegsOk vector) : s'.PowerInv vector := by
  constructor
  · rw [hpc]
    exact (Function.forall_update_iff _ fun _ pc => s'.PcOk pc).2 ⟨hself, hother⟩
  · intro a b t
    rw [hpc]
    refine eq_of_update (P := fun pc => pc.target = some t) (fun a b => h.distinct a b t) ?_ a b
    intro ht k' hk' ht'
    rcases htarget t ht with hold | hnone
    · exact hk' (h.distinct k' k t ht' hold)
    · exact hnone k' ht'
  · intro a b t t' ha hb
    rw [hpc] at ha hb
    refine eq_of_update (P := fun pc => ∃ t, pc.Raising t)
      (fun a b ⟨t, ha⟩ ⟨t', hb⟩ => h.exclusive a b t t' ha hb) ?_ a b ⟨t, ha⟩ ⟨t', hb⟩
    rintro ⟨t, ht⟩ k' hk' ⟨t', ht'⟩
    rcases hraise t ht with hold | hnobody
    · exact hk' (h.exclusive k' k t' t ht' hold)
    · exact hnobody k' t' hk' ht'
  · exact hregs

/-- What a core knows survives a step of another one that clears no request of its own, undoes no
record, and adds to its mode word only bits of other targets. -/
theorem PcOk.frame {pc : PowerPc} (h : s.PcOk pc)
    (hreq : ∀ t, pc.Raising t → s.requested t → s'.requested t)
    (hmoded : ∀ t, s.moded t = true → s'.moded t = true)
    (hvectored : ∀ t, s.vectored t = true → s'.vectored t = true)
    (hkept : ∀ t value, pc = .writeMode t value → ∀ b,
      (s.regs.tieoffreg (modeReg t)).getLsbD b = true →
      (s'.regs.tieoffreg (modeReg t)).getLsbD b = true)
    (hgained : ∀ t value, pc = .writeMode t value → ∀ b,
      (s'.regs.tieoffreg (modeReg t)).getLsbD b = true →
      (s.regs.tieoffreg (modeReg t)).getLsbD b = true ∨
        ∃ u, u ≠ t ∧ s'.moded u = true ∧ modeReg u = modeReg t ∧ modeBit u = b) :
    s'.PcOk pc := by
  refine ⟨fun t ht => hreq t ht (h.raising t ht), fun t v u hpc hv => ?_,
    fun t ht => hmoded t (h.mode_done t ht), fun t ht => hvectored t (h.vector_done t ht),
    fun t v b hpc hv => hkept t v hpc b (h.kept t v b hpc hv), fun t v b hpc hb => ?_⟩
  · obtain ⟨hu, hu'⟩ := h.read t v u hpc hv
    exact ⟨hmoded u hu, hvectored u hu'⟩
  · rcases hgained t v hpc b hb with hold | hnew
    · rcases h.gained t v b hpc hold with hv | ⟨u, hut, hu, hreg, hbit⟩
      · exact Or.inl hv
      · exact Or.inr ⟨u, hut, hmoded u hu, hreg, hbit⟩
    · exact Or.inr hnew

/-- The frame of a step that touches no register and no record. -/
theorem PcOk.congr {pc : PowerPc} (h : s.PcOk pc) (hregs : s'.regs = s.regs)
    (hmoded : s'.moded = s.moded) (hvectored : s'.vectored = s.vectored) : s'.PcOk pc := by
  refine h.frame ?_ ?_ ?_ ?_ ?_
  · intro t _ ht
    rwa [requested, hregs]
  · intro t ht
    rwa [hmoded]
  · intro t ht
    rwa [hvectored]
  · intro t v _ b hb
    rwa [hregs]
  · intro t v _ b hb
    rw [hregs] at hb
    exact Or.inl hb

theorem RegsOk.congr (h : s.RegsOk vector) (hregs : s'.regs = s.regs)
    (hmoded : s'.moded = s.moded) (hvectored : s'.vectored = s.vectored) :
    s'.RegsOk vector := by
  obtain ⟨hreq, hmode, hvec⟩ := h
  refine ⟨fun t ht => ?_, fun t ht => ?_, fun t ht => ?_⟩
  · rw [requested, hregs] at ht
    rw [hmoded, hvectored]
    exact hreq t ht
  · rw [hmoded] at ht
    rw [modeSet, hregs]
    exact hmode t ht
  · rw [hvectored] at ht
    rw [vectorSet, hregs]
    exact hvec t ht

/-! ## The register accesses -/

theorem requested_setReq_cpuBit (t u : CpuId) :
    (s.setReq (cpuBit t)).requested u ↔ t = u := by
  rw [requested, setReq, getLsbD_cpuBit, decide_eq_true_iff]

theorem requested_setReq_clear (value : BitVec 32) (t u : CpuId) :
    (s.setReq (value &&& ~~~cpuBit t)).requested u ↔ value.getLsbD u.val = true ∧ t ≠ u := by
  have hu : u.val < 32 := lt_trans u.isLt (by decide)
  rw [requested, setReq, BitVec.getLsbD_and, BitVec.getLsbD_not, getLsbD_cpuBit]
  simp only [hu, decide_true, Bool.true_and, Bool.and_eq_true, Bool.not_eq_true',
    decide_eq_false_iff_not, ne_eq]

theorem not_requested_setReq_zero (u : CpuId) : ¬ (s.setReq 0x00).requested u := by
  simp [requested, setReq]

/-- The word of mode bits after a write-back that adds `t`'s bit. -/
theorem mode_word (value : BitVec 32) (t : CpuId) (b : ℕ) :
    (value ||| 1#32 <<< modeBit t).getLsbD b = true ↔
      value.getLsbD b = true ∨ b = modeBit t := by
  have ht := modeBit_lt t
  rw [BitVec.getLsbD_or, Bool.or_eq_true, BitVec.getLsbD_shiftLeft, BitVec.getLsbD_one]
  constructor
  · rintro (hv | hb)
    · exact Or.inl hv
    · simp only [Bool.and_eq_true, decide_eq_true_eq, Bool.not_eq_true',
        decide_eq_false_iff_not] at hb
      exact Or.inr (by omega)
  · rintro (hv | rfl)
    · exact Or.inl hv
    · exact Or.inr (by simp [ht])

theorem writeTieoff_self (i : ℕ) (value : BitVec 32) :
    (s.writeTieoff i value).regs.tieoffreg i = value := Function.update_self ..

theorem writeTieoff_of_ne {i j : ℕ} (h : j ≠ i) (value : BitVec 32) :
    (s.writeTieoff i value).regs.tieoffreg j = s.regs.tieoffreg j := Function.update_of_ne h ..

/-- A record only grows. -/
theorem update_of_true {f : CpuId → Bool} {t u : CpuId} (h : f u = true) :
    Function.update f t true u = true := by
  by_cases hut : u = t
  · rw [hut, Function.update_self]
  · rwa [Function.update_of_ne hut]

theorem access_writeMode (h : s.PowerInv vector) {t : CpuId} {value : BitVec 32}
    (hpc : s.pc k = .writeMode t value) (hguard : s.regs.tieoffreg (modeReg t) = value) :
    PowerInv vector ({ s.writeTieoff (modeReg t) (value ||| 1#32 <<< modeBit t) with
      moded := Function.update s.moded t true }.setPc k (.writeRvbar t)) := by
  -- no bit of the word is lost, and only `t`'s is new
  have hword : ∀ r b, (s.regs.tieoffreg r).getLsbD b = true →
      ((s.writeTieoff (modeReg t) (value ||| 1#32 <<< modeBit t)).regs.tieoffreg r).getLsbD b =
        true := by
    intro r b hb
    by_cases hr : r = modeReg t
    · subst hr
      rw [writeTieoff_self, mode_word, ← hguard]
      exact Or.inl hb
    · rwa [writeTieoff_of_ne hr]
  refine h.update rfl ⟨?_, nofun, ?_, ?_, nofun, nofun⟩ (fun k' hk' => ?_) ?_ ?_ ⟨?_, ?_, ?_⟩
  · simp [PowerPc.Raising]
  · intro u hu
    obtain rfl : t = u := by
      simpa [PowerPc.ModeDone, PowerPc.VectorDone, PowerPc.Raising] using hu
    exact Function.update_self ..
  · simp [PowerPc.VectorDone, PowerPc.Raising]
  · refine (h.local_ok k').frame (fun u _ hu => hu) (fun _ => update_of_true) (fun u hu => hu) ?_ ?_
    · exact fun u v _ b hb => hword (modeReg u) b hb
    · intro u v hpc' b hb
      by_cases hr : modeReg u = modeReg t
      · change ((s.writeTieoff _ _).regs.tieoffreg (modeReg u)).getLsbD b = true at hb
        rw [hr, writeTieoff_self, mode_word] at hb
        rcases hb with hb | rfl
        · exact Or.inl (by rwa [hr, hguard])
        · refine Or.inr ⟨t, ?_, Function.update_self .., hr.symm, rfl⟩
          rintro rfl
          exact hk' (h.distinct k' k t (by rw [hpc']; rfl) (by rw [hpc]; rfl))
      · change ((s.writeTieoff _ _).regs.tieoffreg (modeReg u)).getLsbD b = true at hb
        rw [writeTieoff_of_ne hr] at hb
        exact Or.inl hb
  · rintro u ⟨⟩
    exact Or.inl (by rw [hpc]; rfl)
  · simp [PowerPc.Raising]
  · intro u hu
    obtain ⟨hu, hu'⟩ := h.regs_ok.req u hu
    exact ⟨update_of_true hu, hu'⟩
  · intro u hu
    by_cases hut : u = t
    · subst hut
      change ((s.writeTieoff _ _).regs.tieoffreg (modeReg u)).getLsbD (modeBit u) = true
      rw [writeTieoff_self, mode_word]
      exact Or.inr rfl
    · exact hword _ _ (h.regs_ok.mode_kept u ((Function.update_of_ne hut ..).symm.trans hu))
  · intro u hu
    exact (writeTieoff_of_ne (rvbarReg_ne_modeReg u t) _).trans (h.regs_ok.vector_kept u hu)

theorem access_readMode (h : s.PowerInv vector) {t : CpuId} (hpc : s.pc k = .readMode t) :
    PowerInv vector (s.setPc k (.writeMode t (s.regs.tieoffreg (modeReg t)))) := by
  refine h.update rfl ⟨?_, nofun, ?_, ?_, ?_, ?_⟩ (fun k' hk' => ?_) ?_ ?_
    (h.regs_ok.congr rfl rfl rfl)
  · simp [PowerPc.Raising]
  · simp [PowerPc.ModeDone, PowerPc.VectorDone, PowerPc.Raising]
  · simp [PowerPc.VectorDone, PowerPc.Raising]
  · rintro u v b ⟨⟩ hv
    exact hv
  · rintro u v b ⟨⟩ hv
    exact Or.inl hv
  · exact (h.local_ok k').congr rfl rfl rfl
  · rintro u ⟨⟩
    exact Or.inl (by rw [hpc]; rfl)
  · simp [PowerPc.Raising]

theorem access_writeRvbar (h : s.PowerInv vector) {t : CpuId} (hpc : s.pc k = .writeRvbar t) :
    PowerInv vector ({ s.writeTieoff (rvbarReg t) vector with
      vectored := Function.update s.vectored t true }.setPc k (.writeResetMode t)) := by
  have hmode : ∀ u, (s.writeTieoff (rvbarReg t) vector).regs.tieoffreg (modeReg u) =
      s.regs.tieoffreg (modeReg u) :=
    fun u => writeTieoff_of_ne (Ne.symm (rvbarReg_ne_modeReg t u)) _
  refine h.update rfl ⟨?_, nofun, ?_, ?_, nofun, nofun⟩ (fun k' hk' => ?_) ?_ ?_ ⟨?_, ?_, ?_⟩
  · simp [PowerPc.Raising]
  · intro u hu
    obtain rfl : t = u := by
      simpa [PowerPc.ModeDone, PowerPc.VectorDone, PowerPc.Raising] using hu
    exact (h.local_ok k).mode_done t (Or.inl hpc)
  · intro u hu
    obtain rfl : t = u := by simpa [PowerPc.VectorDone, PowerPc.Raising] using hu
    exact Function.update_self ..
  · refine (h.local_ok k').frame (fun u _ hu => hu) (fun u hu => hu) (fun _ => update_of_true) ?_ ?_
    · intro u v _ b hb
      exact (hmode u).symm ▸ hb
    · intro u v _ b hb
      exact Or.inl ((hmode u) ▸ hb)
  · rintro u ⟨⟩
    exact Or.inl (by rw [hpc]; rfl)
  · simp [PowerPc.Raising]
  · intro u hu
    obtain ⟨hu, hu'⟩ := h.regs_ok.req u hu
    exact ⟨hu, update_of_true hu'⟩
  · intro u hu
    have hset := h.regs_ok.mode_kept u hu
    rw [modeSet, ← hmode u] at hset
    exact hset
  · intro u hu
    by_cases hut : u = t
    · subst hut
      exact writeTieoff_self _ _
    · have hold := h.regs_ok.vector_kept u ((Function.update_of_ne hut ..).symm.trans hu)
      exact (writeTieoff_of_ne (rvbarReg_injective.ne hut) _).trans hold

theorem access_writeResetMode (h : s.PowerInv vector) {t : CpuId}
    (hpc : s.pc k = .writeResetMode t) :
    PowerInv vector ({ s with regs := { s.regs with cpuresetmode := 1 } }.setPc k
      (.writeReq t)) := by
  refine h.update rfl ⟨?_, nofun, ?_, ?_, nofun, nofun⟩ (fun k' hk' => ?_) ?_ ?_ ?_
  · simp [PowerPc.Raising]
  · intro u hu
    obtain rfl : t = u := by
      simpa [PowerPc.ModeDone, PowerPc.VectorDone, PowerPc.Raising] using hu
    exact (h.local_ok k).mode_done t (Or.inr (Or.inl hpc))
  · intro u hu
    obtain rfl : t = u := by simpa [PowerPc.VectorDone, PowerPc.Raising] using hu
    exact (h.local_ok k).vector_done t (Or.inl hpc)
  · exact (h.local_ok k').frame (fun u _ hu => hu) (fun u hu => hu) (fun u hu => hu)
      (fun _ _ _ _ hb => hb) (fun _ _ _ _ hb => Or.inl hb)
  · rintro u ⟨⟩
    exact Or.inl (by rw [hpc]; rfl)
  · simp [PowerPc.Raising]
  · exact ⟨h.regs_ok.req, h.regs_ok.mode_kept, h.regs_ok.vector_kept⟩

/-- A store to the whole request word, while no other request is up, leaves the others' view. -/
theorem PowerInv.setReq_other (h : s.PowerInv vector) {k' : CpuId} (hk' : k' ≠ k)
    (hnobody : s.NobodyRaising k) (value : BitVec 32) (pc : PowerPc) :
    ((s.setReq value).setPc k pc).PcOk (s.pc k') :=
  (h.local_ok k').frame (fun t ht _ => absurd ht (hnobody k' t hk')) (fun _ hu => hu)
    (fun _ hu => hu) (fun _ _ _ _ hb => hb) (fun _ _ _ _ hb => Or.inl hb)

theorem access_writeReq (h : s.PowerInv vector) {t : CpuId} (hpc : s.pc k = .writeReq t)
    (hguard : s.NobodyRaising k) :
    PowerInv vector ((s.setReq (cpuBit t)).setPc k (.readReq t)) := by
  have hmoded : s.moded t = true :=
    (h.local_ok k).mode_done t (Or.inr (Or.inr (Or.inl hpc)))
  have hvectored : s.vectored t = true := (h.local_ok k).vector_done t (Or.inr (Or.inl hpc))
  refine h.update rfl ⟨?_, nofun, ?_, ?_, nofun, nofun⟩
    (fun k' hk' => h.setReq_other hk' hguard _ _) ?_ (fun _ _ => Or.inr hguard) ⟨?_, ?_, ?_⟩
  · intro u hu
    obtain rfl : t = u := by simpa [PowerPc.Raising] using hu
    exact (requested_setReq_cpuBit t t).2 rfl
  · intro u hu
    obtain rfl : t = u := by
      simpa [PowerPc.ModeDone, PowerPc.VectorDone, PowerPc.Raising] using hu
    exact hmoded
  · intro u hu
    obtain rfl : t = u := by simpa [PowerPc.VectorDone, PowerPc.Raising] using hu
    exact hvectored
  · rintro u ⟨⟩
    exact Or.inl (by rw [hpc]; rfl)
  · intro u hu
    obtain rfl : t = u := (requested_setReq_cpuBit t u).1 hu
    exact ⟨hmoded, hvectored⟩
  · exact h.regs_ok.mode_kept
  · exact h.regs_ok.vector_kept

theorem access_readReq (h : s.PowerInv vector) {t : CpuId} (hpc : s.pc k = .readReq t) :
    PowerInv vector (s.setPc k (.clearReq t s.regs.cpupoweronreq)) := by
  have hraising : (s.pc k).Raising t := Or.inl hpc
  have hsame : ∀ u, PowerPc.Raising u (.clearReq t s.regs.cpupoweronreq) → t = u := by
    intro u hu
    simpa [PowerPc.Raising, eq_comm] using hu
  refine h.update rfl ⟨?_, ?_, ?_, ?_, nofun, nofun⟩ (fun k' hk' => ?_) ?_ ?_
    (h.regs_ok.congr rfl rfl rfl)
  · intro u hu
    obtain rfl := hsame u hu
    exact (h.local_ok k).raising t hraising
  · rintro u v w ⟨⟩ hv
    exact h.regs_ok.req w hv
  · intro u hu
    obtain rfl : t = u := by
      simpa [PowerPc.ModeDone, PowerPc.VectorDone, PowerPc.Raising, eq_comm] using hu
    exact (h.local_ok k).mode_done t (Or.inr (Or.inr (Or.inr hraising)))
  · intro u hu
    obtain rfl : t = u := by simpa [PowerPc.VectorDone, PowerPc.Raising, eq_comm] using hu
    exact (h.local_ok k).vector_done t (Or.inr (Or.inr hraising))
  · exact (h.local_ok k').congr rfl rfl rfl
  · rintro u ⟨⟩
    exact Or.inl (by rw [hpc]; rfl)
  · intro u hu
    obtain rfl := hsame u hu
    exact Or.inl hraising

/-- `ClearIO32` writes back what it read: nobody else's request was up in between. -/
theorem access_clearReq (h : s.PowerInv vector) {t : CpuId} {value : BitVec 32}
    (hpc : s.pc k = .clearReq t value) :
    PowerInv vector ((s.setReq (value &&& ~~~cpuBit t)).setPc k .idle) := by
  have hnobody : s.NobodyRaising k := fun k' u hk' hu =>
    hk' (h.exclusive k' k u t hu (Or.inr ⟨value, hpc⟩))
  refine h.update rfl ⟨?_, nofun, ?_, ?_, nofun, nofun⟩
    (fun k' hk' => h.setReq_other hk' hnobody _ _) nofun ?_ ⟨?_, ?_, ?_⟩
  · simp [PowerPc.Raising]
  · simp [PowerPc.ModeDone, PowerPc.VectorDone, PowerPc.Raising]
  · simp [PowerPc.VectorDone, PowerPc.Raising]
  · simp [PowerPc.Raising]
  · intro u hu
    exact (h.local_ok k).read t value u hpc ((requested_setReq_clear value t u).1 hu).1
  · exact h.regs_ok.mode_kept
  · exact h.regs_ok.vector_kept

theorem access_subCPUBoot (h : s.PowerInv vector) (hguard : s.NobodyRaising k) :
    PowerInv vector ((s.setReq 0x00).setPc k .idle) := by
  refine h.update rfl ⟨?_, nofun, ?_, ?_, nofun, nofun⟩
    (fun k' hk' => h.setReq_other hk' hguard _ _) nofun ?_ ⟨?_, ?_, ?_⟩
  · simp [PowerPc.Raising]
  · simp [PowerPc.ModeDone, PowerPc.VectorDone, PowerPc.Raising]
  · simp [PowerPc.VectorDone, PowerPc.Raising]
  · simp [PowerPc.Raising]
  · intro u hu
    exact absurd hu (not_requested_setReq_zero u)
  · exact h.regs_ok.mode_kept
  · exact h.regs_ok.vector_kept

/-! ## Every run -/

/-- A core that takes up something new: nothing of it is in the registers yet. -/
theorem PowerInv.setPc_fresh (h : s.PowerInv vector) {pc : PowerPc}
    (hraise : ∀ t, ¬ pc.Raising t) (hmode : ∀ t, ¬ pc.ModeDone t)
    (hwrite : ∀ t v, pc ≠ .writeMode t v)
    (htarget : ∀ t, pc.target = some t → ∀ k', (s.pc k').target ≠ some t) :
    PowerInv vector (s.setPc k pc) := by
  refine h.update rfl ⟨fun t ht => absurd ht (hraise t), fun t v u hpc => ?_,
    fun t ht => absurd ht (hmode t), fun t ht => absurd (Or.inr ht) (hmode t),
    fun t v b hpc => absurd hpc (hwrite t v), fun t v b hpc => absurd hpc (hwrite t v)⟩
    (fun k' _ => (h.local_ok k').congr rfl rfl rfl) (fun t ht => Or.inr (htarget t ht))
    (fun t ht => absurd ht (hraise t)) (h.regs_ok.congr rfl rfl rfl)
  exact absurd (Or.inr ⟨v, hpc⟩) (hraise t)

theorem PowerInv.step (h : s.PowerInv vector) {a : PowerAction} (hguard : s.Undisturbed a)
    (hstep : s.step vector a = some s') : s'.PowerInv vector := by
  cases a with
  | call k t =>
    simp only [PowerSys.step, Option.ite_none_right_eq_some, Option.some.injEq] at hstep
    obtain ⟨⟨-, hfree⟩, rfl⟩ := hstep
    refine h.setPc_fresh ?_ ?_ nofun ?_
    · simp [PowerPc.Raising]
    · simp [PowerPc.ModeDone, PowerPc.VectorDone, PowerPc.Raising]
    · rintro u ⟨⟩
      exact hfree
  | start k =>
    simp only [PowerSys.step, Option.ite_none_right_eq_some, Option.some.injEq] at hstep
    obtain ⟨-, rfl⟩ := hstep
    refine h.setPc_fresh ?_ ?_ nofun nofun
    · simp [PowerPc.Raising]
    · simp [PowerPc.ModeDone, PowerPc.VectorDone, PowerPc.Raising]
  | access k =>
    cases hpc : s.pc k <;>
      simp only [PowerSys.step, access, hpc, Option.some.injEq, reduceCtorEq] at hstep <;>
      subst hstep <;> simp only [Undisturbed, hpc] at hguard
    case readMode t => exact access_readMode h hpc
    case writeMode t value => exact access_writeMode h hpc hguard
    case writeRvbar t => exact access_writeRvbar h hpc
    case writeResetMode t => exact access_writeResetMode h hpc
    case writeReq t => exact access_writeReq h hpc hguard
    case readReq t => exact access_readReq h hpc
    case clearReq t value => exact access_clearReq h hpc
    case subCPUBoot => exact access_subCPUBoot h hguard

/-- A request that is up when the whole word is overwritten is lost. -/
theorem nobodyRaising_of_setReq {value : BitVec 32} {pc : PowerPc}
    (hlost : ∀ k' t, k' ≠ k → (s.pc k').Raising t → ¬ (s.setReq value).requested t)
    (h : ((s.setReq value).setPc k pc).NoLostUpdate vector) : s.NobodyRaising k := by
  intro k' t hk' ht
  refine hlost k' t hk' ht (h.raising k' t ?_)
  change (Function.update s.pc k pc k').Raising t
  rwa [Function.update_of_ne hk']

/-- A mode word that changed since it was read has gained another target's bit, and the write-back
undoes it. -/
theorem word_of_writeMode (h : s.PowerInv vector) {t : CpuId} {value : BitVec 32}
    (hpc : s.pc k = .writeMode t value)
    (hkept : ∀ u, s.moded u = true → u ≠ t → modeReg u = modeReg t →
      (value ||| 1#32 <<< modeBit t).getLsbD (modeBit u) = true) :
    s.regs.tieoffreg (modeReg t) = value := by
  refine BitVec.eq_of_getLsbD_eq fun b _ => Bool.eq_iff_iff.2 ⟨fun hb => ?_, fun hb => ?_⟩
  · rcases (h.local_ok k).gained t value b hpc hb with hv | ⟨u, hut, hu, hreg, rfl⟩
    · exact hv
    · rcases (mode_word value t _).1 (hkept u hu hut hreg) with hv | hbit
      · exact hv
      · exact absurd hbit (modeBit_ne hut hreg)
  · exact (h.local_ok k).kept t value b hpc hb

theorem undisturbed_of_step (h : s.PowerInv vector) {a : PowerAction}
    (hstep : s.step vector a = some s') (h' : s'.NoLostUpdate vector) : s.Undisturbed a := by
  cases a with
  | call k t => trivial
  | start k => trivial
  | access k =>
    cases hpc : s.pc k <;>
      simp only [PowerSys.step, access, hpc, Option.some.injEq, reduceCtorEq] at hstep <;>
      subst hstep <;> simp only [Undisturbed, hpc]
    case writeMode t value =>
      refine word_of_writeMode h hpc fun u hu hut hreg => ?_
      have hset := h'.mode_kept u ((Function.update_of_ne hut ..).trans hu)
      change ((s.writeTieoff _ _).regs.tieoffreg (modeReg u)).getLsbD (modeBit u) = true at hset
      rwa [hreg, writeTieoff_self] at hset
    case writeReq t =>
      refine nobodyRaising_of_setReq (fun k' u hk' hu hreq => ?_) h'
      obtain rfl : t = u := (requested_setReq_cpuBit t u).1 hreq
      exact hk' (h.distinct k' k t hu.target (by rw [hpc]; rfl))
    case subCPUBoot =>
      exact nobodyRaising_of_setReq (fun _ u _ _ hreq => not_requested_setReq_zero u hreq) h'

/-- **No lost update.** A run from an idle system loses no update in any of its states iff every
step of it is undisturbed. -/
theorem noLostUpdate_iff (tieoffreg : ℕ → BitVec 32) (cpuresetmode : BitVec 32)
    (as : List PowerAction) :
    Lts.Always (PowerSys.step vector) (NoLostUpdate vector) (idle tieoffreg cpuresetmode) as ↔
      Lts.Guarded (PowerSys.step vector) Undisturbed (idle tieoffreg cpuresetmode) as := by
  have hinv : ∀ s a s', PowerInv vector s → s.Undisturbed a → s.step vector a = some s' →
      PowerInv vector s' := fun _ _ _ hs hg hstep => hs.step hg hstep
  constructor
  · intro h
    exact Lts.guarded_of_always hinv (fun _ _ _ hs hstep h' => undisturbed_of_step hs hstep h')
      (idle_inv tieoffreg cpuresetmode) h
  · intro h
    exact (Lts.always_of_invariant hinv (idle_inv tieoffreg cpuresetmode) h).mono
      fun _ hs => hs.noLostUpdate

/-! ## A call on its own -/

/-- With nobody between its accesses, a call is the `PowerOnSecondaryCPU` of the handler. -/
theorem call_alone (startup : BitVec 64) {t : CpuId} (hidle : s.pc k = .idle)
    (hfree : ∀ k', (s.pc k').target ≠ some t) :
    ∃ s', Lts.run (PowerSys.step (resetVector startup)) s
        (.call k t :: List.replicate 7 (.access k)) = some s' ∧
      s'.regs = s.regs.powerOnSecondaryCPU startup t ∧ s'.pc = s.pc := by
  simp only [List.replicate, Lts.run, PowerSys.step, access, hidle, hfree, ne_eq, not_false_eq_true,
    implies_true, and_self, if_true, Option.bind_some, setPc, setReq, writeTieoff,
    Function.update_self, Function.update_idem]
  refine ⟨_, rfl, rfl, ?_⟩
  exact Function.update_eq_self_iff.2 hidle.symm

/-! ## Lost updates -/

/-- Core 0 powers on core 1, core 2 powers on core 3, and their requests overlap. -/
def overlapping : List PowerAction :=
  [.call 0 1, .call 2 3] ++ List.replicate 5 (.access 0) ++ List.replicate 5 (.access 2)

/-- Core 0 reads the mode word, core 2 powers on core 3 up to its request, and core 0 writes the
word back. -/
def staleModeWord : List PowerAction :=
  [.call 0 1, .call 2 3, .access 0] ++ List.replicate 5 (.access 2) ++ [.access 0]

/-- A core that was just started stores `0` over another one's request. -/
def freshStart : List PowerAction :=
  [.call 0 1, .start 5] ++ List.replicate 5 (.access 0) ++ [.access 5]

theorem power_on_lost_updates :
    (∃ s, Lts.run (PowerSys.step 0x3FFFC080) (idle (fun _ => 0) 0) overlapping = some s ∧
      (s.pc 0).Raising 1 ∧ ¬ s.requested 1 ∧ ¬ s.NoLostUpdate 0x3FFFC080) ∧
    (∃ s, Lts.run (PowerSys.step 0x3FFFC080) (idle (fun _ => 0) 0) staleModeWord = some s ∧
      s.requested 3 ∧ ¬ s.modeSet 3 ∧ ¬ s.NoLostUpdate 0x3FFFC080) ∧
    ∃ s, Lts.run (PowerSys.step 0x3FFFC080) (idle (fun _ => 0) 0) freshStart = some s ∧
      (s.pc 0).Raising 1 ∧ ¬ s.requested 1 ∧ ¬ s.NoLostUpdate 0x3FFFC080 := by
  refine ⟨⟨_, rfl, Or.inl rfl, by decide, fun h => ?_⟩,
    ⟨_, rfl, by decide, by decide, fun h => ?_⟩, _, rfl, Or.inl rfl, by decide, fun h => ?_⟩
  · exact absurd (h.raising 0 1 (Or.inl rfl)) (by decide)
  · exact absurd (h.configured 3 (by decide)).1 (by decide)
  · exact absurd (h.raising 0 1 (Or.inl rfl)) (by decide)

end PowerSys

end Gec6818Bl1
