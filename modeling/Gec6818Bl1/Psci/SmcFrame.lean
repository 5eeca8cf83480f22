import Gec6818Bl1.Lib.WordStack
import Gec6818Bl1.Psci.Handler

/-!
# The frame of an SMC

The vector entry saves `x0` to `x30` on the stack of EL3, hands a pointer to them to
`sync_c_handler_EL3`, and loads them again before its `eret`. `psciHandler` reads its arguments
through that pointer and leaves its result in `regs[0]`.

* **The save area.** Sixteen pairs go on the stack, `xzr` and `x0` last, so `regs[i]` at
  `sp + 8 + 8 * i` is `x i` as it was at the exception (`holds_save`), `x29` too, which holds
  the number of the exception by then.
* **What comes back.** C code may clobber registers and the stack below; the frame is what the
  sixteen loads go by (`restore_of_holds`).
* **The dispatcher.** `handlerCase` is the `switch` of `psciHandler` alone, and `PSCI_FEATURES`
  knows exactly the ids that have a case in it (`psciFeatures_eq_success_iff`).
-/

namespace Gec6818Bl1

open ByteMem WordStack

/-- A register operand; `none` is `xzr`. -/
abbrev Xn := Option (Fin 31)

instance lawfulBEq_xn : LawfulBEq Xn := inferInstance

def Xn.value (x : Regs) : Xn → Word
  | none => 0
  | some r => x r

/-- What an exception to EL3 finds and its handler works with. -/
structure Core where
  x : Regs
  sp : Word
  mem : Mem 64
  elrEl3 : Word
  spsrEl3 : Word
  currentEL : Word
  esrEl1 : Word
  esrEl2 : Word
  esrEl3 : Word

namespace Core

def setX (c : Core) (r : Fin 31) (v : Word) : Core := { c with x := Function.update c.x r v }

def load (c : Core) : Xn → Word → Core
  | none, _ => c
  | some r, v => c.setX r v

/-- `stp xt1, xt2, [sp, -16]!`. -/
def stp (c : Core) (r : Xn × Xn) : Core :=
  let (mem, sp) := push2 c.mem c.sp (Xn.value c.x r.1) (Xn.value c.x r.2)
  { c with mem, sp }

/-- `ldp xt1, xt2, [sp], 16`. -/
def ldp (c : Core) (r : Xn × Xn) : Core :=
  let v1 := load64 c.mem c.sp
  let v2 := load64 c.mem (c.sp + 8#64)
  { (c.load r.1 v1).load r.2 v2 with sp := c.sp + 16#64 }

/-- The pairs that `.Lexc_common` pushes. -/
def commonPairs : List (Xn × Xn) :=
  [(some 27, some 28), (some 25, some 26), (some 23, some 24), (some 21, some 22),
    (some 19, some 20), (some 17, some 18), (some 15, some 16), (some 13, some 14),
    (some 11, some 12), (some 9, some 10), (some 7, some 8), (some 5, some 6), (some 3, some 4),
    (some 1, some 2), (none, some 0)]

/-- The pairs that it pops. -/
def restorePairs : List (Xn × Xn) :=
  [(none, some 0), (some 1, some 2), (some 3, some 4), (some 5, some 6), (some 7, some 8),
    (some 9, some 10), (some 11, some 12), (some 13, some 14), (some 15, some 16),
    (some 17, some 18), (some 19, some 20), (some 21, some 22), (some 23, some 24),
    (some 25, some 26), (some 27, some 28), (some 29, some 30)]

/-- `vecentry`, at this offset of the table. -/
def vecentry (offset : Word) (c : Core) : Core :=
  (c.stp (some 29, some 30)).setX 29 offset

/-- `.Lexc_common` down to the arguments of the call. -/
def excCommon (c : Core) : Core :=
  let c := commonPairs.foldl stp c
  let level := (c.currentEL >>> 2) &&& 3
  let esr := if level = 3 then c.esrEl3 else if level = 2 then c.esrEl2 else c.esrEl1
  ((c.setX 1 esr).setX 0 (c.x 29)).setX 2 (c.sp + 8#64)

def restore (c : Core) : Core := restorePairs.foldl ldp c

/-- `smc #0` in AArch64 state below EL3. -/
def takeSmc (c : Core) (pc pstate : Word) : Core :=
  { c with elrEl3 := pc + 4, spsrEl3 := pstate, currentEL := 0xC, esrEl3 := 0x5E000000 }

end Core

/-! ## The C handler -/

/-- What C code leaves anything in: the registers after the call, and the stack below the frame. -/
structure Clobbered where
  x : Regs
  mem : Mem 64

/-- `regs[0]` to `regs[30]`. -/
def regsAt (mem : Mem 64) (regs : Word) : Regs :=
  fun i => load64 mem (regs + BitVec.ofNat 64 (8 * i.val))

/-- `PrepareNonSecureEntry`, of which only the return address and mode are kept. -/
def prepareNonSecureEntry (entry : Word) (c : Core) : Core :=
  { c with elrEl3 := entry, spsrEl3 := 0x3C9 }

/-- `psciHandler`, on the registers in memory. `onWake` is what the other cores have made of the
state when the wait in `cpuOff` ends; a call that never returns has no result. -/
def psciHandlerAt (startup : Word) (cpu : CpuId) (onWake : Psci) (regs : Word) (s : Psci)
    (c : Core) : Option (Psci × Core) :=
  match s.psciHandler startup cpu (regsAt c.mem regs) with
  | (s, some saved) => some (s, { c with mem := store64 c.mem regs (saved 0) })
  | (s, none) =>
    match s.loc cpu with
    | .parkedInSmc saved =>
      if (onWake.cpus cpu).state = .onPending then
        let s := onWake.enterFromSmc cpu saved
        let c := prepareNonSecureEntry (s.cpus cpu).entry c
        some (s, { c with mem := store64 c.mem regs (s.cpus cpu).context })
      else none
    | _ => none

/-- `sync_c_handler_EL3`: an interrupt is acknowledged, `smc #0` is a call, anything else resets the
board. -/
def syncCHandlerEL3 (startup : Word) (cpu : CpuId) (onWake : Psci) (exc esr : BitVec 32)
    (regs : Word) (s : Psci) (c : Core) : Option (Psci × Core) :=
  let excClass := esr >>> 26
  let excSyndrome := esr &&& 0x1FFFFFF
  if exc = 0x280 then some (s, c)
  else if exc = 0x400 ∧ excClass = 0x17 ∧ excSyndrome = 0 then
    psciHandlerAt startup cpu onWake regs s c
  else none

/-- The return from the call, and the loads: C code keeps `sp` and what is above it. -/
def Core.afterCall (clobbered : Clobbered) (c : Core) : Core :=
  { c with
    x := clobbered.x
    mem := fun a => if offset c.sp a < 256 then c.mem a else clobbered.mem a }.restore

/-- The state at the call of `sync_c_handler_EL3`. -/
def atHandler (pc pstate : Word) (c : Core) : Core :=
  ((c.takeSmc pc pstate).vecentry 0x400).excCommon

/-- A whole SMC, from the exception to the `eret`. -/
def smc (startup : Word) (cpu : CpuId) (onWake : Psci) (clobbered : Clobbered) (pc pstate : Word)
    (s : Psci) (c : Core) : Option (Psci × Core) := do
  let c := atHandler pc pstate c
  let (s, c) ← syncCHandlerEL3 startup cpu onWake ((c.x 0).setWidth 32) ((c.x 1).setWidth 32)
    (c.x 2) s c
  return (s, c.afterCall clobbered)

/-! ## The dispatcher -/

/-- The cases of the `switch` in `psciHandler`. -/
inductive HandlerCase where
  | version
  | cpuSuspend
  | cpuOff
  | cpuOn
  | affinityInfo
  | migrateInfoType
  | systemOff
  | systemReset
  | features
  | default
  deriving DecidableEq, Repr

/-- The case of a function id. -/
def handlerCase (function : Word) : HandlerCase :=
  if function = PsciFunction.version then .version
  else if function = PsciFunction.cpuSuspend ∨ function = PsciFunction.cpuSuspend64 then .cpuSuspend
  else if function = PsciFunction.cpuOff then .cpuOff
  else if function = PsciFunction.cpuOn ∨ function = PsciFunction.cpuOn64 then .cpuOn
  else if function = PsciFunction.affinityInfo ∨ function = PsciFunction.affinityInfo64 then
    .affinityInfo
  else if function = PsciFunction.migrateInfoType then .migrateInfoType
  else if function = PsciFunction.systemOff then .systemOff
  else if function = PsciFunction.systemReset then .systemReset
  else if function = PsciFunction.features then .features
  else .default

/-- What the handler does in a case: its state, and the result unless it has none. -/
def HandlerCase.run (startup : Word) (cpu : CpuId) (regs : Regs) (s : Psci) :
    HandlerCase → Psci × Option Word
  | version => (s, some 0x10000)
  | cpuSuspend => (s, some (Psci.cpuSuspend (regs 1)).code)
  | cpuOff => (s.cpuOff cpu regs, none)
  | cpuOn =>
    let (result, s) := s.cpuOn startup (regs 1) (regs 2) (regs 3)
    (s, some result.code)
  | affinityInfo => (s, some (s.affinityInfo (regs 1) (regs 2)))
  | migrateInfoType => (s, some 2)
  | systemOff => (s.setLoc cpu .stopped, none)
  | systemReset => (s.setLoc cpu .stopped, none)
  | features => (s, some (Psci.psciFeatures (regs 1 &&& 0xFFFFFFFF)).code)
  | default => (s, some PsciErrorCodes.notSupported.code)

theorem psciHandler_eq_run (startup : Word) (cpu : CpuId) (regs : Regs) (s : Psci) :
    s.psciHandler startup cpu regs =
      (((handlerCase (regs 0 &&& 0xFFFFFFFF)).run startup cpu regs s).1,
        ((handlerCase (regs 0 &&& 0xFFFFFFFF)).run startup cpu regs s).2.map
          (Function.update regs 0)) := by
  unfold Psci.psciHandler handlerCase
  dsimp only
  split_ifs <;> first | rfl | simp_all

/-- The two lists of ids agree. -/
theorem psciFeatures_eq_success_iff (function : Word) :
    Psci.psciFeatures function = .success ↔ handlerCase function ≠ .default := by
  unfold Psci.psciFeatures handlerCase
  split_ifs <;> simp_all

/-! ## The save area -/

namespace Core

variable {c : Core} {ws : List Word} {x : Regs} {v : Word}

/-- The slots of the frame, from the top of the stack. -/
def frameOperands : List Xn := restorePairs.flatMap fun r => [r.1, r.2]

/-- The frame that holds these registers. -/
def frame (x : Regs) : List Word := frameOperands.map (Xn.value x)

theorem getElem?_frame (x : Regs) (i : Fin 31) : (frame x)[i.val + 1]? = some (x i) := by
  have hslot : ∀ i : Fin 31, frameOperands[i.val + 1]? = some (some i) := by decide
  rw [frame, List.getElem?_map, hslot]
  rfl

theorem set_frame (x : Regs) (v : Word) : (frame x).set 1 v = frame (Function.update x 0 v) := by
  rfl

/-- What a list of pushes leaves on the stack. -/
theorem holds_foldl_stp (pairs : List (Xn × Xn)) (h : Holds c.mem c.sp ws)
    (hw : 8 * ws.length + 16 * pairs.length ≤ 2 ^ 64) :
    Holds (pairs.foldl stp c).mem (pairs.foldl stp c).sp
      ((pairs.reverse.flatMap fun r => [r.1, r.2]).map (Xn.value c.x) ++ ws) := by
  induction pairs generalizing c ws with
  | nil => exact h
  | cons r pairs ih =>
    simp only [List.length_cons] at hw
    have hpush : Holds (c.stp r).mem (c.stp r).sp
        (Xn.value c.x r.1 :: Xn.value c.x r.2 :: ws) := h.push2 (by omega)
    have hrest := ih hpush (by simp only [List.length_cons]; omega)
    have hx : (c.stp r).x = c.x := rfl
    simpa [hx] using hrest

/-- The pushes leave everything else alone. -/
theorem foldl_stp (pairs : List (Xn × Xn)) :
    pairs.foldl stp c = { c with mem := (pairs.foldl stp c).mem, sp := (pairs.foldl stp c).sp } ∧
      (pairs.foldl stp c).sp = c.sp - BitVec.ofNat 64 (16 * pairs.length) := by
  induction pairs generalizing c with
  | nil => exact ⟨rfl, (BitVec.sub_zero _).symm⟩
  | cons r pairs ih =>
    obtain ⟨hrest, hsp⟩ := ih (c := c.stp r)
    refine ⟨hrest, ?_⟩
    rw [List.foldl_cons, hsp, List.length_cons, Nat.mul_add, BitVec.ofNat_add, BitVec.add_comm,
      ← BitVec.sub_sub]
    rfl

theorem load_x (c : Core) (y : Regs) (r : Xn) (i : Fin 31) :
    (c.load r (r.value y)).x i = if some i = r then y i else c.x i := by
  cases r with
  | none => rfl
  | some r =>
    by_cases h : i = r
    · subst h
      simp [load, setX, Xn.value]
    · simp [load, setX, h]

theorem load_mem (c : Core) (r : Xn) (v : Word) : (c.load r v).mem = c.mem := by cases r <;> rfl

/-- What a list of pops takes from a stack that holds the values of its operands. -/
theorem foldl_ldp (pairs : List (Xn × Xn)) {y : Regs}
    (h : Holds c.mem c.sp ((pairs.flatMap fun r => [r.1, r.2]).map (Xn.value y))) :
    (∀ i, (pairs.foldl ldp c).x i =
      if some i ∈ pairs.flatMap fun r => [r.1, r.2] then y i else c.x i) ∧
    (pairs.foldl ldp c).sp = c.sp + BitVec.ofNat 64 (16 * pairs.length) := by
  induction pairs generalizing c with
  | nil => exact ⟨fun i => by simp, (BitVec.add_zero _).symm⟩
  | cons r pairs ih =>
    have h' : Holds c.mem c.sp (r.1.value y :: r.2.value y ::
        (pairs.flatMap fun r => [r.1, r.2]).map (Xn.value y)) := by simpa using h
    have hldp : c.ldp r =
        { (c.load r.1 (r.1.value y)).load r.2 (r.2.value y) with sp := c.sp + 16#64 } := by
      rw [ldp, h'.top, h'.tail.top]
    have hmem : (c.ldp r).mem = c.mem := by
      rw [hldp]
      exact (load_mem _ _ _).trans (load_mem _ _ _)
    have hrest : Holds (c.ldp r).mem (c.ldp r).sp
        ((pairs.flatMap fun r => [r.1, r.2]).map (Xn.value y)) := by
      have htail := h'.tail.tail
      rw [ofNat_add] at htail
      rw [hmem]
      exact htail
    obtain ⟨hx, hsp⟩ := ih hrest
    constructor
    · intro i
      rw [List.foldl_cons, hx i, hldp]
      simp only [load_x, List.flatMap_cons, List.cons_append, List.nil_append, List.mem_cons]
      grind
    · rw [List.foldl_cons, hsp, List.length_cons, Nat.mul_add, Nat.add_comm, ← ofNat_add]
      rfl

/-- **The save area**: what the call finds through its pointer are the registers of the caller. -/
theorem holds_save (c : Core) (offset : Word) :
    Holds ((c.vecentry offset).excCommon).mem ((c.vecentry offset).excCommon).sp (frame c.x) ∧
      ((c.vecentry offset).excCommon).sp = c.sp - 256#64 := by
  have hentry : Holds (c.vecentry offset).mem (c.vecentry offset).sp [c.x 29, c.x 30] :=
    (holds_nil c.mem c.sp).push2 (by decide)
  constructor
  · exact holds_foldl_stp commonPairs hentry (show 8 * 2 + 16 * 15 ≤ 2 ^ 64 by decide)
  · refine (foldl_stp commonPairs).2.trans ?_
    show c.sp - 16#64 - 240#64 = c.sp - 256#64
    rw [BitVec.sub_sub]
    rfl

/-- **What comes back**: the registers of the frame, and the stack pointer before it. -/
theorem restore_of_holds {y : Regs} (h : Holds c.mem c.sp (frame y)) :
    c.restore.x = y ∧ c.restore.sp = c.sp + 256#64 := by
  have hall : ∀ i : Fin 31, some i ∈ frameOperands := by decide
  obtain ⟨hx, hsp⟩ := foldl_ldp restorePairs h
  exact ⟨funext fun i => (hx i).trans (if_pos (hall i)), hsp⟩

/-- The C code leaves the frame alone, so the loads give the registers that are in it. -/
theorem afterCall_of_holds {y : Regs} (clobbered : Clobbered) (h : Holds c.mem c.sp (frame y)) :
    (c.afterCall clobbered).x = y ∧ (c.afterCall clobbered).sp = c.sp + 256#64 ∧
      (c.afterCall clobbered).elrEl3 = c.elrEl3 ∧ (c.afterCall clobbered).spsrEl3 = c.spsrEl3 := by
  have hframe : Holds (fun a => if offset c.sp a < 256 then c.mem a else clobbered.mem a) c.sp
      (frame y) := h.congr fun a ha => if_pos (mem_block.1 ha)
  obtain ⟨hx, hsp⟩ := restore_of_holds (c := { c with x := clobbered.x, mem := _ }) hframe
  exact ⟨hx, hsp, rfl, rfl⟩

/-- A result in `regs[0]` is one in `x0`. -/
theorem holds_result {y : Regs} (h : Holds c.mem c.sp (frame y)) (v : Word) :
    Holds (store64 c.mem (c.sp + 8#64) v) c.sp (frame (Function.update y 0 v)) := by
  have hset := h.set (x := v) (show 8 * 32 ≤ 2 ^ 64 by decide) (show 1 < 32 by decide)
  rwa [set_frame] at hset

end Core

/-! ## A whole call -/

variable {startup : Word} {cpu : CpuId} {onWake s s' : Psci} {clobbered : Clobbered}
  {pc pstate : Word} {c : Core}

theorem atHandler_arguments (pc pstate : Word) (c : Core) :
    ((atHandler pc pstate c).x 0).setWidth 32 = 0x400#32 ∧
      ((atHandler pc pstate c).x 1).setWidth 32 = 0x5E000000#32 ∧
      (atHandler pc pstate c).x 2 = (atHandler pc pstate c).sp + 8#64 := by
  obtain ⟨hfields, -⟩ := Core.foldl_stp (c := (c.takeSmc pc pstate).vecentry 0x400) Core.commonPairs
  have hEL : (Core.commonPairs.foldl Core.stp ((c.takeSmc pc pstate).vecentry 0x400)).currentEL =
      0xC := by
    rw [hfields]
    rfl
  have hesr : (atHandler pc pstate c).x 1 = 0x5E000000 := by
    simp only [atHandler, Core.excCommon, Core.setX, hEL]
    rw [if_pos (by decide), hfields]
    rfl
  exact ⟨rfl, by rw [hesr]; rfl, rfl⟩

theorem regsAt_atHandler (pc pstate : Word) (c : Core) :
    regsAt (atHandler pc pstate c).mem ((atHandler pc pstate c).sp + 8#64) = c.x := by
  obtain ⟨h, -⟩ := Core.holds_save (c.takeSmc pc pstate) 0x400
  funext i
  have hlen : i.val + 1 < (Core.frame c.x).length := Nat.succ_lt_succ i.isLt
  have hslot := h (i.val + 1) hlen
  have hi : (Core.frame c.x)[i.val + 1] = c.x i :=
    Option.some_inj.1 ((List.getElem?_eq_getElem hlen).symm.trans (Core.getElem?_frame c.x i))
  rw [regsAt, ← hi]
  refine Eq.trans ?_ hslot
  rw [show 8#64 = BitVec.ofNat 64 8 from rfl, ofNat_add, Nat.mul_add, Nat.add_comm 8]
  rfl

/-- An SMC gets to `psciHandler`, with the registers of the caller behind its pointer. -/
theorem smc_eq : smc startup cpu onWake clobbered pc pstate s c =
    (psciHandlerAt startup cpu onWake ((atHandler pc pstate c).sp + 8#64) s
      (atHandler pc pstate c)).map fun (s, c) => (s, c.afterCall clobbered) := by
  obtain ⟨hexc, hesr, hregs⟩ := atHandler_arguments pc pstate c
  have hcall : syncCHandlerEL3 startup cpu onWake (((atHandler pc pstate c).x 0).setWidth 32)
      (((atHandler pc pstate c).x 1).setWidth 32) ((atHandler pc pstate c).x 2) s
      (atHandler pc pstate c) = psciHandlerAt startup cpu onWake ((atHandler pc pstate c).sp + 8#64)
        s (atHandler pc pstate c) := by
    rw [hexc, hesr, hregs, syncCHandlerEL3, if_neg (by decide), if_pos (by decide)]
  rw [smc]
  dsimp only
  rw [hcall]
  cases psciHandlerAt startup cpu onWake ((atHandler pc pstate c).sp + 8#64) s
    (atHandler pc pstate c) <;> rfl

/-- A call whose handler leaves `v` in `regs[0]`, with this return address and mode. -/
theorem afterCall_atHandler (pc pstate : Word) (c : Core) (clobbered : Clobbered) (c' : Core)
    {v elr spsr : Word} (hmem : c'.mem = store64 (atHandler pc pstate c).mem
      ((atHandler pc pstate c).sp + 8#64) v) (hsp : c'.sp = (atHandler pc pstate c).sp)
    (helr : c'.elrEl3 = elr) (hspsr : c'.spsrEl3 = spsr) :
    (c'.afterCall clobbered).x = Function.update c.x 0 v ∧ (c'.afterCall clobbered).sp = c.sp ∧
      (c'.afterCall clobbered).elrEl3 = elr ∧ (c'.afterCall clobbered).spsrEl3 = spsr := by
  obtain ⟨hsave, hdown⟩ := Core.holds_save (c.takeSmc pc pstate) 0x400
  have hframe : Holds c'.mem c'.sp (Core.frame (Function.update c.x 0 v)) := by
    rw [hmem, hsp]
    exact Core.holds_result hsave v
  obtain ⟨hx, hup, helr', hspsr'⟩ := Core.afterCall_of_holds clobbered hframe
  refine ⟨hx, ?_, helr'.trans helr, hspsr'.trans hspsr⟩
  rw [hup, hsp]
  calc (atHandler pc pstate c).sp + 256#64 = c.sp - 256#64 + 256#64 := congrArg (· + 256#64) hdown
    _ = c.sp := BitVec.sub_add_cancel _ _

theorem atHandler_return (pc pstate : Word) (c : Core) :
    (atHandler pc pstate c).elrEl3 = pc + 4 ∧ (atHandler pc pstate c).spsrEl3 = pstate := by
  obtain ⟨hfields, -⟩ := Core.foldl_stp (c := (c.takeSmc pc pstate).vecentry 0x400) Core.commonPairs
  simp only [atHandler, Core.excCommon, Core.setX]
  rw [hfields]
  exact ⟨rfl, rfl⟩

/-- A call with a result returns to the instruction after it. -/
theorem smc_of_result {v : Word}
    (h : s.psciHandler startup cpu c.x = (s', some (Function.update c.x 0 v))) :
    ∃ c', smc startup cpu onWake clobbered pc pstate s c = some (s', c') ∧
      c'.x = Function.update c.x 0 v ∧ c'.sp = c.sp ∧ c'.elrEl3 = pc + 4 ∧ c'.spsrEl3 = pstate := by
  obtain ⟨helr, hspsr⟩ := atHandler_return pc pstate c
  have hafter := afterCall_atHandler pc pstate c clobbered
  rw [smc_eq, psciHandlerAt, regsAt_atHandler, h]
  generalize atHandler pc pstate c = c0 at helr hspsr hafter ⊢
  refine ⟨_, rfl, hafter _ ?_ rfl helr hspsr⟩
  rw [Function.update_self]

/-- `CPU_OFF` returns where the `CPU_ON` that ends it says, if one does. -/
theorem smc_of_parked {c' : Core} {s1 : Psci}
    (h : s.psciHandler startup cpu c.x = (s1, none)) (hloc : s1.loc cpu = .parkedInSmc c.x)
    (hret : smc startup cpu onWake clobbered pc pstate s c = some (s', c')) :
    (onWake.cpus cpu).state = .onPending ∧ s' = onWake.enterFromSmc cpu c.x ∧
      c'.x = Function.update c.x 0 (s'.cpus cpu).context ∧ c'.sp = c.sp ∧
      c'.elrEl3 = (s'.cpus cpu).entry ∧ c'.spsrEl3 = 0x3C9 := by
  have hafter := afterCall_atHandler pc pstate c clobbered
  rw [smc_eq, psciHandlerAt, regsAt_atHandler, h] at hret
  generalize atHandler pc pstate c = c0 at hafter hret
  dsimp only at hret
  rw [hloc] at hret
  dsimp only at hret
  split_ifs at hret with hpending
  · obtain ⟨rfl, rfl⟩ := Prod.mk.inj (Option.some.inj hret)
    exact ⟨hpending, rfl, hafter _ rfl rfl rfl rfl⟩
  · cases hret

/-- The calls that stop the core do not return. -/
theorem smc_of_stopped {s1 : Psci} (h : s.psciHandler startup cpu c.x = (s1, none))
    (hloc : s1.loc cpu = .stopped) :
    smc startup cpu onWake clobbered pc pstate s c = none := by
  rw [smc_eq, psciHandlerAt, regsAt_atHandler, h]
  dsimp only
  rw [hloc]
  rfl

/-- A call either has a result, or is `CPU_OFF` or a stop. -/
theorem smc_cases {c' : Core}
    (hret : smc startup cpu onWake clobbered pc pstate s c = some (s', c')) :
    (∃ v, c'.x = Function.update c.x 0 v) ∧ c'.sp = c.sp ∧
      if handlerCase (c.x 0 &&& 0xFFFFFFFF) = .cpuOff then
        c'.elrEl3 = (s'.cpus cpu).entry ∧ c'.spsrEl3 = 0x3C9
      else c'.elrEl3 = pc + 4 ∧ c'.spsrEl3 = pstate := by
  have hrun := psciHandler_eq_run startup cpu c.x s
  have hresult : ∀ {s1 v}, s.psciHandler startup cpu c.x =
      (s1, some (Function.update c.x 0 v)) → (∃ v, c'.x = Function.update c.x 0 v) ∧
        c'.sp = c.sp ∧ c'.elrEl3 = pc + 4 ∧ c'.spsrEl3 = pstate := by
    intro s1 v h
    obtain ⟨c1, hsmc, hx, hrest⟩ := smc_of_result h
    obtain ⟨-, rfl⟩ := Prod.mk.inj (Option.some.inj (hret.symm.trans hsmc))
    exact ⟨⟨v, hx⟩, hrest⟩
  have hstopped : s.psciHandler startup cpu c.x = (s.setLoc cpu .stopped, none) → False := by
    intro h
    have hnone := hret.symm.trans (smc_of_stopped h (Function.update_self ..))
    cases hnone
  cases hcase : handlerCase (c.x 0 &&& 0xFFFFFFFF) <;> rw [hcase] at hrun
  case cpuOff =>
    obtain ⟨-, -, hx, hsp, hmode⟩ := smc_of_parked hrun (Function.update_self ..) hret
    exact ⟨⟨_, hx⟩, hsp, hmode⟩
  case systemOff => exact (hstopped hrun).elim
  case systemReset => exact (hstopped hrun).elim
  all_goals exact hresult hrun

/-- **SMC frame.** The handler does what the case of the function id does. A call that returns
changes no register but `x0` and keeps the stack pointer, and only `CPU_OFF` changes the return
address and mode; `PSCI_FEATURES` reports exactly the ids that have a case in the handler, and any
other id gets `NOT_SUPPORTED` and does nothing. -/
theorem smc_frame (startup : Word) (cpu : CpuId) (onWake : Psci) (clobbered : Clobbered)
    (pc pstate : Word) (s : Psci) (c : Core) :
    (∀ regs, s.psciHandler startup cpu regs =
      (((handlerCase (regs 0 &&& 0xFFFFFFFF)).run startup cpu regs s).1,
        ((handlerCase (regs 0 &&& 0xFFFFFFFF)).run startup cpu regs s).2.map
          (Function.update regs 0))) ∧
    (∀ s' c', smc startup cpu onWake clobbered pc pstate s c = some (s', c') →
      (∀ i, i ≠ 0 → c'.x i = c.x i) ∧ c'.sp = c.sp ∧
        if handlerCase (c.x 0 &&& 0xFFFFFFFF) = .cpuOff then
          c'.elrEl3 = (s'.cpus cpu).entry ∧ c'.spsrEl3 = 0x3C9
        else c'.elrEl3 = pc + 4 ∧ c'.spsrEl3 = pstate) ∧
    (handlerCase (c.x 0 &&& 0xFFFFFFFF) = .features →
      ∃ c', smc startup cpu onWake clobbered pc pstate s c = some (s, c') ∧
        (c'.x 0 = PsciErrorCodes.success.code ↔
          handlerCase (c.x 1 &&& 0xFFFFFFFF) ≠ .default)) ∧
    (handlerCase (c.x 0 &&& 0xFFFFFFFF) = .default →
      ∃ c', smc startup cpu onWake clobbered pc pstate s c = some (s, c') ∧
        c'.x = Function.update c.x 0 PsciErrorCodes.notSupported.code) := by
  have hrun := psciHandler_eq_run startup cpu c.x s
  refine ⟨fun regs => psciHandler_eq_run startup cpu regs s, fun s' c' hret => ?_,
    fun hcase => ?_, fun hcase => ?_⟩
  · obtain ⟨⟨v, hx⟩, hrest⟩ := smc_cases hret
    refine ⟨fun i hi => ?_, hrest⟩
    rw [hx, Function.update_of_ne hi]
  · rw [hcase] at hrun
    obtain ⟨c', hsmc, hx, -⟩ := smc_of_result hrun
    refine ⟨c', hsmc, ?_⟩
    rw [hx, Function.update_self]
    exact PsciErrorCodes.code_eq_zero.trans (psciFeatures_eq_success_iff _)
  · rw [hcase] at hrun
    obtain ⟨c', hsmc, hx, -⟩ := smc_of_result hrun
    exact ⟨c', hsmc, hx⟩

/-- A caller that asks for `CPU_ON`. -/
def featuresCall : Core where
  x i := if i = 0 then PsciFunction.features else if i = 1 then PsciFunction.cpuOn64 else i.val
  sp := 0xFFFFF000
  mem _ := 0
  elrEl3 := 0
  spsrEl3 := 0
  currentEL := 4
  esrEl1 := 0
  esrEl2 := 0
  esrEl3 := 0

theorem smc_frame_featuresCall :
    ∃ c', smc 0xFFFF0200 0 (psciInit 0 ⟨fun _ => 0, 0, 0⟩) ⟨fun _ => 0, fun _ => 0⟩ 0x40000000 0x3C5
        (psciInit 0 ⟨fun _ => 0, 0, 0⟩) featuresCall = some (psciInit 0 ⟨fun _ => 0, 0, 0⟩, c') ∧
      c'.x 0 = 0 ∧ c'.x 30 = 30 ∧ c'.elrEl3 = 0x40000004 := by
  obtain ⟨-, hframe, hfeatures, -⟩ := smc_frame 0xFFFF0200 0 (psciInit 0 ⟨fun _ => 0, 0, 0⟩)
    ⟨fun _ => 0, fun _ => 0⟩ 0x40000000 0x3C5 (psciInit 0 ⟨fun _ => 0, 0, 0⟩) featuresCall
  obtain ⟨c', hsmc, hx⟩ := hfeatures (by decide)
  obtain ⟨hregs, -, hmode⟩ := hframe _ _ hsmc
  rw [if_neg (by decide)] at hmode
  exact ⟨c', hsmc, hx.2 (by decide), hregs 30 (by decide), hmode.1⟩

end Gec6818Bl1
