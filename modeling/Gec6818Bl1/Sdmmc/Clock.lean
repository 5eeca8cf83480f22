import Gec6818Bl1.Boot.Division
import Gec6818Bl1.Clock.ResetCon
import Gec6818Bl1.Lib.ExactArith
import Gec6818Bl1.Lib.RegTrace
import Gec6818Bl1.Sdmmc.Driver

/-!
# The card clock

`NX_SDMMC_GetClkParam` divides the PLL twice, by `nClkGenDiv` in the clock generator and by
`nClkDiv` in the controller, and `NX_SDMMC_SetClock` and `NX_SDMMC_Init` program what it found.

* **The search.** It goes through the even `nClkDiv` until `nClkGenDiv` fits its field. From
  `2 * nFreqHz` upwards the source is never below `nFreqHz * nClkDiv`, so the quotient is not `0`,
  and two more than the quotient, rounded down, keeps the clock below the request
  (`getClkParam_eq`). Below `2 * nFreqHz` the quotient is `0` and the next division is by `0`.
* **Two users.** `NX_SDMMC_SetClock` programs `nClkDiv >> 1` as it should, `NX_SDMMC_Init` programs
  `nClkGenDiv >> 1`. With `nClkGenDiv = 1` that bypasses the second divider, so that a source of
  exactly `2 * nFreqHz` reaches the card undivided.

`SdClockOk`, all that is asked of the three functions, therefore holds exactly of sources above
50 MHz (`sdClockOk_iff`).
-/

namespace Gec6818Bl1.Sdmmc.Clock

open Polling RegTrace

/-- `NX_CLKINFO_SDMMC`. -/
structure ClkInfo where
  nPllNum : U32
  nFreqHz : U32
  nClkDiv : U32
  nClkGenDiv : U32
deriving DecidableEq

/-- What the function works on, and the arithmetic it has done. -/
structure ClkParam extends ClkInfo where
  ops : List ArithOp

section GetClkParam

variable (mode : OpMode) (fuel : ℕ) (srcFreq : U32)

/-- The `for` loop on `nClkDiv`. -/
def clkDivBody (s : ClkParam) : ClkParam ⊕ Option ClkParam :=
  let (nTemp, ops) := (ExactArith.Op.mul s.nFreqHz s.nClkDiv).perform s.ops
  match quotient mode fuel srcFreq nTemp ops with
  | none => .inr none
  | some (nClkGenDiv, ops) =>
    let (product, ops) := (ExactArith.Op.mul s.nFreqHz s.nClkDiv).perform ops
    let (nClkGenDiv, ops) :=
      if srcFreq > product then (ExactArith.Op.add nClkGenDiv 2).perform ops else (nClkGenDiv, ops)
    if nClkGenDiv < 255 then .inr (some { s with nClkGenDiv, ops })
    else
      let (nClkDiv, ops) := (ExactArith.Op.add s.nClkDiv 2).perform ops
      .inl { s with nClkDiv, nClkGenDiv, ops }

/-- From `retry_getparam` to the comparison with the requested frequency. -/
def tryClkParam (s : ClkParam) : Option (Bool × ClkParam) := do
  let s ← (run (clkDivBody mode fuel srcFreq) fuel { s with nClkDiv := 2 }).join
  let (divisor, ops) := (ExactArith.Op.mul s.nClkGenDiv s.nClkDiv).perform s.ops
  let (nTemp, ops) ← quotient mode fuel srcFreq divisor ops
  return (nTemp ≤ s.nFreqHz, { s with ops })

def retryClkParam : ℕ → ClkParam → Option (Bool × ClkParam)
  | nRetry, s => do
    let (fRet, s) ← tryClkParam mode fuel srcFreq s
    if fRet then return (true, s)
    match nRetry with
    | 0 => return (false, s)
    | nRetry + 1 => retryClkParam nRetry s

/-- `NX_SDMMC_GetClkParam`, where `srcFreq` is what `NX_CLKPWR_GetPLLFreq` gives. -/
def getClkParam (pClkInfo : ClkInfo) : Option (Bool × ClkParam) :=
  retryClkParam mode fuel srcFreq 1 { pClkInfo with ops := [] }

end GetClkParam

/-! ## The registers -/

/-- `CLKENB` and `CLKGEN[0]` of the clock generator, `REGRST` of the reset controller, and the
registers of the controller itself. -/
inductive ClkReg where
  | clkenb
  | clkgen0
  | regrst (i : ℕ)
  | ctrl
  | pwren
  | clkdiv
  | clksrc
  | clkena
  | tmout
  | ctype
  | blksiz
  | intmask
  | cmd
  | rintsts
  | fifoth
  | clkctrl
deriving DecidableEq

abbrev History := List (Access (ClkReg × ℕ) ClkReg U32)

/-- The value of each reading, told by the register and the time. -/
abbrev Readings := ClkReg × ℕ → U32

def clkenaClkenb : U32 := bit 0
def clkenaLowpwr : U32 := bit 16

/-- `NX_PCLKMODE_ALWAYS<<3 | NX_BCLKMODE_DYNAMIC<<0`. -/
def clkenbMode : U32 := 1#32 <<< 3 ||| 2#32

/-- The new `CLKGEN[0]`: source, divisor and inversion. -/
def clkGenWord (info : ClkInfo) (clkgen : U32) : U32 :=
  clkgen &&& ~~~(0x7#32 <<< 2 ||| 0xFF#32 <<< 5) ||| info.nPllNum <<< 2 |||
    (info.nClkGenDiv - 1) <<< 5 ||| 0#32 <<< 1

/-- `NX_CLKSRC_SDMMC`. -/
def clksrcSdmmc : U32 := 2

section Registers

variable (rd : Readings) (mode : OpMode) (fuel : ℕ) (srcFreq : U32)

/-- Steps 4 and 5 of `NX_SDMMC_SetClock`, and 7 and 8 again. -/
def updateClockBody (log : History) : History ⊕ Bool × History :=
  let log := exec rd Prod.mk
    [.write .cmd (bit CmdFlag.startCmd ||| bit 21 ||| bit CmdFlag.stopAbort)] log
  let (taken, log) := poll rd (fun k => [(.cmd, log.length + k)])
    (·.all (!·.getLsbD CmdFlag.startCmd)) (sdmmcTimeout + 1) 0 log
  if !taken then .inr (false, log) else
  let rintsts := rd (.rintsts, log.length)
  let log := exec rd Prod.mk [.read .rintsts] log
  if rintsts.getLsbD Rintsts.hle then
    .inl (exec rd Prod.mk [.write .rintsts (bit Rintsts.hle)] log)
  else .inr (true, log)

/-- `NX_SDMMC_SetClock`. -/
def setClock (enb : Bool) (nFreq : U32) (log : History) : Option (Bool × History) := do
  let log := exec rd Prod.mk
    [.modify .clkena (· &&& ~~~clkenaClkenb), .modify .clkena (· ||| clkenaLowpwr),
      .write .clkenb clkenbMode] log
  let (ret, info) ← getClkParam mode fuel srcFreq ⟨clksrcSdmmc, nFreq, 0, 0⟩
  let log := if ret then exec rd Prod.mk
      [.modify .clkgen0 (clkGenWord info.toClkInfo), .write .clkdiv (info.nClkDiv >>> 1)] log
    else log
  let log := exec rd Prod.mk
    [.modify .clkenb (· ||| bit 2), .modify .clkena (· &&& ~~~clkenaLowpwr)] log
  let (updated, log) ← run (updateClockBody rd) fuel log
  if !updated then return (false, log)
  if !enb then return (true, log)
  run (updateClockBody rd) fuel (exec rd Prod.mk [.modify .clkena (· ||| clkenaClkenb)] log)

/-- `ResetCon`. -/
def resetCon (devicenum : U32) (en : Bool) : RegTrace.Op ClkReg U32 :=
  resetConOn (fun i => .regrst i.toNat) devicenum en

def sdResetNum : Fin 3 → U32
  | 0 => 39
  | 1 => 40
  | 2 => 41

/-- `DMARST | FIFORST | CTRLRST`. -/
def ctrlReset : U32 := bit 2 ||| bit 1 ||| bit 0

/-- `NX_SDMMC_Init`. -/
def init (sdPort : Fin 3) (log : History) : Option History := do
  let (_, info) ← getClkParam mode fuel srcFreq ⟨clksrcSdmmc, 25000000, 0, 0⟩
  let log := exec rd Prod.mk
    [.write .clkenb clkenbMode, .modify .clkgen0 (clkGenWord info.toClkInfo),
      .modify .clkenb (· ||| bit 2), resetCon (sdResetNum sdPort) true,
      resetCon (sdResetNum sdPort) false, .write .pwren 0, .write .clkena clkenaLowpwr,
      .write .clkctrl (2#32 <<< 16), .write .clksrc 0, .write .clkdiv (info.nClkGenDiv >>> 1),
      .modify .ctrl (· &&& ~~~(bit 5 ||| bit 6)), .write .ctrl ctrlReset] log
  let (_, log) ← waitFor rd Prod.mk .ctrl (· &&& ctrlReset == 0) fuel log
  return exec rd Prod.mk
    [.write .pwren 1, .write .tmout (0xFFFFFF#32 <<< 8 ||| 0x64#32), .write .ctype 0,
      .write .blksiz blockLength, .write .fifoth (7#32 <<< 16 ||| 8#32), .write .intmask 0,
      .write .rintsts 0xFFFFFFFF] log

end Registers

/-! ## The search -/

open ExactArith (AllExact)

variable {mode : OpMode} {fuel : ℕ} {srcFreq : U32} {info : ClkInfo} {s : ClkParam}

/-- A frequency that the PLL can be divided down to. -/
structure Requested (srcFreq : U32) (info : ClkInfo) : Prop where
  freq : 400000 ≤ info.nFreqHz.toNat
  src : 2 * info.nFreqHz.toNat ≤ srcFreq.toNat

/-- At the tests of the loop: with the divider before this one, the quotient was 253 or more. -/
structure Searching (srcFreq : U32) (info : ClkInfo) (s : ClkParam) : Prop where
  pll : s.nPllNum = info.nPllNum
  freq : s.nFreqHz = info.nFreqHz
  even : 2 ∣ s.nClkDiv.toNat
  two_le : 2 ≤ s.nClkDiv.toNat
  skipped : s.nClkDiv.toNat = 2 ∨
    253 * (info.nFreqHz.toNat * (s.nClkDiv.toNat - 2)) ≤ srcFreq.toNat
  exact : AllExact s.ops

/-- Behind the loop. -/
structure Found (srcFreq : U32) (info : ClkInfo) (s : ClkParam) : Prop
    extends Searching srcFreq info s where
  genDiv : s.nClkGenDiv.toNat = 1 ∧ s.nClkDiv.toNat = 2 ∧
        srcFreq.toNat = info.nFreqHz.toNat * 2 ∨
      3 ≤ s.nClkGenDiv.toNat ∧ info.nFreqHz.toNat * s.nClkDiv.toNat < srcFreq.toNat ∧
        srcFreq.toNat < info.nFreqHz.toNat * s.nClkDiv.toNat * (s.nClkGenDiv.toNat - 1)
  genDiv_lt : s.nClkGenDiv.toNat < 255

/-- One test of the loop, as long as it does not divide by zero. -/
theorem clkDivBody_eq (hne : s.nFreqHz * s.nClkDiv ≠ 0) (hfuel : 33 ≤ fuel) :
    clkDivBody mode fuel srcFreq s =
      let product := s.nFreqHz * s.nClkDiv
      let q := srcFreq / product
      let ops := s.ops ++ [.mul s.nFreqHz s.nClkDiv] ++ [.div srcFreq product] ++
        [.mul s.nFreqHz s.nClkDiv]
      let found := if srcFreq > product then (q + 2, ops ++ [.add q 2]) else (q, ops)
      if found.1 < 255 then .inr (some { s with nClkGenDiv := found.1, ops := found.2 })
      else .inl { s with
        nClkDiv := s.nClkDiv + 2
        nClkGenDiv := found.1
        ops := found.2 ++ [.add s.nClkDiv 2] } := by
  have hquot : ∀ ops, quotient mode fuel srcFreq
      ((ExactArith.Op.mul s.nFreqHz s.nClkDiv).perform s.ops).1 ops =
        some (srcFreq / (s.nFreqHz * s.nClkDiv),
          ops ++ [.div srcFreq (s.nFreqHz * s.nClkDiv)]) := quotient_eq mode hne hfuel
  simp only [clkDivBody, hquot]
  rfl

namespace Searching

theorem nClkDiv_le (hs : Searching srcFreq info s) (hr : Requested srcFreq info) :
    s.nClkDiv.toNat ≤ 44 := by
  rcases hs.skipped with h | h
  · omega
  · have hmul := Nat.mul_le_mul_right (s.nClkDiv.toNat - 2) hr.freq
    have hsrc := srcFreq.isLt
    omega

/-- The source is never below the product that divides it, and above it after the first. -/
theorem product_le (hs : Searching srcFreq info s) (hr : Requested srcFreq info) :
    s.nClkDiv.toNat = 2 ∧ info.nFreqHz.toNat * s.nClkDiv.toNat = srcFreq.toNat ∨
      info.nFreqHz.toNat * s.nClkDiv.toNat < srcFreq.toNat := by
  have hsrc := hr.src
  rcases hs.skipped with h | h
  · rw [h]
    omega
  · rcases Nat.eq_or_lt_of_le hs.two_le with h2 | h2
    · rw [← h2]
      omega
    · obtain ⟨k, hk⟩ : ∃ k, s.nClkDiv.toNat = k + 4 := by
        have heven := hs.even
        exact ⟨s.nClkDiv.toNat - 4, by omega⟩
      have hfreq := hr.freq
      rw [hk, show k + 4 - 2 = k + 2 by omega, Nat.mul_add] at h
      rw [hk, Nat.mul_add]
      omega

/-! What one test of the loop computes. -/

theorem mul_exact (hs : Searching srcFreq info s) (hr : Requested srcFreq info) :
    (ExactArith.Op.mul s.nFreqHz s.nClkDiv).Exact := by
  have hprod := hs.product_le hr
  have hsrc := srcFreq.isLt
  show s.nFreqHz.toNat * s.nClkDiv.toNat < 2 ^ 32
  rw [hs.freq]
  omega

theorem toNat_product (hs : Searching srcFreq info s) (hr : Requested srcFreq info) :
    (s.nFreqHz * s.nClkDiv).toNat = info.nFreqHz.toNat * s.nClkDiv.toNat :=
  (hs.mul_exact hr).toNat_mul.trans (by rw [hs.freq])

theorem le_product (hs : Searching srcFreq info s) (hr : Requested srcFreq info) :
    800000 ≤ info.nFreqHz.toNat * s.nClkDiv.toNat :=
  Nat.mul_le_mul hr.freq hs.two_le

theorem product_ne_zero (hs : Searching srcFreq info s) (hr : Requested srcFreq info) :
    s.nFreqHz * s.nClkDiv ≠ 0 := by
  intro h
  have hpos := hs.le_product hr
  rw [← hs.toNat_product hr, h] at hpos
  exact absurd hpos (by decide)

theorem toNat_quotient (hs : Searching srcFreq info s) (hr : Requested srcFreq info) :
    (srcFreq / (s.nFreqHz * s.nClkDiv)).toNat =
      srcFreq.toNat / (info.nFreqHz.toNat * s.nClkDiv.toNat) := by
  rw [BitVec.toNat_udiv, hs.toNat_product hr]

/-- The quotient, rounded down. -/
theorem quotient_bounds (hs : Searching srcFreq info s) (hr : Requested srcFreq info) :
    let q := (srcFreq / (s.nFreqHz * s.nClkDiv)).toNat
    q * (info.nFreqHz.toNat * s.nClkDiv.toNat) ≤ srcFreq.toNat ∧
      srcFreq.toNat < info.nFreqHz.toNat * s.nClkDiv.toNat * (q + 1) ∧ q ≤ 5368 := by
  have hpos := hs.le_product hr
  have hbelow := Nat.div_mul_le_self srcFreq.toNat (info.nFreqHz.toNat * s.nClkDiv.toNat)
  have habove := Nat.lt_mul_div_succ srcFreq.toNat (Nat.lt_of_lt_of_le (by decide) hpos)
  rw [← hs.toNat_quotient hr] at hbelow habove
  refine ⟨hbelow, habove, ?_⟩
  have hsrc := srcFreq.isLt
  have hmul := Nat.mul_le_mul_left (srcFreq / (s.nFreqHz * s.nClkDiv)).toNat hpos
  omega

theorem ops_exact (hs : Searching srcFreq info s) (hr : Requested srcFreq info) :
    AllExact (s.ops ++ [.mul s.nFreqHz s.nClkDiv] ++
      [.div srcFreq (s.nFreqHz * s.nClkDiv)] ++ [.mul s.nFreqHz s.nClkDiv]) := by
  have hdiv : (ExactArith.Op.div srcFreq (s.nFreqHz * s.nClkDiv)).Exact := hs.product_ne_zero hr
  exact ((hs.exact.snoc (hs.mul_exact hr)).snoc hdiv).snoc (hs.mul_exact hr)

/-- The test with a source that is above the product: the quotient and two more fit, or the next
divider is tried. -/
theorem body_of_gt (hs : Searching srcFreq info s) (hr : Requested srcFreq info)
    (hfuel : 33 ≤ fuel) (hgt : srcFreq > s.nFreqHz * s.nClkDiv) :
    (∃ s', clkDivBody mode fuel srcFreq s = .inl s' ∧ Searching srcFreq info s' ∧
        s'.nClkDiv.toNat = s.nClkDiv.toNat + 2) ∨
      ∃ s', clkDivBody mode fuel srcFreq s = .inr (some s') ∧ Found srcFreq info s' := by
  have hpos := hs.le_product hr
  have hlt : info.nFreqHz.toNat * s.nClkDiv.toNat < srcFreq.toNat := by
    rwa [← hs.toNat_product hr]
  have hqpos : 0 < (srcFreq / (s.nFreqHz * s.nClkDiv)).toNat := by
    rw [hs.toNat_quotient hr]
    exact Nat.div_pos (Nat.le_of_lt hlt) (Nat.lt_of_lt_of_le (by decide) hpos)
  obtain ⟨hbelow, habove, hqle⟩ := hs.quotient_bounds hr
  have hops := hs.ops_exact hr
  rw [clkDivBody_eq (hs.product_ne_zero hr) hfuel]
  simp only [if_pos hgt]
  generalize srcFreq / (s.nFreqHz * s.nClkDiv) = q at hqpos hbelow habove hqle hops ⊢
  have haddExact : (ExactArith.Op.add q 2).Exact := by
    show q.toNat + 2 < 2 ^ 32
    omega
  have hgen : (q + 2).toNat = q.toNat + 2 := haddExact.toNat_add
  by_cases hfit : q + 2 < 255
  · refine .inr ⟨_, if_pos hfit, ⟨hs.pll, hs.freq, hs.even, hs.two_le, hs.skipped,
      hops.snoc haddExact⟩, .inr ⟨?_, hlt, ?_⟩, hfit⟩
    · simp only [hgen]
      omega
    · simp only [hgen]
      exact habove
  · have hle := hs.nClkDiv_le hr
    have hq253 : 253 ≤ q.toNat := by
      rw [BitVec.lt_def, hgen] at hfit
      exact Nat.le_of_not_lt fun h => hfit (Nat.add_lt_add_right h 2)
    have hcExact : (ExactArith.Op.add s.nClkDiv 2).Exact := by
      show s.nClkDiv.toNat + 2 < 2 ^ 32
      omega
    have hc : (s.nClkDiv + 2).toNat = s.nClkDiv.toNat + 2 := hcExact.toNat_add
    refine .inl ⟨_, if_neg hfit, ⟨hs.pll, hs.freq, ?_, ?_, .inr ?_,
      (hops.snoc haddExact).snoc hcExact⟩, hc⟩
    · simpa only [hc] using Nat.dvd_add hs.even (Nat.dvd_refl 2)
    · simp only [hc]
      omega
    · simp only [hc, Nat.add_sub_cancel]
      exact (Nat.mul_le_mul_right _ hq253).trans hbelow

/-- The source is the first product: it is divided by one. -/
theorem body_of_not_gt (hs : Searching srcFreq info s) (hr : Requested srcFreq info)
    (hfuel : 33 ≤ fuel) (hgt : ¬srcFreq > s.nFreqHz * s.nClkDiv) :
    ∃ s', clkDivBody mode fuel srcFreq s = .inr (some s') ∧ Found srcFreq info s' := by
  have hpos := hs.le_product hr
  have hle : srcFreq.toNat ≤ info.nFreqHz.toNat * s.nClkDiv.toNat := by
    rw [← hs.toNat_product hr]
    exact BitVec.not_lt.1 hgt
  obtain ⟨hc2, heq⟩ : s.nClkDiv.toNat = 2 ∧
      info.nFreqHz.toNat * s.nClkDiv.toNat = srcFreq.toNat := by
    rcases hs.product_le hr with h | h
    · exact h
    · omega
  have hq1 : (srcFreq / (s.nFreqHz * s.nClkDiv)).toNat = 1 := by
    rw [hs.toNat_quotient hr, heq]
    exact Nat.div_self (by omega)
  have hfit : srcFreq / (s.nFreqHz * s.nClkDiv) < 255 := by
    rw [BitVec.lt_def, hq1]
    decide
  have hops := hs.ops_exact hr
  rw [clkDivBody_eq (hs.product_ne_zero hr) hfuel]
  simp only [if_neg hgt]
  refine ⟨_, if_pos hfit, ⟨hs.pll, hs.freq, hs.even, hs.two_le, hs.skipped, hops⟩,
    .inl ⟨hq1, hc2, ?_⟩, hfit⟩
  rw [← heq, hc2]

theorem body (mode : OpMode) (hs : Searching srcFreq info s) (hr : Requested srcFreq info)
    (hfuel : 33 ≤ fuel) :
    (∃ s', clkDivBody mode fuel srcFreq s = .inl s' ∧ Searching srcFreq info s' ∧
        s'.nClkDiv.toNat = s.nClkDiv.toNat + 2) ∨
      ∃ s', clkDivBody mode fuel srcFreq s = .inr (some s') ∧ Found srcFreq info s' := by
  by_cases hgt : srcFreq > s.nFreqHz * s.nClkDiv
  · exact hs.body_of_gt hr hfuel hgt
  · exact .inr (hs.body_of_not_gt hr hfuel hgt)

end Searching

theorem Found.divisor_pos (h : Found srcFreq info s) :
    0 < s.nClkGenDiv.toNat * s.nClkDiv.toNat := by
  have hc := h.two_le
  rcases h.genDiv with hg | hg <;> exact Nat.mul_pos (by omega) (by omega)

/-- What has been found divides the source down to the request. -/
theorem Found.clock_le (h : Found srcFreq info s) :
    srcFreq.toNat ≤ info.nFreqHz.toNat * (s.nClkGenDiv.toNat * s.nClkDiv.toNat) := by
  rcases h.genDiv with ⟨hg, hc, hsrc⟩ | ⟨hg, -, hsrc⟩
  · rw [hg, hc, hsrc]
  · calc srcFreq.toNat
        ≤ info.nFreqHz.toNat * s.nClkDiv.toNat * (s.nClkGenDiv.toNat - 1) := Nat.le_of_lt hsrc
      _ ≤ info.nFreqHz.toNat * s.nClkDiv.toNat * s.nClkGenDiv.toNat :=
          Nat.mul_le_mul_left _ (Nat.sub_le _ _)
      _ = info.nFreqHz.toNat * (s.nClkGenDiv.toNat * s.nClkDiv.toNat) := by
          rw [Nat.mul_assoc, Nat.mul_comm s.nClkDiv.toNat]

/-- **The search** ends. -/
theorem run_clkDivBody (mode : OpMode) (hs : Searching srcFreq info s) (hr : Requested srcFreq info)
    (hfuel : 64 ≤ fuel) : ∃ s', run (clkDivBody mode fuel srcFreq) fuel s = some (some s') ∧
      Found srcFreq info s' := by
  have htotal : ∃ r, run (clkDivBody mode fuel srcFreq) fuel s = some r ∧
      ∃ s', r = some s' ∧ Found srcFreq info s' := by
    refine run_total (I := Searching srcFreq info) (fun s => 46 - s.nClkDiv.toNat) ?_ ?_ hs
      (Nat.lt_of_lt_of_le (by omega) hfuel)
    · intro s s' hs h
      have hle := hs.nClkDiv_le hr
      rcases hs.body mode hr (Nat.le_trans (by decide) hfuel) with
        ⟨s₁, h₁, hs₁, hc⟩ | ⟨s₁, h₁, -⟩
      · obtain rfl := Sum.inl.inj (h.symm.trans h₁)
        exact ⟨hs₁, by omega⟩
      · cases h.symm.trans h₁
    · intro s r hs h
      rcases hs.body mode hr (Nat.le_trans (by decide) hfuel) with
        ⟨s₁, h₁, -⟩ | ⟨s₁, h₁, hfound⟩
      · cases h.symm.trans h₁
      · exact ⟨s₁, Sum.inr.inj (h.symm.trans h₁), hfound⟩
  obtain ⟨r, hr, s', rfl, hfound⟩ := htotal
  exact ⟨s', hr, hfound⟩

/-- What was found passes the comparison with the request. -/
theorem tryClkParam_eq (mode : OpMode) (hr : Requested srcFreq info)
    (hpll : s.nPllNum = info.nPllNum) (hfreq : s.nFreqHz = info.nFreqHz) (hops : AllExact s.ops)
    (hfuel : 64 ≤ fuel) :
    ∃ s', tryClkParam mode fuel srcFreq s = some (true, s') ∧ Found srcFreq info s' := by
  have hs : Searching srcFreq info { s with nClkDiv := 2 } :=
    ⟨hpll, hfreq, Nat.dvd_refl 2, Nat.le_refl 2, .inl rfl, hops⟩
  obtain ⟨s₁, hrun, hfound⟩ := run_clkDivBody mode hs hr hfuel
  have hle := hfound.nClkDiv_le hr
  have hlt := hfound.genDiv_lt
  have hmul : s₁.nClkGenDiv.toNat * s₁.nClkDiv.toNat ≤ 254 * 44 :=
    Nat.mul_le_mul (by omega) hle
  have hexact : (ExactArith.Op.mul s₁.nClkGenDiv s₁.nClkDiv).Exact :=
    Nat.lt_of_le_of_lt hmul (by decide)
  have hdivisor : (s₁.nClkGenDiv * s₁.nClkDiv).toNat =
      s₁.nClkGenDiv.toNat * s₁.nClkDiv.toNat := hexact.toNat_mul
  have hpos := hfound.divisor_pos
  have hne : s₁.nClkGenDiv * s₁.nClkDiv ≠ 0 := by
    intro h
    rw [← hdivisor, h] at hpos
    exact absurd hpos (by decide)
  have hcmp : srcFreq / (s₁.nClkGenDiv * s₁.nClkDiv) ≤ s₁.nFreqHz := by
    rw [BitVec.le_def, BitVec.toNat_udiv, hdivisor, hfound.freq]
    exact Nat.div_le_of_le_mul (by
      rw [Nat.mul_comm]
      exact hfound.clock_le)
  have hquot := quotient_eq mode (a := srcFreq) hne (Nat.le_trans (by decide) hfuel)
    (s₁.ops ++ [.mul s₁.nClkGenDiv s₁.nClkDiv])
  refine ⟨{ s₁ with ops := s₁.ops ++ [.mul s₁.nClkGenDiv s₁.nClkDiv] ++
    [.div srcFreq (s₁.nClkGenDiv * s₁.nClkDiv)] }, ?_, ?_⟩
  · rw [tryClkParam, hrun]
    simp only [Option.join_some, Option.bind_eq_bind, Option.bind_some, ExactArith.Op.perform,
      ExactArith.Op.eval, hquot, hcmp, decide_true, Option.pure_def]
  · exact { hfound with exact := (hfound.exact.snoc hexact).snoc hne }

theorem getClkParam_eq (mode : OpMode) (hr : Requested srcFreq info) (hfuel : 64 ≤ fuel) :
    ∃ s, getClkParam mode fuel srcFreq info = some (true, s) ∧ Found srcFreq info s := by
  obtain ⟨s, hs, hfound⟩ := tryClkParam_eq mode (s := { info with ops := [] }) hr rfl rfl
    ExactArith.allExact_nil hfuel
  refine ⟨s, ?_, hfound⟩
  simp [getClkParam, retryClkParam, hs]

/-! ## Too slow a source -/

/-- Below twice the request the generator's divider comes out as `0`, and is divided by. -/
theorem tryClkParam_low (mode : OpMode) (hlow : srcFreq.toNat < 2 * s.nFreqHz.toNat)
    (hwrap : 2 * s.nFreqHz.toNat < 2 ^ 32) (hfuel : 33 ≤ fuel) :
    ∃ fRet s', tryClkParam mode fuel srcFreq s = some (fRet, s') ∧ s'.nFreqHz = s.nFreqHz ∧
      .div srcFreq 0 ∈ s'.ops := by
  have hmul : (s.nFreqHz * 2).toNat = 2 * s.nFreqHz.toNat := by
    rw [BitVec.toNat_mul, Nat.mul_comm]
    exact Nat.mod_eq_of_lt hwrap
  have hne : s.nFreqHz * 2 ≠ 0 := by
    intro h
    rw [h] at hmul
    exact Nat.not_lt_zero _ (hlow.trans_eq hmul.symm)
  have hlt : srcFreq < s.nFreqHz * 2 := by
    rw [BitVec.lt_def, hmul]
    exact hlow
  have hzero : srcFreq / (s.nFreqHz * 2) = 0 :=
    BitVec.udiv_eq_zero_iff_eq_zero_or_lt.2 (.inr hlt)
  obtain ⟨v, hv⟩ : ∃ v, getquotient mode fuel srcFreq 0 = some v := by
    cases mode with
    | aarch32 => exact ⟨-1, rfl⟩
    | aarch64 => exact ⟨srcFreq / 0, rfl⟩
  have hbody : ∃ s₁, clkDivBody mode fuel srcFreq { s with nClkDiv := 2 } = .inr (some s₁) ∧
      s₁.nFreqHz = s.nFreqHz ∧ s₁.nClkGenDiv = 0 := by
    rw [clkDivBody_eq hne hfuel]
    simp only [hzero, if_neg (BitVec.not_lt.2 (BitVec.le_of_lt hlt))]
    exact ⟨_, rfl, rfl, rfl⟩
  obtain ⟨s₁, hs₁, hfreq, hgen⟩ := hbody
  have hdivisor : s₁.nClkGenDiv * s₁.nClkDiv = 0 := by
    rw [hgen]
    exact BitVec.zero_mul
  refine ⟨decide (v ≤ s₁.nFreqHz), { s₁ with
    ops := s₁.ops ++ [.mul s₁.nClkGenDiv s₁.nClkDiv] ++ [.div srcFreq 0] }, ?_, hfreq, ?_⟩
  · rw [tryClkParam, run_first (Nat.lt_of_lt_of_le (by decide) hfuel) hs₁]
    simp only [Option.join_some, Option.bind_eq_bind, Option.bind_some, ExactArith.Op.perform,
      ExactArith.Op.eval, hdivisor, quotient, hv, Option.map_some, Option.pure_def]
  · exact List.mem_append_right _ (List.mem_singleton.2 rfl)

theorem getClkParam_low (mode : OpMode) (hlow : srcFreq.toNat < 2 * info.nFreqHz.toNat)
    (hwrap : 2 * info.nFreqHz.toNat < 2 ^ 32) (hfuel : 33 ≤ fuel) :
    ∃ fRet s, getClkParam mode fuel srcFreq info = some (fRet, s) ∧ .div srcFreq 0 ∈ s.ops := by
  obtain ⟨fRet, s₁, h₁, hfreq, hmem⟩ := tryClkParam_low mode
    (s := { info with ops := [] }) hlow hwrap hfuel
  cases fRet with
  | true => exact ⟨true, s₁, by simp [getClkParam, retryClkParam, h₁], hmem⟩
  | false =>
    obtain ⟨fRet, s₂, h₂, -, hmem₂⟩ := tryClkParam_low mode (s := s₁)
      (hfreq ▸ hlow) (hfreq ▸ hwrap) hfuel
    cases fRet with
    | true => exact ⟨true, s₂, by simp [getClkParam, retryClkParam, h₁, h₂], hmem₂⟩
    | false => exact ⟨false, s₂, by simp [getClkParam, retryClkParam, h₁, h₂], hmem₂⟩

/-! ## The divider fields -/

/-- The division that `CLKGEN[0]` makes. -/
def clkGenDivider (clkgen : U32) : ℕ := (clkgen.extractLsb' 5 8).toNat + 1

/-- The division that `CLKDIV` makes, which `0` bypasses. -/
def clkDivDivider (clkdiv : U32) : ℕ := if clkdiv = 0 then 1 else 2 * clkdiv.toNat

theorem clkGenMask_getLsbD {i : ℕ} (hi : i < 32) :
    (~~~(0x7#32 <<< 2 ||| 0xFF#32 <<< 5)).getLsbD i = decide (i < 2 ∨ 13 ≤ i) := by
  revert i
  decide

theorem getLsbD_clkGenWord (hpll : info.nPllNum = clksrcSdmmc) (clkgen : U32) {i : ℕ}
    (hi : i < 32) : (clkGenWord info clkgen).getLsbD i =
      (clkgen.getLsbD i && decide (i < 2 ∨ 13 ≤ i) || decide (i = 3) ||
        !decide (i < 5) && (info.nClkGenDiv - 1).getLsbD (i - 5)) := by
  have hsrc : (clksrcSdmmc <<< 2).getLsbD i = decide (i = 3) := by
    rw [show clksrcSdmmc <<< 2 = BitVec.twoPow 32 3 by decide, BitVec.getLsbD_twoPow]
    simp [eq_comm]
  have hinv : (0#32 <<< 1).getLsbD i = false := by
    rw [show 0#32 <<< 1 = 0#32 by decide, BitVec.getLsbD_zero]
  rw [clkGenWord, hpll, BitVec.getLsbD_or, BitVec.getLsbD_or, BitVec.getLsbD_or,
    BitVec.getLsbD_and, clkGenMask_getLsbD hi, hsrc, hinv, BitVec.getLsbD_shiftLeft,
    decide_eq_true hi, Bool.true_and, Bool.or_false]

section Divisor

variable (hpll : info.nPllNum = clksrcSdmmc) (hpos : 1 ≤ info.nClkGenDiv.toNat)
  (hle : info.nClkGenDiv.toNat ≤ 256) (clkgen : U32)

include hpll hpos hle

theorem clkGenDivider_clkGenWord :
    clkGenDivider (clkGenWord info clkgen) = info.nClkGenDiv.toNat := by
  have hsub : (info.nClkGenDiv - 1).toNat = info.nClkGenDiv.toNat - 1 :=
    BitVec.toNat_sub_of_le hpos
  have hfield : (clkGenWord info clkgen).extractLsb' 5 8 = (info.nClkGenDiv - 1).setWidth 8 := by
    apply BitVec.eq_of_getLsbD_eq
    intro i hi
    rw [BitVec.getLsbD_extractLsb', BitVec.getLsbD_setWidth, getLsbD_clkGenWord hpll clkgen
      (by omega), Nat.add_sub_cancel_left]
    rw [decide_eq_false (show ¬ (5 + i < 2 ∨ 13 ≤ 5 + i) by omega),
      decide_eq_false (show ¬ 5 + i = 3 by omega), decide_eq_false (show ¬ 5 + i < 5 by omega),
      decide_eq_true hi, Bool.and_false, Bool.or_false, Bool.false_or]
    rfl
  rw [clkGenDivider, hfield, BitVec.toNat_setWidth, hsub, Nat.mod_eq_of_lt (by omega)]
  omega

/-- The divisor does not reach beyond its field, and the bits around the fields stay. -/
theorem clkGenWord_getLsbD {i : ℕ} (hi : i < 2 ∨ 13 ≤ i) :
    (clkGenWord info clkgen).getLsbD i = clkgen.getLsbD i := by
  have hsub : (info.nClkGenDiv - 1).toNat < 2 ^ 8 := by
    rw [show (info.nClkGenDiv - 1).toNat = info.nClkGenDiv.toNat - 1 from
      BitVec.toNat_sub_of_le hpos]
    omega
  rcases Nat.lt_or_ge i 32 with h32 | h32
  · rw [getLsbD_clkGenWord hpll clkgen h32]
    have hgen : (!decide (i < 5) && (info.nClkGenDiv - 1).getLsbD (i - 5)) = false := by
      rcases hi with h2 | h13
      · simp [show i < 5 by omega]
      · rw [BitVec.getLsbD, Nat.testBit_lt_two_pow
          (Nat.lt_of_lt_of_le hsub (Nat.pow_le_pow_right (by decide) (by omega))), Bool.and_false]
    rw [hgen, decide_eq_true hi, decide_eq_false (by omega), Bool.and_true, Bool.or_false,
      Bool.or_false]
  · rw [BitVec.getLsbD_of_ge _ _ h32, BitVec.getLsbD_of_ge _ _ h32]

end Divisor

/-! ## What is asked of the three functions -/

/-- `NX_SDMMC_GetClkParam` ends, without a wrap or a division by zero, and what it reports as
found is in range. -/
def ClkParamOk (mode : OpMode) (srcFreq nFreq : U32) : Prop :=
  ∀ info : ClkInfo, info.nFreqHz = nFreq → ∀ fuel, 64 ≤ fuel →
    ∃ ret s, getClkParam mode fuel srcFreq info = some (ret, s) ∧ AllExact s.ops ∧
      (ret = true → 1 ≤ s.nClkGenDiv.toNat ∧ s.nClkGenDiv.toNat ≤ 255 ∧ 2 ∣ s.nClkDiv.toNat ∧
        s.nClkDiv.toNat ≤ 510 ∧
        srcFreq.toNat ≤ nFreq.toNat * (s.nClkGenDiv.toNat * s.nClkDiv.toNat))

/-- Between two points of a run each divider register was written once, the values fit the
fields, and the card clock is not above `nFreq`. -/
def ProgramsOk (rd : Readings) (srcFreq nFreq : U32) (log log' : History) : Prop :=
  ∃ clkgen clkdiv t, writes .clkgen0 log' = writes .clkgen0 log ++ [clkgen] ∧
    writes .clkdiv log' = writes .clkdiv log ++ [clkdiv] ∧
    log.length ≤ t ∧ .read (.clkgen0, t) ∈ log' ∧
    (∀ i, i < 2 ∨ 13 ≤ i → clkgen.getLsbD i = (rd (.clkgen0, t)).getLsbD i) ∧
    clkdiv.toNat < 2 ^ 8 ∧
    srcFreq.toNat ≤ nFreq.toNat * (clkGenDivider clkgen * clkDivDivider clkdiv)

def SetClockOk (mode : OpMode) (srcFreq nFreq : U32) : Prop :=
  ∀ rd fuel enb log ret log', 64 ≤ fuel →
    setClock rd mode fuel srcFreq enb nFreq log = some (ret, log') →
      ProgramsOk rd srcFreq nFreq log log'

def InitOk (mode : OpMode) (srcFreq : U32) : Prop :=
  ∀ rd fuel sdPort log log', 64 ≤ fuel →
    init rd mode fuel srcFreq sdPort log = some log' → ProgramsOk rd srcFreq 25000000 log log'

/-- Everything about the clock, for the two frequencies that are ever requested. -/
def SdClockOk (mode : OpMode) (srcFreq : U32) : Prop :=
  (∀ nFreq ∈ [400000#32, 25000000#32],
    ClkParamOk mode srcFreq nFreq ∧ SetClockOk mode srcFreq nFreq) ∧ InitOk mode srcFreq

/-! ## Where the dividers are written -/

variable {rd : Readings} {nFreq : U32} {log log₁ log' : History}

/-- Between two points of a run the dividers were left alone. -/
structure Quiet (log log' : History) : Prop where
  before : log <+: log'
  clkgen0 : writes .clkgen0 log' = writes .clkgen0 log
  clkdiv : writes .clkdiv log' = writes .clkdiv log

theorem Quiet.trans (h₁ : Quiet log log₁) (h₂ : Quiet log₁ log') : Quiet log log' :=
  ⟨h₁.before.trans h₂.before, h₂.clkgen0.trans h₁.clkgen0, h₂.clkdiv.trans h₁.clkdiv⟩

/-- An operation that does not touch the dividers. -/
def Spares : RegTrace.Op ClkReg U32 → Prop
  | .read _ => True
  | .write a _ => a ≠ .clkgen0 ∧ a ≠ .clkdiv
  | .modify a _ => a ≠ .clkgen0 ∧ a ≠ .clkdiv

theorem Spares.not_written {op : RegTrace.Op ClkReg U32} (hop : Spares op) {a : ClkReg}
    (ha : a = .clkgen0 ∨ a = .clkdiv) : ¬op.Modifies a ∧ op.written a = none := by
  cases op with
  | read b => exact ⟨id, rfl⟩
  | write b w =>
    refine ⟨id, if_neg ?_⟩
    rintro rfl
    exact ha.elim hop.1 hop.2
  | modify b f =>
    refine ⟨?_, rfl⟩
    rintro rfl
    exact ha.elim hop.1 hop.2

theorem quiet_exec {ops : List (RegTrace.Op ClkReg U32)} (hops : ∀ op ∈ ops, Spares op) :
    Quiet log (exec rd Prod.mk ops log) := by
  have hwrites : ∀ a, a = .clkgen0 ∨ a = .clkdiv →
      writes a (exec rd Prod.mk ops log) = writes a log := by
    intro a ha
    rw [writes_exec fun op hop => ((hops op hop).not_written ha).1,
      List.filterMap_eq_nil_iff.2 fun op hop => ((hops op hop).not_written ha).2, List.append_nil]
  exact ⟨prefix_exec, hwrites _ (.inl rfl), hwrites _ (.inr rfl)⟩

theorem quiet_poll {sites : ℕ → List (ClkReg × ℕ)} {ok : List U32 → Bool} {left k : ℕ} :
    Quiet log (poll rd sites ok left k log).2 :=
  ⟨prefix_poll, writes_poll, writes_poll⟩

theorem quiet_updateClockBody : Quiet log ((updateClockBody rd log).elim id Prod.snd) := by
  simp only [updateClockBody]
  have hcmd : Quiet log (exec rd Prod.mk
      [.write .cmd (bit CmdFlag.startCmd ||| bit 21 ||| bit CmdFlag.stopAbort)] log) :=
    quiet_exec (by simp [Spares])
  generalize exec rd Prod.mk _ log = log₁ at hcmd ⊢
  have hpoll : Quiet log₁ (poll rd (fun k => [(.cmd, log₁.length + k)])
    (·.all (!·.getLsbD CmdFlag.startCmd)) (sdmmcTimeout + 1) 0 log₁).2 := quiet_poll
  generalize poll rd _ _ _ _ log₁ = p at hpoll ⊢
  have hread : Quiet p.2 (exec rd Prod.mk [.read .rintsts] p.2) := quiet_exec (by simp [Spares])
  split_ifs
  · exact hcmd.trans hpoll
  · exact (hcmd.trans hpoll).trans (hread.trans (quiet_exec (by simp [Spares])))
  · exact (hcmd.trans hpoll).trans hread

theorem quiet_updateClock {r : Bool × History} (h : run (updateClockBody rd) fuel log = some r) :
    Quiet log r.2 := by
  obtain ⟨k, log₁, hk, hbody⟩ := run_eq_some_iff.1 ⟨fuel, h⟩
  have hinv : Quiet log log₁ := by
    refine reach_invariant (I := Quiet log) (fun l l' hl hl' => ?_)
      ⟨List.prefix_rfl, rfl, rfl⟩ hk
    have hstep : Quiet l ((updateClockBody rd l).elim id Prod.snd) := quiet_updateClockBody
    rw [hl'] at hstep
    exact hl.trans hstep
  have hstep : Quiet log₁ ((updateClockBody rd log₁).elim id Prod.snd) := quiet_updateClockBody
  rw [hbody] at hstep
  exact hinv.trans hstep

theorem ProgramsOk.around (h₁ : Quiet log log₁) {log₂ : History}
    (h : ProgramsOk rd srcFreq nFreq log₁ log₂) (h₂ : Quiet log₂ log') :
    ProgramsOk rd srcFreq nFreq log log' := by
  obtain ⟨clkgen, clkdiv, t, hgen, hdiv, ht, hread, hfit⟩ := h
  exact ⟨clkgen, clkdiv, t, by rw [h₂.clkgen0, hgen, h₁.clkgen0],
    by rw [h₂.clkdiv, hdiv, h₁.clkdiv], h₁.before.length_le.trans ht, h₂.before.subset hread, hfit⟩

/-- The two writes of `NX_SDMMC_SetClock` and `NX_SDMMC_Init`, wherever they stand. -/
theorem programsOk_of_writes (info : ClkInfo) (clkDiv : U32) (hpll : info.nPllNum = clksrcSdmmc)
    (hpos : 1 ≤ info.nClkGenDiv.toNat) (hle : info.nClkGenDiv.toNat ≤ 256)
    (hdiv : clkDiv.toNat < 2 ^ 8) (hclock : srcFreq.toNat ≤
      nFreq.toNat * (info.nClkGenDiv.toNat * clkDivDivider clkDiv)) {t : ℕ} (ht : log.length ≤ t)
    (hread : .read (.clkgen0, t) ∈ log')
    (hgen0 : writes .clkgen0 log' = writes .clkgen0 log ++ [clkGenWord info (rd (.clkgen0, t))])
    (hclkdiv : writes .clkdiv log' = writes .clkdiv log ++ [clkDiv]) :
    ProgramsOk rd srcFreq nFreq log log' := by
  refine ⟨_, clkDiv, t, hgen0, hclkdiv, ht, hread, fun i hi => ?_, hdiv, ?_⟩
  · exact clkGenWord_getLsbD hpll hpos hle _ hi
  · rwa [clkGenDivider_clkGenWord hpll hpos hle]

/-- The dividers of `NX_SDMMC_SetClock`. -/
theorem Found.programsOk (hr : Requested srcFreq info) (hpll : info.nPllNum = clksrcSdmmc)
    (h : Found srcFreq info s) : ProgramsOk rd srcFreq info.nFreqHz log
      (exec rd Prod.mk [.modify .clkgen0 (clkGenWord s.toClkInfo), .write .clkdiv (s.nClkDiv >>> 1)]
        log) := by
  have hle := h.nClkDiv_le hr
  have htwo := h.two_le
  have heven := h.even
  have hlt := h.genDiv_lt
  have hhalf : (s.nClkDiv >>> 1).toNat = s.nClkDiv.toNat / 2 := by
    rw [BitVec.toNat_ushiftRight, Nat.shiftRight_eq_div_pow]
  have hdivider : clkDivDivider (s.nClkDiv >>> 1) = s.nClkDiv.toNat := by
    have hne : ¬ s.nClkDiv >>> 1 = 0 := by
      intro h0
      rw [h0] at hhalf
      have : 0 = s.nClkDiv.toNat / 2 := hhalf
      omega
    rw [clkDivDivider, if_neg hne, hhalf]
    omega
  refine programsOk_of_writes s.toClkInfo (s.nClkDiv >>> 1) (h.pll.trans hpll) ?_ (by omega) ?_ ?_
    (Nat.le_refl log.length) ?_ ?_ ?_
  · rcases h.genDiv with hg | hg <;> omega
  · rw [hhalf]
    omega
  · rw [hdivider]
    exact h.clock_le
  · simp [exec, Op.accesses]
  · rw [exec, List.foldl_cons, List.foldl_cons, List.foldl_nil, writes_append, writes_append,
      List.append_assoc]
    rfl
  · rw [exec, List.foldl_cons, List.foldl_cons, List.foldl_nil, writes_append, writes_append,
      List.append_assoc]
    rfl

theorem setClockOk_of_requested (hr : Requested srcFreq ⟨clksrcSdmmc, nFreq, 0, 0⟩) :
    SetClockOk mode srcFreq nFreq := by
  intro rd fuel enb log ret log' hfuel h
  obtain ⟨s, hs, hfound⟩ := getClkParam_eq mode hr hfuel
  have hbefore : Quiet log (exec rd Prod.mk
      [.modify .clkena (· &&& ~~~clkenaClkenb), .modify .clkena (· ||| clkenaLowpwr),
        .write .clkenb clkenbMode] log) := quiet_exec (by simp [Spares])
  simp only [setClock, hs, Option.bind_eq_bind, Option.bind_some, if_true] at h
  generalize exec rd Prod.mk [.modify .clkena (· &&& ~~~clkenaClkenb), _, _] log = log₁ at hbefore h
  have hprog : ProgramsOk rd srcFreq nFreq log₁ (exec rd Prod.mk
      [.modify .clkgen0 (clkGenWord s.toClkInfo), .write .clkdiv (s.nClkDiv >>> 1)] log₁) :=
    hfound.programsOk hr rfl
  generalize exec rd Prod.mk [.modify .clkgen0 (clkGenWord s.toClkInfo), _] log₁ = log₂ at hprog h
  have hafter : Quiet log₂ (exec rd Prod.mk
      [.modify .clkenb (· ||| bit 2), .modify .clkena (· &&& ~~~clkenaLowpwr)] log₂) :=
    quiet_exec (by simp [Spares])
  generalize exec rd Prod.mk [.modify .clkenb (· ||| bit 2), _] log₂ = log₃ at hafter h
  rcases hup : run (updateClockBody rd) fuel log₃ with _ | ⟨updated, log₄⟩
  · rw [hup] at h
    cases h
  · have hquiet := hafter.trans (quiet_updateClock hup)
    rw [hup] at h
    simp only [Option.bind_some] at h
    split_ifs at h
    · obtain ⟨rfl, rfl⟩ := Prod.mk.inj (Option.some.inj h)
      exact hprog.around hbefore hquiet
    · obtain ⟨rfl, rfl⟩ := Prod.mk.inj (Option.some.inj h)
      exact hprog.around hbefore hquiet
    · have hena : Quiet log₄ (exec rd Prod.mk [.modify .clkena (· ||| clkenaClkenb)] log₄) :=
        quiet_exec (by simp [Spares])
      exact hprog.around hbefore (hquiet.trans (hena.trans (quiet_updateClock h)))

/-- What `NX_SDMMC_Init` writes to the dividers, wherever its wait for the reset ends. -/
theorem init_writes {sdPort : Fin 3} {ret : Bool}
    (hparam : getClkParam mode fuel srcFreq ⟨clksrcSdmmc, 25000000, 0, 0⟩ = some (ret, s))
    (h : init rd mode fuel srcFreq sdPort log = some log') :
    .read (.clkgen0, log.length + 1) ∈ log' ∧
      writes .clkgen0 log' =
        writes .clkgen0 log ++ [clkGenWord s.toClkInfo (rd (.clkgen0, log.length + 1))] ∧
      writes .clkdiv log' = writes .clkdiv log ++ [s.nClkGenDiv >>> 1] := by
  simp only [init, hparam, Option.bind_eq_bind, Option.bind_some] at h
  set word := clkGenWord s.toClkInfo (rd (.clkgen0, log.length + 1)) with hword
  -- The straight code up to the reset, cut at the two writes.
  let log₁ : History := log ++ [.write .clkenb clkenbMode] ++
    [.read (.clkgen0, log.length + 1), .write .clkgen0 word]
  let log₂ := exec rd Prod.mk [.modify .clkenb (· ||| bit 2), resetCon (sdResetNum sdPort) true,
    resetCon (sdResetNum sdPort) false, .write .pwren 0, .write .clkena clkenaLowpwr,
    .write .clkctrl (2#32 <<< 16), .write .clksrc 0] log₁
  let log₃ := log₂ ++ [.write .clkdiv (s.nClkGenDiv >>> 1)]
  have h₂ : Quiet log₁ log₂ := quiet_exec (by simp [Spares, resetCon, resetConOn])
  have h₃ : Quiet log₃ (exec rd Prod.mk
      [.modify .ctrl (· &&& ~~~(bit 5 ||| bit 6)), .write .ctrl ctrlReset] log₃) :=
    quiet_exec (by simp [Spares])
  have hcut : exec rd Prod.mk
      [.write .clkenb clkenbMode, .modify .clkgen0 (clkGenWord s.toClkInfo),
        .modify .clkenb (· ||| bit 2), resetCon (sdResetNum sdPort) true,
        resetCon (sdResetNum sdPort) false, .write .pwren 0, .write .clkena clkenaLowpwr,
        .write .clkctrl (2#32 <<< 16), .write .clksrc 0, .write .clkdiv (s.nClkGenDiv >>> 1),
        .modify .ctrl (· &&& ~~~(bit 5 ||| bit 6)), .write .ctrl ctrlReset] log =
      exec rd Prod.mk
        [.modify .ctrl (· &&& ~~~(bit 5 ||| bit 6)), .write .ctrl ctrlReset] log₃ := by
    have hlen : (log ++ [Access.write ClkReg.clkenb clkenbMode]).length = log.length + 1 :=
      List.length_append
    simp only [log₃, log₂, log₁, hword, exec, List.foldl_cons, List.foldl_nil, Op.accesses, hlen]
  rw [hcut] at h
  generalize exec rd Prod.mk [.modify .ctrl (· &&& ~~~(bit 5 ||| bit 6)), _] log₃ = log₄ at h h₃
  rcases hwait : waitFor rd Prod.mk .ctrl (· &&& ctrlReset == 0) fuel log₄ with _ | ⟨v, log₅⟩
  · rw [hwait] at h
    cases h
  · rw [hwait] at h
    have h₅ : Quiet log₄ log₅ := ⟨prefix_waitFor hwait, writes_waitFor hwait, writes_waitFor hwait⟩
    obtain rfl := Option.some.inj h
    have h₆ : Quiet log₅ (exec rd Prod.mk
        [.write .pwren 1, .write .tmout (0xFFFFFF#32 <<< 8 ||| 0x64#32), .write .ctype 0,
          .write .blksiz blockLength, .write .fifoth (7#32 <<< 16 ||| 8#32), .write .intmask 0,
          .write .rintsts 0xFFFFFFFF] log₅) := quiet_exec (by simp [Spares])
    have hend := h₃.trans (h₅.trans h₆)
    refine ⟨hend.before.subset (List.mem_append_left _ (h₂.before.subset ?_)), ?_, ?_⟩
    · simp [log₁]
    · rw [hend.clkgen0, writes_append, h₂.clkgen0, writes_append, writes_append,
        List.append_assoc, List.append_assoc]
      rfl
    · rw [hend.clkdiv, writes_append, h₂.clkdiv, writes_append, writes_append, List.append_assoc,
        List.append_assoc]
      rfl

/-- `nClkGenDiv >> 1` in the place of `nClkDiv >> 1` is slow enough unless it is `0`. -/
theorem initOk_of_lt (hsrc : 50000000 < srcFreq.toNat) : InitOk mode srcFreq := by
  intro rd fuel sdPort log log' hfuel h
  have hr : Requested srcFreq ⟨clksrcSdmmc, 25000000, 0, 0⟩ :=
    ⟨show 400000 ≤ 25000000 by decide, Nat.le_of_lt hsrc⟩
  obtain ⟨s, hs, hfound⟩ := getClkParam_eq mode hr hfuel
  obtain ⟨hread, hgen0, hclkdiv⟩ := init_writes hs h
  have hfreq : (25000000 : U32).toNat = 25000000 := rfl
  have hlt := hfound.genDiv_lt
  have hc : s.nClkDiv.toNat = 2 := by
    have htwo := hfound.two_le
    have heven := hfound.even
    have hmax := srcFreq.isLt
    rcases hfound.skipped with h2 | hskip
    · exact h2
    · simp only [hfreq] at hskip
      omega
  have hgen : 3 ≤ s.nClkGenDiv.toNat ∧
      srcFreq.toNat < 25000000 * 2 * (s.nClkGenDiv.toNat - 1) := by
    rcases hfound.genDiv with ⟨-, -, heq⟩ | ⟨h3, -, hbound⟩
    · simp only [hfreq] at heq
      omega
    · exact ⟨h3, by simpa only [hc, hfreq] using hbound⟩
  have hhalf : (s.nClkGenDiv >>> 1).toNat = s.nClkGenDiv.toNat / 2 := by
    rw [BitVec.toNat_ushiftRight, Nat.shiftRight_eq_div_pow]
  refine programsOk_of_writes s.toClkInfo (s.nClkGenDiv >>> 1) hfound.pll (by omega) (by omega)
    (by rw [hhalf]; omega) ?_ (Nat.le_succ _) hread hgen0 hclkdiv
  have hne : ¬ s.nClkGenDiv >>> 1 = 0 := by
    intro h0
    have : 0 = s.nClkGenDiv.toNat / 2 := (congrArg BitVec.toNat h0).symm.trans hhalf
    omega
  rw [clkDivDivider, if_neg hne, hhalf, hfreq]
  have htwice := Nat.mul_le_mul_left s.nClkGenDiv.toNat
    (show 2 ≤ 2 * (s.nClkGenDiv.toNat / 2) by omega)
  omega

/-- At 50 MHz the divider of the generator is `1` and the other one is bypassed. -/
theorem not_initOk (hsrc : srcFreq.toNat = 50000000) : ¬ InitOk mode srcFreq := by
  intro hok
  have hr : Requested srcFreq ⟨clksrcSdmmc, 25000000, 0, 0⟩ :=
    ⟨show 400000 ≤ 25000000 by decide, Nat.le_of_eq hsrc.symm⟩
  obtain ⟨s, hs, hfound⟩ := getClkParam_eq mode hr (Nat.le_refl 64)
  have hfreq : (25000000 : U32).toNat = 25000000 := rfl
  have hgen : s.nClkGenDiv.toNat = 1 := by
    have htwo := hfound.two_le
    rcases hfound.genDiv with ⟨h1, -⟩ | ⟨-, hlt, -⟩
    · exact h1
    · simp only [hfreq] at hlt
      omega
  obtain ⟨log', h⟩ : ∃ log', init (fun _ => 0) mode 64 srcFreq 0 [] = some log' := by
    have hwait : ∀ l : History, waitBody (fun _ => 0) Prod.mk .ctrl (· &&& ctrlReset == 0) l =
        .inr (0, l ++ [.read (.ctrl, l.length)]) := by
      intro l
      rw [waitBody, if_pos (by decide)]
    simp only [init, hs, Option.bind_eq_bind, Option.bind_some, waitFor]
    rw [run_first (by decide) (hwait _)]
    exact ⟨_, rfl⟩
  obtain ⟨-, hgen0, hclkdiv⟩ := init_writes hs h
  obtain ⟨clkgen, clkdiv, t, hgen0', hclkdiv', -, -, -, -, hclock⟩ :=
    hok _ 64 0 [] log' (Nat.le_refl 64) h
  obtain rfl := List.singleton_inj.1 (List.append_cancel_left (hgen0'.symm.trans hgen0))
  obtain rfl := List.singleton_inj.1 (List.append_cancel_left (hclkdiv'.symm.trans hclkdiv))
  have hzero : s.nClkGenDiv >>> 1 = 0 := by
    apply BitVec.eq_of_toNat_eq
    rw [BitVec.toNat_ushiftRight, hgen]
    rfl
  rw [clkGenDivider_clkGenWord hfound.pll (by omega) (by omega), hgen, clkDivDivider, if_pos hzero,
    hsrc] at hclock
  exact absurd hclock (by decide)

theorem clkParamOk_of_requested (hr : Requested srcFreq info) :
    ClkParamOk mode srcFreq info.nFreqHz := by
  intro info' hinfo fuel hfuel
  have hr' : Requested srcFreq info' := ⟨hinfo ▸ hr.freq, hinfo ▸ hr.src⟩
  obtain ⟨s, hs, hfound⟩ := getClkParam_eq mode hr' hfuel
  have hle := hfound.nClkDiv_le hr'
  have hlt := hfound.genDiv_lt
  refine ⟨true, s, hs, hfound.exact, fun _ => ⟨?_, by omega, hfound.even, by omega, ?_⟩⟩
  · rcases hfound.genDiv with hg | hg <;> omega
  · rw [← hinfo]
    exact hfound.clock_le

/-- **The SD clock** is as it should be, in either build, exactly for sources above 50 MHz. -/
theorem sdClockOk_iff (mode : OpMode) (srcFreq : U32) :
    SdClockOk mode srcFreq ↔ 50000000 < srcFreq.toNat := by
  constructor
  · rintro ⟨hparam, hinit⟩
    by_contra hle
    rcases Nat.lt_or_ge srcFreq.toNat 50000000 with hlow | hge
    · -- the other divider of the division is `0`
      obtain ⟨ret, s, hs, hexact, -⟩ :=
        (hparam 25000000 (by simp)).1 ⟨clksrcSdmmc, 25000000, 0, 0⟩ rfl 64 (Nat.le_refl 64)
      have hlow' : srcFreq.toNat <
          2 * (⟨clksrcSdmmc, 25000000, 0, 0⟩ : ClkInfo).nFreqHz.toNat := hlow
      obtain ⟨ret', s', hs', hmem⟩ :=
        getClkParam_low mode hlow' (by decide) (show 33 ≤ 64 by decide)
      obtain ⟨rfl, rfl⟩ := Prod.mk.inj (Option.some.inj (hs.symm.trans hs'))
      exact hexact _ hmem rfl
    · exact not_initOk (by omega) hinit
  · intro hsrc
    have hrequested : ∀ nFreq ∈ [400000#32, 25000000#32],
        Requested srcFreq ⟨clksrcSdmmc, nFreq, 0, 0⟩ := by
      intro nFreq hmem
      simp only [List.mem_cons, List.not_mem_nil, or_false] at hmem
      rcases hmem with rfl | rfl
      · exact ⟨Nat.le_refl 400000, Nat.le_of_lt (Nat.lt_trans (by decide) hsrc)⟩
      · exact ⟨show 400000 ≤ 25000000 by decide, Nat.le_of_lt hsrc⟩
    exact ⟨fun nFreq hmem => ⟨clkParamOk_of_requested (hrequested nFreq hmem),
      setClockOk_of_requested (hrequested nFreq hmem)⟩, initOk_of_lt hsrc⟩

/-- A source of 50 MHz reaches the card at 50 MHz where 25 MHz was asked for. -/
theorem not_sdClockOk_50MHz : ¬ SdClockOk .aarch32 50000000 :=
  fun h => not_initOk rfl h.2

end Gec6818Bl1.Sdmmc.Clock
