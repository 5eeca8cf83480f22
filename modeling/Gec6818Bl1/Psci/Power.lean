import Mathlib.Logic.Function.Basic
import Mathlib.Data.Fin.Basic

/-!
# The power-on registers

Powering a core on takes three registers of the SoC. The tie-off registers hold, for every core,
the bit that selects AArch64 and the reset vector `RVBAR`; four cores of a cluster share the word
with their mode bits. `CPURESETMODE` is set once and for all, and a core is started by raising its
bit of `CPUPOWERONREQ`.

The functions here run as the source does when nobody interferes. What becomes of them when
several cores' register accesses interleave is a matter of its own.
-/

namespace Gec6818Bl1

/-- An index as `GetCPUID` numbers the cores: cluster 0 is `0` to `3`, cluster 1 is `4` to `7`. -/
abbrev CpuId := Fin 8

/-- What the numerals of cores rest on, in whatever module they stand. -/
instance neZero_cpus : @NeZero ℕ Zero.ofOfNat0 8 := ⟨by decide⟩

structure PowerRegs where
  tieoffreg : ℕ → BitVec 32
  cpuresetmode : BitVec 32
  cpupoweronreq : BitVec 32

/-- `TIEOFFREG[modeReg cpu]` holds the AArch64 bit of the core. -/
def modeReg (cpu : CpuId) : ℕ := if cpu.val &&& 4 ≠ 0 then 96 else 79

def modeBit (cpu : CpuId) : ℕ := if cpu.val &&& 4 ≠ 0 then 4 + (cpu.val &&& 3) else 12 + cpu.val

/-- `TIEOFFREG[rvbarReg cpu]` is the reset vector of the core, in words. -/
def rvbarReg (cpu : CpuId) : ℕ :=
  if cpu.val &&& 4 ≠ 0 then 97 + ((cpu.val &&& 3) <<< 1) else 80 + (cpu.val <<< 1)

/-- `1 << cpu`. -/
def cpuBit (cpu : CpuId) : BitVec 32 := 1#32 <<< cpu.val

/-- `(U32)(MPTRS)Startup >> 2`. -/
def resetVector (startup : BitVec 64) : BitVec 32 := startup.setWidth 32 >>> 2

namespace PowerRegs

def writeTieoff (regs : PowerRegs) (i : ℕ) (value : BitVec 32) : PowerRegs :=
  { regs with tieoffreg := Function.update regs.tieoffreg i value }

/-- `SetVectorLocation`, for either cluster. -/
def setVectorLocation (startup : BitVec 64) (cpu : CpuId) (regs : PowerRegs) : PowerRegs :=
  let regvalue := regs.tieoffreg (modeReg cpu) ||| 1#32 <<< modeBit cpu
  (regs.writeTieoff (modeReg cpu) regvalue).writeTieoff (rvbarReg cpu) (resetVector startup)

/-- `BringUpSlaveCPU`: `ClearIO32` reads the request word back before it clears the bit. -/
def bringUpSlaveCPU (cpu : CpuId) (regs : PowerRegs) : PowerRegs :=
  let regs := { regs with cpuresetmode := 1 }
  let regs := { regs with cpupoweronreq := cpuBit cpu }
  { regs with cpupoweronreq := regs.cpupoweronreq &&& ~~~cpuBit cpu }

def powerOnSecondaryCPU (startup : BitVec 64) (cpu : CpuId) (regs : PowerRegs) : PowerRegs :=
  bringUpSlaveCPU cpu (setVectorLocation startup cpu regs)

/-- The store of `SubCPUBoot`: "clear own wakeup req bit". -/
def clearWakeup (regs : PowerRegs) : PowerRegs := { regs with cpupoweronreq := 0x00 }

end PowerRegs

theorem rvbarReg_ne_modeReg (cpu t : CpuId) : rvbarReg cpu ≠ modeReg t := by
  revert cpu t; decide

theorem rvbarReg_injective : Function.Injective rvbarReg := by
  unfold Function.Injective; decide

/-- Cores that share a word of mode bits have different bits in it. -/
theorem modeBit_ne {cpu t : CpuId} (h : cpu ≠ t) (hreg : modeReg cpu = modeReg t) :
    modeBit cpu ≠ modeBit t := by
  revert cpu t; decide

theorem modeBit_lt (cpu : CpuId) : modeBit cpu < 32 := by
  revert cpu; decide

theorem getLsbD_cpuBit (cpu t : CpuId) : (cpuBit cpu).getLsbD t.val = decide (cpu = t) := by
  revert cpu t; decide

end Gec6818Bl1
