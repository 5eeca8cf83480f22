import Gec6818Bl1.Lib.ByteMem

/-!
# Addresses and boot headers

What the boot code agrees on before it loads anything: the width of a pointer, where the
internal SRAM is, and the two layouts under which the same 512-byte header is read.

`struct NX_SecondBootInfo` is the layout of BL1's own header (and of an image sent over USB),
`struct nx_tbbinfo` the one of a third-stage image on a card. The SD loader reads one sector into
a `NX_SecondBootInfo` and looks at it through both.
-/

namespace Gec6818Bl1

open ByteMem

/-- The execution state BL1 is compiled for (`OPMODE` of `config.mak`). -/
inductive OpMode where
  | aarch32
  | aarch64
  deriving DecidableEq, Repr

/-- The width of `MPTRS`, the integer type a pointer is cast to. -/
def OpMode.width : OpMode → ℕ
  | aarch32 => 32
  | aarch64 => 64

variable {mode : OpMode}

theorem OpMode.width_le : mode.width ≤ 64 := by cases mode <;> decide

theorem OpMode.le_width : 32 ≤ mode.width := by cases mode <;> decide

theorem OpMode.two_pow_le : 2 ^ 32 ≤ 2 ^ mode.width :=
  Nat.pow_le_pow_right (by decide) OpMode.le_width

/-- The cast `(MPTRS)addr`: it drops the upper half of the address on aarch32. -/
def mptrs (mode : OpMode) (addr : BitVec 64) : BitVec mode.width := addr.setWidth mode.width

theorem mptrs_add (a b : BitVec 64) : mptrs mode (a + b) = mptrs mode a + mptrs mode b :=
  BitVec.setWidth_add a b OpMode.width_le

theorem mptrs_ofNat (k : ℕ) : mptrs mode (BitVec.ofNat 64 k) = BitVec.ofNat mode.width k := by
  rw [mptrs, BitVec.setWidth_ofNat_of_le OpMode.width_le]

@[simp] theorem toNat_mptrs (a : BitVec 64) : (mptrs mode a).toNat = a.toNat % 2 ^ mode.width :=
  BitVec.toNat_setWidth mode.width a

/-! ## The internal SRAM -/

def baseaddrSram : ℕ := 0xFFFF0000

def internalSramSize : ℕ := 64 * 1024

/-- BL1's code, its stack and the resident stage2 all live here. -/
def sram (mode : OpMode) : Set (BitVec mode.width) :=
  {a | baseaddrSram ≤ a.toNat ∧ a.toNat < baseaddrSram + internalSramSize}

/-- `pSBI` (and `psbh`): the boot ROM left BL1's own header at the start of the SRAM. -/
def pSBI (mode : OpMode) : BitVec mode.width := BitVec.ofNat mode.width baseaddrSram

theorem toNat_pSBI : (pSBI mode).toNat = baseaddrSram := by cases mode <;> rfl

/-! ## The headers -/

/-- `"NSIH"` read as a little-endian word. -/
def headerId : BitVec 32 := 0x4849534E

def sizeofNxBootheader : ℕ := 0x400

section Fields

variable {w : ℕ} (m : Mem w) (p : BitVec w)

namespace SecondBootInfo

def deviceaddr : BitVec 32 := load32 m (p + BitVec.ofNat w 0x40)
def loadsize : BitVec 32 := load32 m (p + BitVec.ofNat w 0x44)
def loadaddr : BitVec 32 := load32 m (p + BitVec.ofNat w 0x48)
def launchaddr : BitVec 32 := load32 m (p + BitVec.ofNat w 0x4C)

/-- `DBI.SDMMCBI.CRC32`, third word of the device boot information. -/
def crc32 : BitVec 32 := load32 m (p + BitVec.ofNat w 0x58)

def signature : BitVec 32 := load32 m (p + BitVec.ofNat w 0x1FC)

end SecondBootInfo

namespace Tbbinfo

def loadsize : BitVec 32 := load32 m (p + BitVec.ofNat w 0x50)
def crc32 : BitVec 32 := load32 m (p + BitVec.ofNat w 0x54)
def loadaddr : BitVec 64 := load64 m (p + BitVec.ofNat w 0x58)
def startaddr : BitVec 64 := load64 m (p + BitVec.ofNat w 0x60)

end Tbbinfo

end Fields

end Gec6818Bl1
