import Gec6818Bl1.Lib.ByteMem
import Mathlib.Logic.Function.Iterate

/-!
# CRC32

`iget_fcs` is the `CRC32W` instruction: one word of the reflected polynomial `POLY`, with neither an
initial nor a final inversion. `__calc_crc` folds it over the words of a buffer.
-/

namespace Gec6818Bl1

open ByteMem

def poly : BitVec 32 := 0xEDB88320

/-- One bit of the shift register. -/
def shiftFcs (fcs : BitVec 32) : BitVec 32 :=
  if fcs.getLsbD 0 then (fcs >>> 1) ^^^ poly else fcs >>> 1

def igetFcs (fcs data : BitVec 32) : BitVec 32 := shiftFcs^[32] (fcs ^^^ data)

/-! ## The register is not forgotten -/

/-- The top bit of the polynomial tells which bit was shifted out. -/
theorem shiftFcs_injective : Function.Injective shiftFcs := by
  intro a b h
  have htop (x : BitVec 32) : (shiftFcs x).getLsbD 31 = x.getLsbD 0 := by
    unfold shiftFcs
    split_ifs with hx
    · simp [hx, poly]
    · simpa using hx
  have hlow : a.getLsbD 0 = b.getLsbD 0 := by rw [← htop a, ← htop b, h]
  have hshift : a >>> 1 = b >>> 1 := by
    unfold shiftFcs at h
    rw [hlow] at h
    split_ifs at h
    · exact (BitVec.xor_left_inj _).1 h
    · exact h
  ext i hi
  cases i with
  | zero => simpa using hlow
  | succ i =>
    have hbit := congrArg (fun x : BitVec 32 => x.getLsbD i) hshift
    simp only [BitVec.getLsbD_ushiftRight] at hbit
    rwa [← BitVec.getLsbD_eq_getElem, ← BitVec.getLsbD_eq_getElem, Nat.add_comm]

theorem igetFcs_injective (data : BitVec 32) : Function.Injective fun fcs => igetFcs fcs data :=
  fun _ _ h => (BitVec.xor_left_inj _).1 (shiftFcs_injective.iterate 32 h)

/-- Over the same words, two CRCs differ if they started from different values. -/
theorem foldl_igetFcs_injective (ws : List (BitVec 32)) :
    Function.Injective fun fcs => ws.foldl igetFcs fcs := by
  induction ws with
  | nil => exact fun _ _ h => h
  | cons x ws ih => exact fun _ _ h => igetFcs_injective x (ih h)

variable {w : ℕ}

/-- `__calc_crc`. `len` is an `int`, and a negative number of words is a large `U32`. -/
def calcCrc (mem : Mem w) (addr : BitVec w) (len : BitVec 32) : BitVec 32 :=
  let chkcnt := (len + 3).sdiv 4
  (loadWords mem addr chkcnt.toNat).foldl igetFcs 0

/-- `CRC_Check`. -/
def crcCheck (mem : Mem w) (buf : BitVec w) (size refCrc : BitVec 32) : Bool :=
  refCrc = calcCrc mem buf size

theorem crcCheck_iff {mem : Mem w} {buf : BitVec w} {size refCrc : BitVec 32} :
    crcCheck mem buf size refCrc = true ↔ calcCrc mem buf size = refCrc := by
  rw [crcCheck, decide_eq_true_eq, eq_comm]

/-- The number of words, for a buffer whose size is a positive `int`. -/
theorem toNat_chkcnt {len : BitVec 32} (h : len.toNat + 3 < 2 ^ 31) :
    ((len + 3).sdiv 4).toNat = (len.toNat + 3) / 4 := by
  have hadd : (len + 3).toNat = len.toNat + 3 := by
    rw [BitVec.toNat_add]
    exact Nat.mod_eq_of_lt (show len.toNat + 3 < 2 ^ 32 by omega)
  have hmsb : (len + 3).msb = false := by
    rw [BitVec.msb_eq_false_iff_two_mul_lt, hadd]
    omega
  rw [BitVec.sdiv_eq, hmsb]
  change ((len + 3) / 4).toNat = _
  rw [BitVec.toNat_udiv, hadd]
  rfl

end Gec6818Bl1
