import Gec6818Bl1.Lib.RegTrace

/-!
# ResetCon

The registers of the reset controller have one bit for each device, which is `0` while the device is
in reset. Every driver resets its device with two calls of `ResetCon`, and no call touches the bit
of another device (`getLsbD_resetWord`). The drivers name these registers each in its own way, so
the name of the register with a given number is an argument here.
-/

namespace Gec6818Bl1

open RegTrace

variable {A : Type*}

/-- What the register of a device holds after a call that found `v` in it. -/
def resetWord (devicenum : BitVec 32) (en : Bool) (v : BitVec 32) : BitVec 32 :=
  if en then v &&& ~~~(0x1#32 <<< (devicenum &&& 0x1F)) else v ||| 0x1#32 <<< (devicenum &&& 0x1F)

/-- `ResetCon`, on the registers `regRst`. -/
def resetConOn (regRst : BitVec 32 → A) (devicenum : BitVec 32) (en : Bool) : Op A (BitVec 32) :=
  .modify (regRst ((devicenum >>> 5) &&& 0x3)) (resetWord devicenum en)

/-- The bit of the device alone is written. -/
theorem getLsbD_resetWord (devicenum : BitVec 32) (en : Bool) (v : BitVec 32) {k : ℕ}
    (hk : k < 32) : (resetWord devicenum en v).getLsbD k =
      if k = devicenum.toNat % 32 then !en else v.getLsbD k := by
  have hmask : (devicenum &&& 0x1F).toNat = devicenum.toNat % 32 := by
    rw [BitVec.toNat_and]
    exact Nat.and_two_pow_sub_one_eq_mod _ 5
  have hbit : (0x1#32 <<< (devicenum &&& 0x1F)).getLsbD k = decide (k = devicenum.toNat % 32) := by
    rw [BitVec.shiftLeft_eq', hmask, BitVec.getLsbD_shiftLeft, BitVec.getLsbD_one, Bool.eq_iff_iff]
    simp only [Bool.and_eq_true, Bool.not_eq_true', decide_eq_true_eq, decide_eq_false_iff_not]
    omega
  cases en with
  | true =>
    rw [resetWord, if_pos rfl, BitVec.getLsbD_and, BitVec.getLsbD_not, hbit, decide_eq_true hk]
    split_ifs with h
    · rw [decide_eq_true h, Bool.not_true, Bool.and_false, Bool.and_false]
    · rw [decide_eq_false h, Bool.not_false, Bool.and_true, Bool.and_true]
  | false =>
    rw [resetWord, if_neg Bool.false_ne_true, BitVec.getLsbD_or, hbit]
    split_ifs with h
    · rw [decide_eq_true h, Bool.or_true]
      rfl
    · rw [decide_eq_false h, Bool.or_false]

end Gec6818Bl1
