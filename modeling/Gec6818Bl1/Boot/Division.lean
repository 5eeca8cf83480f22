import Gec6818Bl1.Boot.Layout
import Gec6818Bl1.Lib.ExactArith
import Gec6818Bl1.Lib.Polling

/-!
# Division without a divide instruction

The ARMv7 state BL1 may be built for has no divide instruction, so `getquotient` and `getremainder`
of `lib2ndboot.c` shift and subtract; the aarch64 build divides.

Two loops follow each other. The first moves leading bits of the dividend into the remainder until
it is no longer below the divisor, and the last of these moves is taken back. The second decides
one bit of the quotient at a time, by the sign bit of `remainder - divisor`. With `a` the
dividend, `b` the divisor and `m` the bits that the second loop has left:

* **First loop.** At its `k`-th test the remainder is `a >>> (32 - k)` and the dividend is
  `a <<< k`, so it stops within 32 rounds (`normalise_total`).
* **Second loop.** The quotient and the remainder are those of `a >>> m` by `b`, which is the
  invariant `BitVec.DivModState.Lawful` of restoring division.
* **The sign bit.** A difference of two words has the sign of the comparison only if they are less
  than half of the range apart. Either the divisor is below `2 ^ 31`, or one bit is left and the
  dividend is not below the divisor (`msb_shiftIn_sub`).
-/

namespace Gec6818Bl1

open Polling

/-- The locals of both functions. -/
structure Division where
  dividend : BitVec 32
  remainder : BitVec 32
  quotient : BitVec 32
  d : BitVec 32
  numBits : BitVec 32
  i : BitVec 32
  deriving DecidableEq, Repr

namespace Division

/-- `(remainder << 1) | bit`, with `bit` the top bit of the dividend. -/
def shiftIn (s : Division) : BitVec 32 :=
  s.remainder <<< 1 ||| (s.dividend &&& 0x80000000#32) >>> 31

/-- `while (remainder < divisor)`. -/
def normaliseBody (divisor : BitVec 32) (s : Division) : Division ⊕ Division :=
  if s.remainder < divisor then
    .inl { s with
      remainder := s.shiftIn
      d := s.dividend
      dividend := s.dividend <<< 1
      numBits := s.numBits - 1 }
  else .inr s

/-- What stands between the loops: the last move is taken back. -/
def stepBack (s : Division) : Division :=
  { s with dividend := s.d, remainder := s.remainder >>> 1, numBits := s.numBits + 1 }

/-- One round of the second loop, which gives one bit of the quotient. -/
def quotientBit (divisor : BitVec 32) (s : Division) : Division :=
  let t := s.shiftIn - divisor
  let q := if (t &&& 0x80000000#32) >>> 31 = 0 then 1#32 else 0#32
  { s with
    remainder := if q ≠ 0 then t else s.shiftIn
    dividend := s.dividend <<< 1
    quotient := s.quotient <<< 1 ||| q }

/-- `for (i = 0; i < num_bits; i++)`. -/
def quotientBody (divisor : BitVec 32) (s : Division) : Division ⊕ Division :=
  if s.i < s.numBits then .inl { quotientBit divisor s with i := s.i + 1 } else .inr s

/-- The locals before the first loop. -/
def start (dividend : BitVec 32) : Division :=
  { dividend, remainder := 0, quotient := 0, d := 0, numBits := 32, i := 0 }

/-- Both loops, each with `fuel` tests at most. -/
def loops (fuel : ℕ) (dividend divisor : BitVec 32) : Option Division :=
  (run (normaliseBody divisor) fuel (start dividend)).bind fun s =>
    run (quotientBody divisor) fuel { s.stepBack with i := 0 }

end Division

/-- `getquotient`. Where the aarch64 build divides by zero, the `UDIV` instruction gives `0`. -/
def getquotient (mode : OpMode) (fuel : ℕ) (dividend divisor : BitVec 32) : Option (BitVec 32) :=
  match mode with
  | .aarch32 =>
    if divisor = 0 then some (-1)
    else if divisor > dividend then some 0
    else if divisor = dividend then some 1
    else (Division.loops fuel dividend divisor).map (·.quotient)
  | .aarch64 => some (dividend / divisor)

/-- `getremainder`. -/
def getremainder (mode : OpMode) (fuel : ℕ) (dividend divisor : BitVec 32) : Option (BitVec 32) :=
  match mode with
  | .aarch32 =>
    if divisor = 0 then some (-1)
    else if divisor > dividend then some dividend
    else if divisor = dividend then some 0
    else (Division.loops fuel dividend divisor).map (·.remainder)
  | .aarch64 => some (dividend % divisor)

/-! ## The first loop -/

namespace Division

variable {a b : BitVec 32} {k : ℕ}

/-- The bit that goes into the remainder, as long as `a` has been shifted `k` times. -/
theorem shiftIn_eq {s : Division} (hs : s.dividend = a <<< k) (hk : k < 32) :
    s.shiftIn = s.remainder.shiftConcat (a.getLsbD (32 - k - 1)) := by
  have hmask : (0x80000000#32) = BitVec.twoPow 32 31 := by decide
  apply BitVec.eq_of_getLsbD_eq
  intro i hi
  rw [shiftIn, hs, BitVec.getLsbD_shiftConcat]
  by_cases h0 : i = 0
  · subst h0
    have hidx : 31 - k = 32 - k - 1 := by omega
    simp [hmask, show ¬ (31 < k) by omega, hidx, -BitVec.getLsbD_eq_getElem]
  · simp [hmask, BitVec.getLsbD_twoPow, hi, h0, -BitVec.getLsbD_eq_getElem]

/-- The locals at the `k`-th test of the first loop. -/
def leading (a : BitVec 32) (k : ℕ) : Division where
  dividend := a <<< k
  remainder := a >>> (32 - k)
  quotient := 0
  d := if k = 0 then 0 else a <<< (k - 1)
  numBits := BitVec.ofNat 32 (32 - k)
  i := 0

theorem leading_zero (a : BitVec 32) : leading a 0 = start a := by
  have h : a >>> (32 : ℕ) = 0#32 := BitVec.ushiftRight_eq_zero (Nat.le_refl 32)
  simp only [leading, start, Nat.sub_zero, h, BitVec.shiftLeft_zero]
  rfl

theorem normaliseBody_leading (hk : k < 32) (h : a >>> (32 - k) < b) :
    normaliseBody b (leading a k) = .inl (leading a (k + 1)) := by
  have hbits : BitVec.ofNat 32 (32 - k) - 1 = BitVec.ofNat 32 (32 - (k + 1)) := by
    apply BitVec.eq_of_toNat_eq
    simp only [BitVec.toNat_sub, BitVec.toNat_ofNat, BitVec.ofNat_eq_ofNat]
    omega
  have hin : (leading a k).shiftIn = a >>> (32 - (k + 1)) := by
    rw [shiftIn_eq (a := a) (k := k) rfl hk]
    exact (BitVec.shiftRight_sub_one_eq_shiftConcat a (by omega)).symm
  have hlt : (leading a k).remainder < b := h
  rw [normaliseBody, if_pos hlt, hin]
  simp only [leading, hbits, ← BitVec.shiftLeft_add, Nat.add_sub_cancel, Nat.succ_ne_zero,
    if_false]

/-- **The first loop stops** at the first prefix of the dividend that the divisor fits into. -/
theorem normalise_total (hb : b ≠ 0) (hab : b ≤ a) {fuel : ℕ} (hfuel : 33 ≤ fuel) :
    ∃ s, run (normaliseBody b) fuel (start a) = some s ∧
      ∃ k, 0 < k ∧ k ≤ 32 ∧ s = leading a k ∧ a >>> (33 - k) < b ∧ b ≤ a >>> (32 - k) := by
  have hout : ∀ k : ℕ, 32 ≤ k → a >>> k < b := by
    intro k hk
    rw [BitVec.ushiftRight_eq_zero hk]
    exact (BitVec.pos_iff_ne_zero b).2 hb
  refine run_total (I := fun s => ∃ k ≤ 32, s = leading a k ∧ a >>> (33 - k) < b)
    (fun s => s.numBits.toNat) ?_ ?_ ⟨0, by omega, (leading_zero a).symm, hout 33 (by decide)⟩
    (Nat.lt_of_lt_of_le (show (start a).numBits.toNat < 33 by simp [start]) hfuel)
  · rintro s s' ⟨k, hk, rfl, hlt⟩ h
    by_cases hrem : (leading a k).remainder < b
    · have hk' : k < 32 := by
        rcases Nat.lt_or_eq_of_le hk with h32 | rfl
        · exact h32
        · exact absurd hab (BitVec.not_le.2 (by simpa [leading] using hrem))
      rw [normaliseBody_leading hk' hrem] at h
      obtain rfl := Sum.inl.inj h
      refine ⟨⟨k + 1, hk', rfl, ?_⟩, ?_⟩
      · rwa [show 33 - (k + 1) = 32 - k by omega]
      · simp only [leading, BitVec.toNat_ofNat]
        omega
    · rw [normaliseBody, if_neg hrem] at h
      cases h
  · rintro s r ⟨k, hk, rfl, hlt⟩ h
    by_cases hrem : (leading a k).remainder < b
    · rw [normaliseBody, if_pos hrem] at h
      cases h
    · rw [normaliseBody, if_neg hrem] at h
      obtain rfl := Sum.inr.inj h
      refine ⟨k, Nat.pos_of_ne_zero ?_, hk, rfl, hlt, BitVec.not_lt.1 hrem⟩
      rintro rfl
      exact hrem (hout 32 (by decide))

/-! ## The second loop -/

/-- The state of restoring division that the locals stand for, with `m` bits left. -/
def divMod (s : Division) (m : ℕ) : BitVec.DivModState 32 := ⟨m, 32 - m, s.quotient, s.remainder⟩

/-- What the second loop keeps with `m` bits of the dividend left. -/
structure Dividing (a b : BitVec 32) (m : ℕ) (s : Division) : Prop where
  lawful : BitVec.DivModState.Lawful ⟨a, b⟩ (s.divMod m)
  dividend : s.dividend = a <<< (32 - m)
  rounds : s.numBits.toNat = s.i.toNat + m
  half : b.toNat < 2 ^ 31 ∨ m = 0 ∨ m = 1 ∧ b ≤ a

theorem signBit_eq_zero (t : BitVec 32) :
    (t &&& 0x80000000#32) >>> 31 = 0 ↔ t.toNat < 2 ^ 31 := by
  have hmask : (0x80000000#32) = BitVec.twoPow 32 31 := by decide
  have hmsb : t.getLsbD 31 = decide (2 ^ 31 ≤ t.toNat) := by
    rw [← BitVec.msb_eq_getLsbD_last, BitVec.msb_eq_decide]
  rw [hmask, BitVec.and_twoPow, hmsb, ← Nat.not_le]
  by_cases h : 2 ^ 31 ≤ t.toNat
  · simp only [h, decide_true, if_true, not_true, iff_false]
    decide
  · simp only [h, decide_false, Bool.false_eq_true, if_false, not_false_iff, iff_true]
    decide

variable {s : Division} {m : ℕ}

theorem Dividing.le (h : Dividing a b m s) : m ≤ 32 := by
  have hwrn : 32 - m + m = 32 := h.lawful.hwrn
  omega

/-- One more bit in the remainder loses none at the top. -/
theorem Dividing.toNat_shiftIn (h : Dividing a b (m + 1) s) :
    s.shiftIn.toNat = s.remainder.toNat * 2 + (a.getLsbD m).toNat := by
  have hm := h.le
  have hr : s.remainder.toNat < 2 ^ (32 - (m + 1)) := h.lawful.hrWidth
  rw [shiftIn_eq h.dividend (by omega), show 32 - (32 - (m + 1)) - 1 = m by omega]
  exact BitVec.toNat_shiftConcat_eq_of_lt (by omega) hr

/-- **The sign bit** of the wrapping difference is clear exactly if the divisor fits. -/
theorem Dividing.msb_shiftIn_sub (h : Dividing a b (m + 1) s) :
    (s.shiftIn - b).toNat < 2 ^ 31 ↔ b ≤ s.shiftIn := by
  have hx := h.toNat_shiftIn
  have hbit := (a.getLsbD m).toNat_lt
  have hwidth : s.remainder.toNat < 2 ^ (32 - (m + 1)) := h.lawful.hrWidth
  have hr : s.remainder.toNat < 2 ^ 31 :=
    Nat.lt_of_lt_of_le hwidth (Nat.pow_le_pow_right (by decide) (by omega))
  have hrb : s.remainder.toNat < b.toNat := h.lawful.hrLtDivisor
  rw [BitVec.toNat_sub, BitVec.le_def]
  rcases h.half with hb | hm | ⟨hm, hab⟩
  · omega
  · omega
  · -- The last bit of all: if the divisor is in the upper half the quotient is still `0`.
    obtain rfl : m = 0 := by omega
    have hdiv : a.toNat >>> 1 = b.toNat * s.quotient.toNat + s.remainder.toNat := h.lawful.hdiv
    have ha : a.toNat = (a.toNat >>> 1) * 2 + (a.getLsbD 0).toNat :=
      BitVec.DivModState.toNat_shiftRight_sub_one_eq ⟨h.lawful, Nat.zero_lt_one⟩
    have hle := BitVec.le_def.1 hab
    rcases Nat.eq_zero_or_pos s.quotient.toNat with hq | hq
    · rw [hq, Nat.mul_zero] at hdiv
      omega
    · have hmul := Nat.le_mul_of_pos_right b.toNat hq
      omega

theorem shiftConcat_eq (q : BitVec 32) (bit : Bool) :
    q.shiftConcat bit = q <<< 1 ||| if bit then 1#32 else 0#32 := by
  apply BitVec.eq_of_getLsbD_eq
  intro i hi
  rw [BitVec.getLsbD_shiftConcat, BitVec.getLsbD_or, BitVec.getLsbD_shiftLeft]
  by_cases h0 : i = 0
  · subst h0
    cases bit <;> rfl
  · cases bit <;> simp [h0, hi]

/-- One round is one step of restoring division. -/
theorem Dividing.divMod_quotientBit (h : Dividing a b (m + 1) s) :
    (quotientBit b s).divMod m = BitVec.divSubtractShift ⟨a, b⟩ (s.divMod (m + 1)) := by
  have hm := h.le
  have hwr : 32 - (m + 1) + 1 = 32 - m := by omega
  have hin : s.remainder.shiftConcat (a.getLsbD m) = s.shiftIn := by
    rw [shiftIn_eq h.dividend (by omega), show 32 - (32 - (m + 1)) - 1 = m by omega]
  have hsign := (signBit_eq_zero (s.shiftIn - b)).trans h.msb_shiftIn_sub
  simp only [quotientBit, BitVec.divSubtractShift, divMod, Nat.add_sub_cancel, hin, hsign, hwr,
    shiftConcat_eq]
  by_cases hle : b ≤ s.shiftIn
  · simp [hle, BitVec.not_lt.2 hle]
  · simp [hle, BitVec.not_le.1 hle]

theorem Dividing.step (h : Dividing a b (m + 1) s) :
    ∃ s', quotientBody b s = .inl s' ∧ Dividing a b m s' := by
  have hm := h.le
  have hrounds := h.rounds
  have hbits := s.numBits.isLt
  have hi : s.i < s.numBits := by
    rw [BitVec.lt_def]
    omega
  refine ⟨_, if_pos hi, ?_, ?_, ?_, ?_⟩
  · have hlawful := BitVec.lawful_divSubtractShift (s.divMod (m + 1)) ⟨h.lawful, m.succ_pos⟩
    rwa [← h.divMod_quotientBit] at hlawful
  · show s.dividend <<< 1 = a <<< (32 - m)
    rw [h.dividend, ← BitVec.shiftLeft_add, show 32 - (m + 1) + 1 = 32 - m by omega]
  · show s.numBits.toNat = (s.i + 1).toNat + m
    rw [BitVec.toNat_add_of_lt] <;> simp <;> omega
  · rcases h.half with hb | hm' | ⟨hm', -⟩
    · exact .inl hb
    · cases hm'
    · exact .inr (.inl (Nat.succ.inj hm'))

theorem Dividing.done (h : Dividing a b 0 s) :
    quotientBody b s = .inr s ∧ s.quotient = a / b ∧ s.remainder = a % b := by
  have hi : ¬ s.i < s.numBits := by
    rw [BitVec.lt_def, h.rounds]
    omega
  exact ⟨if_neg hi, (BitVec.DivModState.udiv_eq_of_lawful h.lawful rfl).symm,
    (BitVec.DivModState.umod_eq_of_lawful h.lawful rfl).symm⟩

/-- **The second loop** stops after `m` rounds with the quotient and the remainder. -/
theorem Dividing.run {fuel : ℕ} (h : Dividing a b m s) (hfuel : m < fuel) :
    ∃ s', run (quotientBody b) fuel s = some s' ∧ s'.quotient = a / b ∧ s'.remainder = a % b := by
  induction m generalizing s fuel with
  | zero =>
    obtain ⟨hdone, hq, hr⟩ := h.done
    exact ⟨s, run_first hfuel hdone, hq, hr⟩
  | succ m ih =>
    cases fuel with
    | zero => cases hfuel
    | succ fuel =>
      obtain ⟨s₁, hs₁, h₁⟩ := h.step
      rw [run_of_inl hs₁]
      exact ih h₁ (Nat.lt_of_succ_lt_succ hfuel)

/-- Between the loops: the divisor fits into the prefix that was taken back, not into this one. -/
theorem dividing_stepBack (hk : 0 < k) (hk' : k ≤ 32) (hlt : a >>> (33 - k) < b)
    (hle : b ≤ a >>> (32 - k)) : Dividing a b (33 - k) (leading a k).stepBack where
  lawful := by
    have hpos : 0#32 < b := by
      rw [BitVec.lt_def] at hlt ⊢
      exact Nat.lt_of_le_of_lt (Nat.zero_le _) hlt
    have hrem : (leading a k).stepBack.remainder = a >>> (33 - k) := by
      simp only [stepBack, leading, ← BitVec.shiftRight_add]
      congr 1
      omega
    have hwidth : (a >>> (33 - k)).toNat < 2 ^ (32 - (33 - k)) :=
      BitVec.toNat_ushiftRight_lt a (33 - k) (by omega)
    refine ⟨?_, hpos, ?_, ?_, ?_, ?_⟩
    · show 32 - (33 - k) + (33 - k) = 32
      omega
    · rwa [divMod, hrem]
    · rwa [divMod, hrem]
    · exact Nat.two_pow_pos _
    · rw [divMod, hrem, BitVec.toNat_ushiftRight]
      exact (Nat.zero_add _).symm
  dividend := by
    rw [stepBack, leading, if_neg (Nat.pos_iff_ne_zero.1 hk)]
    simp only
    congr 1
    omega
  rounds := by
    simp only [stepBack, leading, BitVec.toNat_add, BitVec.toNat_ofNat, BitVec.ofNat_eq_ofNat]
    omega
  half := by
    rcases Nat.lt_or_ge k 32 with h32 | h32
    · have hwidth := BitVec.toNat_ushiftRight_lt a (32 - k) (by omega)
      have hpow : 2 ^ (32 - (32 - k)) ≤ 2 ^ 31 := Nat.pow_le_pow_right (by decide) (by omega)
      exact .inl (Nat.lt_of_le_of_lt hle (Nat.lt_of_lt_of_le hwidth hpow))
    · obtain rfl : k = 32 := by omega
      exact .inr (.inr ⟨rfl, by simpa using hle⟩)

theorem loops_eq (hb : b ≠ 0) (hab : b ≤ a) {fuel : ℕ} (hfuel : 33 ≤ fuel) :
    ∃ s, loops fuel a b = some s ∧ s.quotient = a / b ∧ s.remainder = a % b := by
  obtain ⟨s, hs, k, hk, hk', rfl, hlt, hle⟩ := normalise_total hb hab hfuel
  rw [loops, hs]
  exact (dividing_stepBack hk hk' hlt hle).run (by omega)

end Division

/-! ## The two functions -/

variable {a b : BitVec 32} {fuel : ℕ}

theorem getquotient_eq (mode : OpMode) (hb : b ≠ 0) (hfuel : 33 ≤ fuel) :
    getquotient mode fuel a b = some (a / b) := by
  cases mode with
  | aarch64 => rfl
  | aarch32 =>
    rw [getquotient, if_neg hb]
    by_cases hlt : b > a
    · rw [if_pos hlt, BitVec.udiv_eq_zero_iff_eq_zero_or_lt.2 (.inr hlt)]
      rfl
    · by_cases heq : b = a
      · subst heq
        rw [if_neg hlt, if_pos rfl, BitVec.udiv_self, if_neg (by simpa using hb)]
        rfl
      · obtain ⟨s, hs, hq, -⟩ := Division.loops_eq hb (BitVec.not_lt.1 hlt) hfuel
        rw [if_neg hlt, if_neg heq, hs, ← hq]
        rfl

theorem getremainder_eq (mode : OpMode) (hb : b ≠ 0) (hfuel : 33 ≤ fuel) :
    getremainder mode fuel a b = some (a % b) := by
  cases mode with
  | aarch64 => rfl
  | aarch32 =>
    rw [getremainder, if_neg hb]
    by_cases hlt : b > a
    · rw [if_pos hlt, BitVec.umod_eq_of_lt hlt]
    · by_cases heq : b = a
      · subst heq
        rw [if_neg hlt, if_pos rfl, BitVec.umod_self]
        rfl
      · obtain ⟨s, hs, -, hr⟩ := Division.loops_eq hb (BitVec.not_lt.1 hlt) hfuel
        rw [if_neg hlt, if_neg heq, hs, ← hr]
        rfl

/-- What is returned does not depend on the fuel. -/
theorem Division.loops_unique {s s' : Division} {fuel' : ℕ} (h : loops fuel a b = some s)
    (h' : loops fuel' a b = some s') : s = s' := by
  obtain ⟨n, hn, hs⟩ := Option.bind_eq_some_iff.1 h
  obtain ⟨n', hn', hs'⟩ := Option.bind_eq_some_iff.1 h'
  obtain rfl := run_unique hn hn'
  exact run_unique hs hs'

/-- With less fuel, `getquotient` gives the quotient if it gives anything. -/
theorem getquotient_of_eq_some {mode : OpMode} {q : BitVec 32} (hb : b ≠ 0)
    (h : getquotient mode fuel a b = some q) : q = a / b := by
  have heq := getquotient_eq (a := a) mode hb (Nat.le_refl 33)
  cases mode with
  | aarch64 => exact (Option.some.inj h).symm
  | aarch32 =>
    rw [getquotient, if_neg hb] at h heq
    split_ifs at h heq
    · exact Option.some.inj (h.symm.trans heq)
    · exact Option.some.inj (h.symm.trans heq)
    · obtain ⟨s, hs, hq⟩ := Option.map_eq_some_iff.1 h
      obtain ⟨s', hs', hq'⟩ := Option.map_eq_some_iff.1 heq
      rw [← hq, ← hq', Division.loops_unique hs hs']

/-! ## In a record

The clock code is written with the operations that it leaves in a list. -/

abbrev ArithOp := ExactArith.Op 32

/-- A call of `getquotient`. -/
def quotient (mode : OpMode) (fuel : ℕ) (dividend divisor : BitVec 32) (ops : List ArithOp) :
    Option (BitVec 32 × List ArithOp) :=
  (getquotient mode fuel dividend divisor).map fun q => (q, ops ++ [.div dividend divisor])

theorem quotient_eq (mode : OpMode) (hb : b ≠ 0) (hfuel : 33 ≤ fuel) (ops : List ArithOp) :
    quotient mode fuel a b ops = some (a / b, ops ++ [.div a b]) := by
  rw [quotient, getquotient_eq mode hb hfuel]
  rfl

/-! ## Both builds -/

/-- **Software division.** Both aarch32 functions return within 33 tests of each loop, and what
they return is what the aarch64 build computes. -/
theorem software_division (a b : BitVec 32) (hb : b ≠ 0) :
    ∃ q r : BitVec 32, a.toNat = q.toNat * b.toNat + r.toNat ∧ r < b ∧
      ∀ mode fuel, 33 ≤ fuel →
        getquotient mode fuel a b = some q ∧ getremainder mode fuel a b = some r := by
  refine ⟨a / b, a % b, ?_, ?_, fun mode fuel hfuel =>
    ⟨getquotient_eq mode hb hfuel, getremainder_eq mode hb hfuel⟩⟩
  · rw [BitVec.toNat_udiv, BitVec.toNat_umod, Nat.div_add_mod']
  · exact BitVec.umod_lt a ((BitVec.pos_iff_ne_zero b).2 hb)

/-- A divisor with its top bit set, and a dividend above it. -/
theorem software_division_top_bit : (0x80000001#32 ≠ 0) ∧
    ∃ q r : BitVec 32, (0xFFFFFFFF#32).toNat = q.toNat * (0x80000001#32).toNat + r.toNat ∧
      r < 0x80000001#32 ∧ ∀ mode fuel, 33 ≤ fuel →
        getquotient mode fuel 0xFFFFFFFF 0x80000001 = some q ∧
          getremainder mode fuel 0xFFFFFFFF 0x80000001 = some r :=
  ⟨by decide, software_division 0xFFFFFFFF 0x80000001 (by decide)⟩

end Gec6818Bl1
