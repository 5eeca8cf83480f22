import Mathlib.Data.Fin.VecNotation
import Mathlib.Data.BitVec
import Mathlib.Data.List.Iterate
import Mathlib.Logic.Function.Iterate

/-!
# AES

The Advanced Encryption Standard: its field, the four transformations of a state and their
inverses, and the three ciphers put together from them. The ciphers are over any number of rounds
and any round keys; the key schedule is that of a 128-bit key.

* **The inverse cipher inverts the cipher** (`invCipher_cipher`), step by step.
* **The equivalent inverse cipher** runs its steps in the order of the cipher, on transformed round
  keys. It is the inverse cipher (`eqInvCipher_decKeys`): the substitution of bytes commutes with
  the shift of rows, and the mixing of columns is linear.
-/

namespace Aes

/-! ## The field -/

/-- Bytes as polynomials over two elements, modulo `X⁸ + X⁴ + X³ + X + 1`. The sum is `^^^`. -/
abbrev GF := BitVec 8

/-- The product with `X`. -/
def xtime (x : GF) : GF := x <<< 1 ^^^ if x.msb then 0x1B else 0

theorem xtime_xor (x y : GF) : xtime (x ^^^ y) = xtime x ^^^ xtime y := by
  simp only [xtime, BitVec.msb_xor, BitVec.shiftLeft_xor_distrib]
  generalize x <<< 1 = a, y <<< 1 = b
  have hcancel (c : GF) : a ^^^ c ^^^ (b ^^^ c) = a ^^^ b := by
    rw [BitVec.xor_assoc, ← BitVec.xor_assoc c, BitVec.xor_comm c b, BitVec.xor_assoc b,
      BitVec.xor_self, BitVec.xor_zero]
  cases x.msb <;> cases y.msb <;> simp [hcancel] <;> ac_rfl

@[simp] theorem xtime_zero : xtime 0 = 0 := by decide

/-- The coefficients of `x` from the lowest one up, after Horner. -/
def mul (x y : GF) : GF :=
  (List.range 8).foldr (fun i acc => (if x.getLsbD i then y else 0) ^^^ xtime acc) 0

theorem mul_hom {f : GF → GF} (hxor : ∀ y z, f (y ^^^ z) = f y ^^^ f z)
    (hxtime : ∀ y, f (xtime y) = xtime (f y)) (x y : GF) : f (mul x y) = mul x (f y) := by
  have hzero : f 0 = 0 := by
    have h := hxor 0 0
    rwa [BitVec.xor_self, BitVec.xor_self] at h
  unfold mul
  induction List.range 8 with
  | nil => exact hzero
  | cons i is ih =>
    simp only [List.foldr_cons, hxor, hxtime, ih]
    split <;> simp only [hzero]

theorem mul_xor (x y z : GF) : mul x (y ^^^ z) = mul x y ^^^ mul x z := by
  unfold mul
  induction List.range 8 with
  | nil => simp
  | cons i is ih =>
    simp only [List.foldr_cons, ih, xtime_xor]
    cases x.getLsbD i with
    | false => simp
    | true =>
      simp only [if_true]
      ac_rfl

theorem xor_mul (x y z : GF) : mul (x ^^^ y) z = mul x z ^^^ mul y z := by
  unfold mul
  induction List.range 8 with
  | nil => simp
  | cons i is ih =>
    have hbit : (if (x ^^^ y).getLsbD i then z else 0) =
        (if x.getLsbD i then z else 0) ^^^ if y.getLsbD i then z else 0 := by
      rw [BitVec.getLsbD_xor]
      cases x.getLsbD i <;> cases y.getLsbD i <;> simp
    simp only [List.foldr_cons, ih, xtime_xor, hbit]
    ac_rfl

theorem mul_xtime (x y : GF) : mul x (xtime y) = xtime (mul x y) :=
  (mul_hom xtime_xor (fun _ => rfl) x y).symm

theorem mul_left_comm (x y z : GF) : mul x (mul y z) = mul y (mul x z) :=
  mul_hom (mul_xor x) (mul_xtime x) y z

theorem mul_one (x : GF) : mul x 1 = x := by
  revert x
  decide +kernel

theorem mul_comm (x y : GF) : mul x y = mul y x := by
  calc mul x y = mul x (mul y 1) := by rw [mul_one]
    _ = mul y (mul x 1) := mul_left_comm x y 1
    _ = mul y x := by rw [mul_one]

theorem one_mul (x : GF) : mul 1 x = x := by rw [mul_comm, mul_one]

theorem mul_assoc (x y z : GF) : mul (mul x y) z = mul x (mul y z) := by
  rw [mul_comm, mul_left_comm, mul_comm z]

@[simp] theorem mul_zero (x : GF) : mul x 0 = 0 := by
  have h := mul_xor x 0 0
  rwa [BitVec.xor_self, BitVec.xor_self] at h

@[simp] theorem zero_mul (x : GF) : mul 0 x = 0 := by rw [mul_comm, mul_zero]

theorem xtime_eq_mul (x : GF) : xtime x = mul 2 x := by
  rw [mul_comm, show (2 : GF) = xtime 1 by decide, mul_xtime, mul_one]

/-- `x` to the power of `n`. -/
def pow (x : GF) (n : ℕ) : GF := (mul x)^[n] 1

theorem pow_succ (x : GF) (n : ℕ) : pow x (n + 1) = mul x (pow x n) :=
  Function.iterate_succ_apply' ..

theorem pow_add (x : GF) (m n : ℕ) : pow x (m + n) = mul (pow x m) (pow x n) := by
  induction m with
  | zero => rw [Nat.zero_add, show pow x 0 = 1 from rfl, one_mul]
  | succ m ih => rw [Nat.succ_add, pow_succ, ih, pow_succ, mul_assoc]

theorem pow_mul (x : GF) (m n : ℕ) : pow x (m * n) = pow (pow x m) n := by
  induction n with
  | zero => rfl
  | succ n ih => rw [Nat.mul_succ, Nat.add_comm, pow_add, ih, pow_succ]

theorem one_pow (n : ℕ) : pow 1 n = 1 := by
  induction n with
  | zero => rfl
  | succ n ih => rw [pow_succ, ih, one_mul]

/-- A set of numbers as the bits of one number. -/
theorem testBit_foldl_or (ns : List ℕ) (acc n : ℕ) :
    (ns.foldl (fun acc k => acc ||| 2 ^ k) acc).testBit n = true ↔
      acc.testBit n = true ∨ n ∈ ns := by
  induction ns generalizing acc with
  | nil => simp
  | cons k ns ih =>
    rw [List.foldl_cons, ih, Nat.testBit_or, Nat.testBit_two_pow, Bool.or_eq_true,
      decide_eq_true_iff, List.mem_cons, or_assoc, eq_comm (a := k)]

/-- The powers of `X + 1`, one after another. -/
theorem powers_three : ((List.iterate (fun y => y ^^^ xtime y) 1 255).map BitVec.toNat).foldl
    (fun acc k => acc ||| 2 ^ k) 0 = 2 ^ 256 - 2 ∧ pow 3 255 = 1 := by
  decide +kernel

/-- They are all the elements but `0`. -/
theorem exists_pow {x : GF} (hx : x ≠ 0) : ∃ i < 255, pow 3 i = x := by
  have hall (n : ℕ) (hn : n < 256) (h0 : n ≠ 0) : (2 ^ 256 - 2).testBit n = true := by
    rw [show 2 ^ 256 - 2 = 2 ^ 256 - (1 + 1) from rfl,
      Nat.testBit_two_pow_sub_succ (Nat.one_lt_two_pow (by decide))]
    have hone : Nat.testBit 1 n = false :=
      Bool.eq_false_iff.2 fun h => h0 (Nat.testBit_one_eq_true_iff_self_eq_zero.1 h)
    simp [hn, hone]
  have hthree (y : GF) : y ^^^ xtime y = mul 3 y := by
    rw [xtime_eq_mul, show (3 : GF) = 1 ^^^ 2 from rfl, xor_mul, one_mul]
  have hbit := hall x.toNat x.isLt fun h => hx (BitVec.eq_of_toNat_eq h)
  rw [← powers_three.1, testBit_foldl_or, Nat.zero_testBit] at hbit
  have hmem := hbit.resolve_left Bool.false_ne_true
  simp only [hthree, List.mem_map, List.mem_iterate] at hmem
  obtain ⟨_, ⟨i, hi, rfl⟩, heq⟩ := hmem
  exact ⟨i, hi, BitVec.eq_of_toNat_eq heq⟩

/-- The inverse of an element, and `0` for `0`: the others are a group of order 255. -/
def inv (x : GF) : GF := pow x 254

theorem pow_order {x : GF} (hx : x ≠ 0) : pow x 255 = 1 := by
  obtain ⟨i, -, rfl⟩ := exists_pow hx
  rw [← pow_mul, Nat.mul_comm, pow_mul, powers_three.2, one_pow]

theorem mul_inv {x : GF} (hx : x ≠ 0) : mul x (inv x) = 1 := by
  rw [inv, ← pow_succ, pow_order hx]

@[simp] theorem inv_zero : inv 0 = 0 := by
  rw [inv, pow_succ, zero_mul]

theorem inv_inv (x : GF) : inv (inv x) = x := by
  by_cases hx : x = 0
  · rw [hx, inv_zero, inv_zero]
  · calc inv (inv x) = pow x (255 * 253 + 1) := (pow_mul x 254 254).symm
      _ = mul (pow (pow x 255) 253) (pow x 1) := by rw [pow_add, pow_mul]
      _ = x := by rw [pow_order hx, one_pow, one_mul, pow_succ, show pow x 0 = 1 from rfl, mul_one]

/-! ## Transformations of a state -/

/-- The affine transformation over the bits. -/
def affine (x : GF) : GF :=
  x ^^^ x.rotateLeft 1 ^^^ x.rotateLeft 2 ^^^ x.rotateLeft 3 ^^^ x.rotateLeft 4 ^^^ 0x63

def invAffine (x : GF) : GF :=
  x.rotateLeft 1 ^^^ x.rotateLeft 3 ^^^ x.rotateLeft 6 ^^^ 0x05

def sbox (x : GF) : GF := affine (inv x)

def invSbox (x : GF) : GF := inv (invAffine x)

theorem affine_inverses (x : GF) : invAffine (affine x) = x ∧ affine (invAffine x) = x := by
  revert x
  decide +kernel

theorem invAffine_affine (x : GF) : invAffine (affine x) = x := (affine_inverses x).1

theorem invSbox_sbox (x : GF) : invSbox (sbox x) = x := by
  rw [invSbox, sbox, invAffine_affine, inv_inv]

theorem affine_invAffine (x : GF) : affine (invAffine x) = x := (affine_inverses x).2

theorem sbox_invSbox (x : GF) : sbox (invSbox x) = x := by
  rw [sbox, invSbox, inv_inv, affine_invAffine]

/-- A column of a state, from the top. -/
abbrev Column := Fin 4 → GF

/-- Sixteen bytes, column by column. -/
abbrev State := Fin 4 → Column

/-- A function of the four entries, in order. -/
def ofEntries {α β : Type*} (f : α → α → α → α → β) (v : Fin 4 → α) : β :=
  f (v 0) (v 1) (v 2) (v 3)

def addRoundKey (k s : State) : State := fun c r => s c r ^^^ k c r

def subBytes (s : State) : State := fun c r => sbox (s c r)

def invSubBytes (s : State) : State := fun c r => invSbox (s c r)

/-- Row `r` to the left by `r`. -/
def shiftRows (s : State) : State := fun c r => s (c + r) r

def invShiftRows (s : State) : State := fun c r => s (c - r) r

/-- The product of a column and the circulant matrix with the first row `k`. -/
def circulant (k col : Column) : Column := fun r =>
  mul (k 0) (col r) ^^^ mul (k 1) (col (r + 1)) ^^^ mul (k 2) (col (r + 2)) ^^^
    mul (k 3) (col (r + 3))

def mixColumn : Column → Column := circulant ![2, 3, 1, 1]

def invMixColumn : Column → Column := circulant ![0xE, 0xB, 0xD, 0x9]

def mixColumns (s : State) : State := fun c => mixColumn (s c)

def invMixColumns (s : State) : State := fun c => invMixColumn (s c)

@[simp] theorem addRoundKey_addRoundKey (k s : State) : addRoundKey k (addRoundKey k s) = s := by
  funext c r
  rw [addRoundKey, addRoundKey, BitVec.xor_assoc, BitVec.xor_self, BitVec.xor_zero]

@[simp] theorem invSubBytes_subBytes (s : State) : invSubBytes (subBytes s) = s := by
  funext c r
  exact invSbox_sbox (s c r)

@[simp] theorem invShiftRows_shiftRows (s : State) : invShiftRows (shiftRows s) = s := by
  funext c r
  simp [invShiftRows, shiftRows]

theorem invSubBytes_invShiftRows (s : State) :
    invSubBytes (invShiftRows s) = invShiftRows (invSubBytes s) := rfl

theorem circulant_xor (k a b : Column) :
    circulant k (fun r => a r ^^^ b r) = fun r => circulant k a r ^^^ circulant k b r := by
  funext r
  simp only [circulant, mul_xor]
  ac_rfl

theorem invMixColumns_addRoundKey (k s : State) :
    invMixColumns (addRoundKey k s) = addRoundKey (invMixColumns k) (invMixColumns s) := by
  funext c
  exact circulant_xor _ (s c) (k c)

/-- The product of two circulant matrices is one. -/
theorem circulant_circulant (k l col : Column) :
    circulant k (circulant l col) = circulant (fun i =>
      mul (k 0) (l i) ^^^ mul (k 1) (l (i + 3)) ^^^ mul (k 2) (l (i + 2)) ^^^
        mul (k 3) (l (i + 1))) col := by
  have hwrap (r : Fin 4) : r + 1 + 1 = r + 2 ∧ r + 1 + 2 = r + 3 ∧ r + 1 + 3 = r ∧
      r + 2 + 1 = r + 3 ∧ r + 2 + 2 = r ∧ r + 2 + 3 = r + 1 ∧
      r + 3 + 1 = r ∧ r + 3 + 2 = r + 1 ∧ r + 3 + 3 = r + 2 := by
    revert r
    decide
  have hindex : (0 : Fin 4) + 3 = 3 ∧ (0 : Fin 4) + 2 = 2 ∧ (0 : Fin 4) + 1 = 1 ∧
      (1 : Fin 4) + 3 = 0 ∧ (1 : Fin 4) + 2 = 3 ∧ (1 : Fin 4) + 1 = 2 ∧
      (2 : Fin 4) + 3 = 1 ∧ (2 : Fin 4) + 2 = 0 ∧ (2 : Fin 4) + 1 = 3 ∧
      (3 : Fin 4) + 3 = 2 ∧ (3 : Fin 4) + 2 = 1 ∧ (3 : Fin 4) + 1 = 0 := by
    decide
  funext r
  simp only [circulant, hwrap, hindex, mul_xor, xor_mul, mul_assoc]
  ac_rfl

@[simp] theorem invMixColumn_mixColumn (col : Column) : invMixColumn (mixColumn col) = col := by
  rw [invMixColumn, mixColumn, circulant_circulant]
  have hone : (fun i : Fin 4 => mul (![0xE, 0xB, 0xD, 0x9] 0) (![2, 3, 1, 1] i) ^^^
      mul (![0xE, 0xB, 0xD, 0x9] 1) (![2, 3, 1, 1] (i + 3)) ^^^
      mul (![0xE, 0xB, 0xD, 0x9] 2) (![2, 3, 1, 1] (i + 2)) ^^^
      mul (![0xE, 0xB, 0xD, 0x9] 3) (![2, 3, 1, 1] (i + 1))) = (![1, 0, 0, 0] : Column) := by
    decide +kernel
  rw [hone]
  funext r
  calc circulant ![1, 0, 0, 0] col r =
        mul 1 (col r) ^^^ mul 0 (col (r + 1)) ^^^ mul 0 (col (r + 2)) ^^^ mul 0 (col (r + 3)) := rfl
    _ = col r := by
      rw [one_mul, zero_mul, zero_mul, zero_mul]
      simp

@[simp] theorem invMixColumns_mixColumns (s : State) : invMixColumns (mixColumns s) = s := by
  funext c
  exact invMixColumn_mixColumn (s c)

/-- The mixed column as a sum over the bytes of the column. -/
theorem circulant_eq (k col : Column) (r : Fin 4) :
    circulant k col r = mul (k (0 - r)) (col 0) ^^^ mul (k (1 - r)) (col 1) ^^^
      mul (k (2 - r)) (col 2) ^^^ mul (k (3 - r)) (col 3) := by
  match r with
  | 0 => rfl
  | 1 =>
    change mul (k 0) (col 1) ^^^ mul (k 1) (col 2) ^^^ mul (k 2) (col 3) ^^^ mul (k 3) (col 0) =
      mul (k 3) (col 0) ^^^ mul (k 0) (col 1) ^^^ mul (k 1) (col 2) ^^^ mul (k 2) (col 3)
    ac_rfl
  | 2 =>
    change mul (k 0) (col 2) ^^^ mul (k 1) (col 3) ^^^ mul (k 2) (col 0) ^^^ mul (k 3) (col 1) =
      mul (k 2) (col 0) ^^^ mul (k 3) (col 1) ^^^ mul (k 0) (col 2) ^^^ mul (k 1) (col 3)
    ac_rfl
  | 3 =>
    change mul (k 0) (col 3) ^^^ mul (k 1) (col 0) ^^^ mul (k 2) (col 1) ^^^ mul (k 3) (col 2) =
      mul (k 1) (col 0) ^^^ mul (k 2) (col 1) ^^^ mul (k 3) (col 2) ^^^ mul (k 0) (col 3)
    ac_rfl

/-! ## The ciphers -/

/-- The first `n` rounds after the initial round key. -/
def rounds (w : ℕ → State) : ℕ → State → State
  | 0, s => addRoundKey (w 0) s
  | n + 1, s => addRoundKey (w (n + 1)) (mixColumns (shiftRows (subBytes (rounds w n s))))

/-- The cipher with `n + 1` rounds: the last one does not mix the columns. -/
def cipher (w : ℕ → State) (n : ℕ) (s : State) : State :=
  addRoundKey (w (n + 1)) (shiftRows (subBytes (rounds w n s)))

/-- The inverse rounds from round `n` down, once its round key is off. -/
def invRounds (w : ℕ → State) : ℕ → State → State
  | 0, s => addRoundKey (w 0) (invSubBytes (invShiftRows s))
  | n + 1, s => invRounds w n
      (invMixColumns (addRoundKey (w (n + 1)) (invSubBytes (invShiftRows s))))

def invCipher (w : ℕ → State) (n : ℕ) (s : State) : State :=
  invRounds w n (addRoundKey (w (n + 1)) s)

theorem invRounds_rounds (w : ℕ → State) (n : ℕ) (s : State) :
    invRounds w n (shiftRows (subBytes (rounds w n s))) = s := by
  induction n with
  | zero => simp only [invRounds, rounds, invShiftRows_shiftRows, invSubBytes_subBytes,
      addRoundKey_addRoundKey]
  | succ n ih =>
    rw [invRounds, invShiftRows_shiftRows, invSubBytes_subBytes, rounds, addRoundKey_addRoundKey,
      invMixColumns_mixColumns, ih]

/-- **Decryption inverts encryption**, whatever the round keys are. -/
theorem invCipher_cipher (w : ℕ → State) (n : ℕ) (s : State) :
    invCipher w n (cipher w n s) = s := by
  rw [invCipher, cipher, addRoundKey_addRoundKey, invRounds_rounds]

/-- The rounds of the equivalent inverse cipher, on round keys in the order of their use. -/
def eqInvRounds (k : ℕ → State) : ℕ → State → State
  | 0, s => addRoundKey (k 0) s
  | n + 1, s => addRoundKey (k (n + 1))
      (invMixColumns (invShiftRows (invSubBytes (eqInvRounds k n s))))

def eqInvCipher (k : ℕ → State) (n : ℕ) (s : State) : State :=
  addRoundKey (k (n + 1)) (invShiftRows (invSubBytes (eqInvRounds k n s)))

/-- The round keys of the equivalent inverse cipher: those between the first and the last have
their columns mixed. -/
def decKeys (w : ℕ → State) (n i : ℕ) : State :=
  if i = 0 ∨ i = n + 1 then w (n + 1 - i) else invMixColumns (w (n + 1 - i))

theorem decKeys_first (w : ℕ → State) (n : ℕ) : decKeys w n 0 = w (n + 1) := if_pos (.inl rfl)

theorem decKeys_last (w : ℕ → State) (n : ℕ) : decKeys w n (n + 1) = w 0 := by
  rw [decKeys, if_pos (.inr rfl), Nat.sub_self]

theorem decKeys_between (w : ℕ → State) {n i : ℕ} (hpos : 0 < i) (hi : i ≤ n) :
    decKeys w n i = invMixColumns (w (n + 1 - i)) := if_neg (by omega)

/-- After `m` rounds of the equivalent inverse cipher, the inverse cipher has `n - m` to go. -/
theorem invRounds_eqInvRounds (w : ℕ → State) {m n : ℕ} (hm : m ≤ n) (s : State) :
    invRounds w (n - m) (eqInvRounds (decKeys w n) m s) = invCipher w n s := by
  induction m with
  | zero => rw [eqInvRounds, decKeys_first, invCipher, Nat.sub_zero]
  | succ m ih =>
    obtain ⟨j, rfl⟩ : ∃ j, n = m + 1 + j := ⟨n - (m + 1), by omega⟩
    rw [← ih (by omega), show m + 1 + j - m = j + 1 by omega, show m + 1 + j - (m + 1) = j by omega,
      invRounds, invMixColumns_addRoundKey, invSubBytes_invShiftRows, eqInvRounds,
      decKeys_between w (Nat.succ_pos m) (by omega), show m + 1 + j + 1 - (m + 1) = j + 1 by omega]

/-- **The equivalent inverse cipher** is the inverse cipher. -/
theorem eqInvCipher_decKeys (w : ℕ → State) (n : ℕ) (s : State) :
    eqInvCipher (decKeys w n) n s = invCipher w n s := by
  rw [← invRounds_eqInvRounds w (Nat.le_refl n) s, Nat.sub_self, invRounds, eqInvCipher,
    decKeys_last, invSubBytes_invShiftRows]

/-! ## The key schedule -/

/-- `X` to the power of `n`. -/
def rcon (n : ℕ) : GF := pow 2 n

/-- The round key after `k`, the `n`-th one. -/
def nextRoundKey (n : ℕ) (k : State) : State :=
  let k0 : Column := fun r => k 0 r ^^^ sbox (k 3 (r + 1)) ^^^ if r = 0 then rcon n else 0
  let k1 : Column := fun r => k 1 r ^^^ k0 r
  let k2 : Column := fun r => k 2 r ^^^ k1 r
  ![k0, k1, k2, fun r => k 3 r ^^^ k2 r]

/-- The round keys of a key of 128 bits. -/
def expandKey (key : State) : ℕ → State
  | 0 => key
  | n + 1 => nextRoundKey n (expandKey key n)

/-- AES with a key of 128 bits. -/
def encrypt (key : State) : State → State := cipher (expandKey key) 9

def decrypt (key : State) : State → State := invCipher (expandKey key) 9

theorem decrypt_encrypt (key s : State) : decrypt key (encrypt key s) = s :=
  invCipher_cipher ..

/-- The state of sixteen bytes. -/
def State.ofBytes (bs : List GF) : State := fun c r => bs.getD (4 * c + r) 0

def State.bytes (s : State) : List GF := (List.ofFn fun c => List.ofFn (s c)).flatten

@[simp] theorem State.ofBytes_bytes (s : State) : State.ofBytes s.bytes = s := by
  funext c r
  match c with
  | 0 | 1 | 2 | 3 =>
    match r with
    | 0 | 1 | 2 | 3 => rfl

theorem State.length_bytes (s : State) : s.bytes.length = 16 := rfl

end Aes
