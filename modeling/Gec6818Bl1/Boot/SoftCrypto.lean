import Gec6818Bl1.Boot.Decrypt
import Gec6818Bl1.Lib.Aes
import Gec6818Bl1.Lib.ForLoop
import Mathlib.Tactic.IntervalCases

/-!
# Decryption without the engine

`CRYPTO.c` has a second `Decrypt`, for builds without the AES engine. It generates the tables of the
cipher when it is first called, expands the key, and takes a block through ten rounds of table
look-ups.

* **Tables.** The logarithms give the product and the inverse in the field, these give the S-boxes
  and the reverse tables, and a reverse table is what one byte adds to a mixed column
  (`aesGenTables_ok`). `Ready` says so of the global variables between calls.
* **Blocks.** The round keys are those of the equivalent inverse cipher (`decKeys_ok`), and its
  rounds are the look-ups (`aesDecrypt_eq`). So `aes_decrypt` takes back what the cipher makes of a
  block with the key that was set last (`aesDecrypt_encrypt`).
* **Memory.** `Decrypt` in place leaves the plain text (`decrypt_in_place`). It is not quite the
  `Decrypt` with the engine (`decrypt_agrees_iff`).
-/

namespace Gec6818Bl1.SoftCrypto

open ByteMem Loops
open Aes (GF State Column)

/-! ## Words -/

/-- `ROTR8`. -/
def rotr8 (x : BitVec 32) : BitVec 32 := (x <<< 24 &&& 0xFFFFFFFF) ||| (x &&& 0xFFFFFFFF) >>> 8

/-- `XTIME`, as it is stored in a byte. -/
def xtime (x : Byte) : Byte := x <<< 1 ^^^ if x &&& 0x80 ≠ 0 then 0x1B else 0

/-- `GET_UINT32`. -/
def getUint32 (b : List Byte) (i : ℕ) : BitVec 32 :=
  (b.getD i 0).setWidth 32 <<< 24 ||| (b.getD (i + 1) 0).setWidth 32 <<< 16 |||
    (b.getD (i + 2) 0).setWidth 32 <<< 8 ||| (b.getD (i + 3) 0).setWidth 32

/-- The bytes of `PUT_UINT32`. -/
def putUint32 (n : BitVec 32) : List Byte :=
  [(n >>> 24).setWidth 8, (n >>> 16).setWidth 8, (n >>> 8).setWidth 8, n.setWidth 8]

/-- A table at the byte of a word `shift` bits up. -/
def look (table : ℕ → BitVec 32) (x : BitVec 32) (shift : ℕ) : BitVec 32 :=
  table ((x >>> shift).setWidth 8).toNat

/-! ## Tables -/

/-- The global variables. -/
structure AesGlobals where
  erk : ℕ → BitVec 32
  drk : ℕ → BitVec 32
  nr : ℕ
  fsb : ℕ → BitVec 32
  ft0 : ℕ → BitVec 32
  ft1 : ℕ → BitVec 32
  ft2 : ℕ → BitVec 32
  ft3 : ℕ → BitVec 32
  rsb : ℕ → BitVec 32
  rt0 : ℕ → BitVec 32
  rt1 : ℕ → BitVec 32
  rt2 : ℕ → BitVec 32
  rt3 : ℕ → BitVec 32
  rcon : ℕ → BitVec 32
  doInit : Bool
  ktInit : Bool
  kt0 : ℕ → BitVec 32
  kt1 : ℕ → BitVec 32
  kt2 : ℕ → BitVec 32
  kt3 : ℕ → BitVec 32

/-- `x`, `pow` and `log` of `aes_gen_tables`. -/
structure PowLog where
  x : Byte
  pow : ℕ → Byte
  log : ℕ → Byte

def powLogBody (i : ℕ) (t : PowLog) : PowLog where
  x := t.x ^^^ xtime t.x
  pow := Function.update t.pow i t.x
  log := Function.update t.log t.x.toNat (BitVec.ofNat 8 i)

/-- `MUL`. -/
def PowLog.mul (t : PowLog) (x y : Byte) : Byte :=
  if x ≠ 0 ∧ y ≠ 0 then t.pow (((t.log x.toNat).toNat + (t.log y.toNat).toNat) % 255) else 0

/-- `y = (y << 1) | (y >> 7)`. -/
def rotl1 (y : Byte) : Byte := y <<< 1 ||| y >>> 7

def rconBody (i : ℕ) (s : Byte × (ℕ → BitVec 32)) : Byte × (ℕ → BitVec 32) :=
  (xtime s.1, Function.update s.2 i (s.1.setWidth 32 <<< 24))

/-- One entry of the S-boxes `FSb` and `RSb`. -/
def sboxBody (t : PowLog) (i : ℕ) (s : (ℕ → BitVec 32) × (ℕ → BitVec 32)) :
    (ℕ → BitVec 32) × (ℕ → BitVec 32) :=
  let x := t.pow (255 - (t.log i).toNat)
  let y := rotl1 x
  let x := x ^^^ y
  let y := rotl1 y
  let x := x ^^^ y
  let y := rotl1 y
  let x := x ^^^ y
  let y := rotl1 y
  let x := x ^^^ (y ^^^ 0x63)
  (Function.update s.1 i (x.setWidth 32), Function.update s.2 x.toNat (BitVec.ofNat 32 i))

/-- One entry of the forward and the reverse tables. -/
def tableBody (t : PowLog) (i : ℕ) (g : AesGlobals) : AesGlobals :=
  let x := (g.fsb i).setWidth 8
  let y := xtime x
  let f0 := ((x ^^^ y).setWidth 32 ^^^ x.setWidth 32 <<< 8 ^^^ x.setWidth 32 <<< 16 ^^^
    y.setWidth 32 <<< 24) &&& 0xFFFFFFFF
  let y := (g.rsb i).setWidth 8
  let r0 := ((t.mul 0x0B y).setWidth 32 ^^^ (t.mul 0x0D y).setWidth 32 <<< 8 ^^^
    (t.mul 0x09 y).setWidth 32 <<< 16 ^^^ (t.mul 0x0E y).setWidth 32 <<< 24) &&& 0xFFFFFFFF
  { g with
    ft0 := Function.update g.ft0 i f0
    ft1 := Function.update g.ft1 i (rotr8 f0)
    ft2 := Function.update g.ft2 i (rotr8 (rotr8 f0))
    ft3 := Function.update g.ft3 i (rotr8 (rotr8 (rotr8 f0)))
    rt0 := Function.update g.rt0 i r0
    rt1 := Function.update g.rt1 i (rotr8 r0)
    rt2 := Function.update g.rt2 i (rotr8 (rotr8 r0))
    rt3 := Function.update g.rt3 i (rotr8 (rotr8 (rotr8 r0))) }

/-- `aes_gen_tables`. What `pow` and `log` hold at first is what was on the stack. -/
def aesGenTables (pow log : ℕ → Byte) (g : AesGlobals) : AesGlobals :=
  let t := forLoop 0 256 powLogBody ⟨1, pow, log⟩
  let rcon := (forLoop 0 10 rconBody (1, g.rcon)).2
  let s := forLoop 1 256 (sboxBody t)
    (Function.update g.fsb 0x00 0x63, Function.update g.rsb 0x63 0x00)
  forLoop 0 256 (tableBody t) { g with rcon, fsb := s.1, rsb := s.2 }

/-! ## Round keys -/

/-- The encryption round key at `RK + 4`. -/
def expandBody (g : AesGlobals) (i : ℕ) (s : ℕ × (ℕ → BitVec 32)) : ℕ × (ℕ → BitVec 32) :=
  let (rk, erk) := s
  let erk := Function.update erk (rk + 4) (erk rk ^^^ g.rcon i ^^^
    look g.fsb (erk (rk + 3)) 16 <<< 24 ^^^ look g.fsb (erk (rk + 3)) 8 <<< 16 ^^^
    look g.fsb (erk (rk + 3)) 0 <<< 8 ^^^ look g.fsb (erk (rk + 3)) 24)
  let erk := Function.update erk (rk + 5) (erk (rk + 1) ^^^ erk (rk + 4))
  let erk := Function.update erk (rk + 6) (erk (rk + 2) ^^^ erk (rk + 5))
  let erk := Function.update erk (rk + 7) (erk (rk + 3) ^^^ erk (rk + 6))
  (rk + 4, erk)

/-- One entry of the tables for the decryption key schedule. -/
def ktBody (i : ℕ) (g : AesGlobals) : AesGlobals :=
  { g with
    kt0 := Function.update g.kt0 i (g.rt0 (g.fsb i).toNat)
    kt1 := Function.update g.kt1 i (g.rt1 (g.fsb i).toNat)
    kt2 := Function.update g.kt2 i (g.rt2 (g.fsb i).toNat)
    kt3 := Function.update g.kt3 i (g.rt3 (g.fsb i).toNat) }

/-- `RK`, `SK` and what `SK` points into. -/
structure KeyCopy where
  rk : ℕ
  sk : ℕ
  drk : ℕ → BitVec 32

/-- `*SK++ = f(*RK); RK++`. -/
def KeyCopy.push (f : BitVec 32 → BitVec 32) (erk : ℕ → BitVec 32) (c : KeyCopy) : KeyCopy :=
  ⟨c.rk + 1, c.sk + 1, Function.update c.drk c.sk (f (erk c.rk))⟩

/-- Four words through the tables for the decryption key schedule. -/
def mixWord (g : AesGlobals) (x : BitVec 32) : BitVec 32 :=
  look g.kt0 x 24 ^^^ look g.kt1 x 16 ^^^ look g.kt2 x 8 ^^^ look g.kt3 x 0

def decKeyBody (g : AesGlobals) (_ : ℕ) (c : KeyCopy) : KeyCopy :=
  (KeyCopy.push (mixWord g) g.erk)^[4] { c with rk := c.rk - 8 }

/-- The tables are generated once. -/
def initTables (pow log : ℕ → Byte) (g : AesGlobals) : AesGlobals :=
  if g.doInit then { aesGenTables pow log g with doInit := false } else g

/-- `RK` and the encryption round keys. -/
def encKeys (key : List Byte) (nbits : ℕ) (g : AesGlobals) : ℕ × (ℕ → BitVec 32) :=
  forLoop 0 10 (expandBody g) (0, forLoop 0 (nbits / 32)
    (fun i erk => Function.update erk i (getUint32 key (i * 4))) g.erk)

/-- The tables for the decryption key schedule are generated once. -/
def initKeyTables (g : AesGlobals) : AesGlobals :=
  if g.ktInit then { forLoop 0 256 ktBody g with ktInit := false } else g

/-- The decryption round keys. -/
def decKeys (rk : ℕ) (g : AesGlobals) : AesGlobals :=
  let c := (KeyCopy.push id g.erk)^[4] ⟨rk, 0, g.drk⟩
  let c := forLoop 1 g.nr (decKeyBody g) c
  { g with drk := ((KeyCopy.push id g.erk)^[4] { c with rk := c.rk - 8 }).drk }

/-- `aes_set_key`, with `pow` and `log` of `aes_gen_tables` below it on the stack. -/
def aesSetKey (pow log : ℕ → Byte) (key : List Byte) (nbits : ℕ) (g : AesGlobals) : AesGlobals :=
  let g := initTables pow log g
  let (rk, erk) := encKeys key nbits g
  decKeys rk (initKeyTables { g with nr := 10, erk })

/-! ## Blocks -/

/-- `X0` to `X3`, or `Y0` to `Y3`. -/
structure Words where
  x0 : BitVec 32
  x1 : BitVec 32
  x2 : BitVec 32
  x3 : BitVec 32

/-- `AES_RROUND`, with `RK` moved on. -/
def aesRround (g : AesGlobals) (rk : ℕ) (y : Words) : Words where
  x0 := g.drk rk ^^^ look g.rt0 y.x0 24 ^^^ look g.rt1 y.x3 16 ^^^ look g.rt2 y.x2 8 ^^^
    look g.rt3 y.x1 0
  x1 := g.drk (rk + 1) ^^^ look g.rt0 y.x1 24 ^^^ look g.rt1 y.x0 16 ^^^ look g.rt2 y.x3 8 ^^^
    look g.rt3 y.x2 0
  x2 := g.drk (rk + 2) ^^^ look g.rt0 y.x2 24 ^^^ look g.rt1 y.x1 16 ^^^ look g.rt2 y.x0 8 ^^^
    look g.rt3 y.x3 0
  x3 := g.drk (rk + 3) ^^^ look g.rt0 y.x3 24 ^^^ look g.rt1 y.x2 16 ^^^ look g.rt2 y.x1 8 ^^^
    look g.rt3 y.x0 0

/-- The last round. -/
def lastRound (g : AesGlobals) (rk : ℕ) (y : Words) : Words where
  x0 := g.drk rk ^^^ look g.rsb y.x0 24 <<< 24 ^^^ look g.rsb y.x3 16 <<< 16 ^^^
    look g.rsb y.x2 8 <<< 8 ^^^ look g.rsb y.x1 0
  x1 := g.drk (rk + 1) ^^^ look g.rsb y.x1 24 <<< 24 ^^^ look g.rsb y.x0 16 <<< 16 ^^^
    look g.rsb y.x3 8 <<< 8 ^^^ look g.rsb y.x2 0
  x2 := g.drk (rk + 2) ^^^ look g.rsb y.x2 24 <<< 24 ^^^ look g.rsb y.x1 16 <<< 16 ^^^
    look g.rsb y.x0 8 <<< 8 ^^^ look g.rsb y.x3 0
  x3 := g.drk (rk + 3) ^^^ look g.rsb y.x3 24 <<< 24 ^^^ look g.rsb y.x2 16 <<< 16 ^^^
    look g.rsb y.x1 8 <<< 8 ^^^ look g.rsb y.x0 0

/-- `aes_decrypt`. -/
def aesDecrypt (g : AesGlobals) (input : List Byte) : List Byte :=
  let x : Words := ⟨getUint32 input 0 ^^^ g.drk 0, getUint32 input 4 ^^^ g.drk 1,
    getUint32 input 8 ^^^ g.drk 2, getUint32 input 12 ^^^ g.drk 3⟩
  let (rk, x) := forLoop 1 10 (fun _ s => (s.1 + 4, aesRround g (s.1 + 4) s.2)) (0, x)
  let x := lastRound g (rk + 4) x
  putUint32 x.x0 ++ putUint32 x.x1 ++ putUint32 x.x2 ++ putUint32 x.x3

/-- `key`. -/
def key : List Byte := [0x00, 0x01, 0x02, 0x03, 0x04, 0x05, 0x06, 0x07, 0x08, 0x09, 0x0a, 0x0b,
  0x0c, 0x0d, 0x0e, 0x0f]

variable {w : ℕ}

/-- `Decrypt` with `SW_CRYPTO_EMUL`. It reads at `DestAddr` and stores at `SrcAddr`. -/
def decrypt (pow log : ℕ → Byte) (srcAddr destAddr : BitVec w) (size : BitVec 32)
    (g : AesGlobals) (mem : Mem w) : AesGlobals × Touched w :=
  let g := aesSetKey pow log key 128 g
  (g, (List.range' 0 (((size >>> 2).toNat + 3) / 4) 4).foldl
    (fun t i => t.mapBlock (aesDecrypt g) 16 (destAddr + BitVec.ofNat w (4 * i))
      (srcAddr + BitVec.ofNat w (4 * i))) { mem })

/-! ## Columns as words -/

/-- A word of four bytes, the top byte first. -/
def bytesWord (a b c d : Byte) : BitVec 32 :=
  a.setWidth 32 <<< 24 ^^^ b.setWidth 32 <<< 16 ^^^ c.setWidth 32 <<< 8 ^^^ d.setWidth 32

theorem getLsbD_bytesWord (a b c d : Byte) (i : ℕ) : (bytesWord a b c d).getLsbD i =
    if i < 8 then d.getLsbD i else if i < 16 then c.getLsbD (i - 8)
    else if i < 24 then b.getLsbD (i - 16) else if i < 32 then a.getLsbD (i - 24) else false := by
  simp only [bytesWord, BitVec.getLsbD_xor, BitVec.getLsbD_shiftLeft, BitVec.getLsbD_setWidth]
  by_cases hi : i < 32
  · interval_cases i <;> simp
  · simp [hi, show ¬i < 8 by omega, show ¬i < 16 by omega, show ¬i < 24 by omega]

theorem or_bytesWord (a b c d : Byte) : a.setWidth 32 <<< 24 ||| b.setWidth 32 <<< 16 |||
    c.setWidth 32 <<< 8 ||| d.setWidth 32 = bytesWord a b c d := by
  apply BitVec.eq_of_getLsbD_eq
  intro i hi
  simp only [BitVec.getLsbD_or, BitVec.getLsbD_shiftLeft, BitVec.getLsbD_setWidth,
    getLsbD_bytesWord]
  interval_cases i <;> simp

theorem byte_bytesWord (a b c d : Byte) : (bytesWord a b c d >>> 24).setWidth 8 = a ∧
    (bytesWord a b c d >>> 16).setWidth 8 = b ∧ (bytesWord a b c d >>> 8).setWidth 8 = c ∧
    (bytesWord a b c d).setWidth 8 = d := by
  refine ⟨?_, ?_, ?_, ?_⟩ <;> apply BitVec.eq_of_getLsbD_eq <;> intro i hi <;>
    simp only [BitVec.getLsbD_setWidth, BitVec.getLsbD_ushiftRight, getLsbD_bytesWord] <;>
    interval_cases i <;> simp

theorem rotr8_bytesWord (a b c d : Byte) : rotr8 (bytesWord a b c d) = bytesWord d a b c := by
  apply BitVec.eq_of_getLsbD_eq
  intro i hi
  simp only [rotr8, BitVec.getLsbD_or, BitVec.getLsbD_and, BitVec.getLsbD_shiftLeft,
    BitVec.getLsbD_ushiftRight, getLsbD_bytesWord]
  interval_cases i <;> simp

theorem bytesWord_xor (a b c d a' b' c' d' : Byte) :
    bytesWord (a ^^^ a') (b ^^^ b') (c ^^^ c') (d ^^^ d') =
      bytesWord a b c d ^^^ bytesWord a' b' c' d' := by
  apply BitVec.eq_of_getLsbD_eq
  intro i hi
  simp only [BitVec.getLsbD_xor, getLsbD_bytesWord]
  repeat' split
  all_goals simp

/-- A column as a word, from the top. -/
def word : Column → BitVec 32 := Aes.ofEntries bytesWord

theorem word_xor (a b : Column) : word (fun r => a r ^^^ b r) = word a ^^^ word b :=
  bytesWord_xor ..

theorem rotr8_word (c : Column) : rotr8 (word c) = word fun r => c (r + 3) := rotr8_bytesWord ..

theorem getUint32_eq (b : List Byte) (i : ℕ) :
    getUint32 b i = word fun r => b.getD (i + r) 0 := or_bytesWord ..

theorem putUint32_word (c : Column) : putUint32 (word c) = List.ofFn c := by
  obtain ⟨h0, h1, h2, h3⟩ := byte_bytesWord (c 0) (c 1) (c 2) (c 3)
  rw [putUint32, word, Aes.ofEntries, h0, h1, h2, h3]
  rfl

/-- Looking a column up, byte by byte. -/
theorem look_word (table : ℕ → BitVec 32) (c : Column) :
    look table (word c) 24 = table (c 0).toNat ∧ look table (word c) 16 = table (c 1).toNat ∧
      look table (word c) 8 = table (c 2).toNat ∧ look table (word c) 0 = table (c 3).toNat := by
  obtain ⟨h0, h1, h2, h3⟩ := byte_bytesWord (c 0) (c 1) (c 2) (c 3)
  simp only [look, word, Aes.ofEntries, h0, h1, h2, BitVec.ushiftRight_zero, h3, and_self]

/-! ## The tables -/

theorem xtime_eq (x : Byte) : xtime x = Aes.xtime x := by
  revert x
  decide +kernel

/-- After `n` turns, `pow` and `log` invert each other on what has been entered. -/
structure PowLogOk (n : ℕ) (t : PowLog) : Prop where
  x : t.x = Aes.pow 3 n
  pow : ∀ i < n, t.pow i = Aes.pow 3 i
  log : ∀ i < n, ∃ j < n, t.log (Aes.pow 3 i).toNat = BitVec.ofNat 8 j ∧
    Aes.pow 3 j = Aes.pow 3 i

theorem powLog_ok (pow log : ℕ → Byte) : PowLogOk 256 (forLoop 0 256 powLogBody ⟨1, pow, log⟩) := by
  refine forLoop_induction (P := PowLogOk) (Nat.zero_le _) ⟨rfl, ?_, ?_⟩ fun n t _ _ ht => ?_
  · intro i hi
    exact absurd hi (Nat.not_lt_zero i)
  · intro i hi
    exact absurd hi (Nat.not_lt_zero i)
  refine ⟨?_, fun i hi => ?_, fun i hi => ?_⟩
  · rw [powLogBody, xtime_eq, ht.x, Aes.xtime_eq_mul, Aes.pow_succ,
      show (3 : GF) = 1 ^^^ 2 from rfl, Aes.xor_mul, Aes.one_mul]
  · simp only [powLogBody, ht.x]
    by_cases hin : i = n
    · rw [hin, Function.update_self]
    · rw [Function.update_of_ne hin, ht.pow i (by omega)]
  · simp only [powLogBody, ht.x]
    by_cases heq : Aes.pow 3 i = Aes.pow 3 n
    · exact ⟨n, Nat.lt_succ_self n, by rw [heq, Function.update_self], heq.symm⟩
    · have hin : i ≠ n := fun h => heq (by rw [h])
      obtain ⟨j, hj, hlog, hpow⟩ := ht.log i (by omega)
      refine ⟨j, Nat.lt_succ_of_lt hj, ?_, hpow⟩
      rw [Function.update_of_ne fun h => heq (BitVec.eq_of_toNat_eq h), hlog]

/-- The entry of an element other than `0` in `log`. -/
theorem PowLogOk.exists_log {t : PowLog} (h : PowLogOk 256 t) {x : Byte} (hx : x ≠ 0) :
    ∃ j < 256, (t.log x.toNat).toNat = j ∧ Aes.pow 3 j = x := by
  obtain ⟨i, hi, rfl⟩ := Aes.exists_pow hx
  obtain ⟨j, hj, hlog, hpow⟩ := h.log i (Nat.lt_trans hi (by decide))
  refine ⟨j, hj, ?_, hpow⟩
  rw [hlog, BitVec.toNat_ofNat, Nat.mod_eq_of_lt hj]

theorem pow_three_mod (n : ℕ) : Aes.pow 3 (n % 255) = Aes.pow 3 n := by
  have hdiv : n = 255 * (n / 255) + n % 255 := (Nat.div_add_mod n 255).symm
  conv_rhs => rw [hdiv, Aes.pow_add, Aes.pow_mul, Aes.pow_order (by decide), Aes.one_pow,
    Aes.one_mul]

theorem PowLogOk.mul {t : PowLog} (h : PowLogOk 256 t) (x y : Byte) : t.mul x y = Aes.mul x y := by
  by_cases hx : x = 0
  · rw [PowLog.mul, if_neg (fun hne => hne.1 hx), hx, Aes.zero_mul]
  by_cases hy : y = 0
  · rw [PowLog.mul, if_neg (fun hne => hne.2 hy), hy, Aes.mul_zero]
  obtain ⟨j, -, hj, rfl⟩ := h.exists_log hx
  obtain ⟨k, -, hk, rfl⟩ := h.exists_log hy
  rw [PowLog.mul, if_pos ⟨hx, hy⟩, hj, hk, h.pow _ (Nat.lt_trans (Nat.mod_lt _ (by decide))
    (by decide)), pow_three_mod, Aes.pow_add]

/-- The inverse of an element, from the tables. -/
theorem PowLogOk.inv {t : PowLog} (h : PowLogOk 256 t) {x : Byte} (hx : x ≠ 0) :
    t.pow (255 - (t.log x.toNat).toNat) = Aes.inv x := by
  obtain ⟨j, hj, hlog, rfl⟩ := h.exists_log hx
  have hprod : Aes.mul (Aes.pow 3 (255 - j)) (Aes.pow 3 j) = 1 := by
    rw [← Aes.pow_add, Nat.sub_add_cancel (by omega), Aes.pow_order (by decide)]
  rw [hlog, h.pow _ (by omega)]
  calc Aes.pow 3 (255 - j) = Aes.mul (Aes.pow 3 (255 - j)) (Aes.mul (Aes.pow 3 j)
        (Aes.inv (Aes.pow 3 j))) := by rw [Aes.mul_inv hx, Aes.mul_one]
    _ = Aes.inv (Aes.pow 3 j) := by rw [← Aes.mul_assoc, hprod, Aes.one_mul]

theorem rcon_ok (rcon : ℕ → BitVec 32) : ∀ i < 10,
    (forLoop 0 10 rconBody (1, rcon)).2 i = (Aes.rcon i).setWidth 32 <<< 24 := by
  have h := @forLoop_induction _ 0 10 rconBody (1, rcon)
    (fun n s => s.1 = Aes.rcon n ∧ ∀ i < n, s.2 i = (Aes.rcon i).setWidth 32 <<< 24)
    (Nat.zero_le 10) ⟨rfl, fun i hi => absurd hi (Nat.not_lt_zero i)⟩ fun n s _ _ ⟨hx, hs⟩ => by
      refine ⟨?_, fun i hi => ?_⟩
      · rw [rconBody, xtime_eq, hx, Aes.xtime_eq_mul, Aes.rcon, Aes.rcon, Aes.pow_succ]
      · simp only [rconBody, hx]
        by_cases hin : i = n
        · rw [hin, Function.update_self]
        · rw [Function.update_of_ne hin, hs i (by omega)]
  exact h.2

/-- The entries of the S-boxes up to `n`. -/
def SboxOk (n : ℕ) (s : (ℕ → BitVec 32) × (ℕ → BitVec 32)) : Prop :=
  ∀ x : Byte, x.toNat < n → s.1 x.toNat = (Aes.sbox x).setWidth 32 ∧
    s.2 (Aes.sbox x).toNat = x.setWidth 32

theorem sboxBody_eq {t : PowLog} (ht : PowLogOk 256 t) {x : Byte} (hx : x ≠ 0)
    (s : (ℕ → BitVec 32) × (ℕ → BitVec 32)) : sboxBody t x.toNat s =
      (Function.update s.1 x.toNat ((Aes.sbox x).setWidth 32),
        Function.update s.2 (Aes.sbox x).toNat (x.setWidth 32)) := by
  have haffine (p : Byte) : p ^^^ rotl1 p ^^^ rotl1 (rotl1 p) ^^^ rotl1 (rotl1 (rotl1 p)) ^^^
      (rotl1 (rotl1 (rotl1 (rotl1 p))) ^^^ 0x63) = Aes.affine p := by
    revert p
    decide +kernel
  have hwidth : BitVec.ofNat 32 x.toNat = x.setWidth 32 := by
    rw [BitVec.ofNat_toNat]
  simp only [sboxBody, ht.inv hx, haffine, hwidth]
  rfl

theorem sbox_ok {t : PowLog} (ht : PowLogOk 256 t) (fsb rsb : ℕ → BitVec 32) :
    SboxOk 256 (forLoop 1 256 (sboxBody t)
      (Function.update fsb 0x00 0x63, Function.update rsb 0x63 0x00)) := by
  refine forLoop_induction (P := SboxOk) (by decide) (fun x hx => ?_) fun n s hpos hn hs => ?_
  · obtain rfl : x = 0 := BitVec.eq_of_toNat_eq (Nat.lt_one_iff.1 hx)
    have hzero : Aes.sbox 0 = 0x63 := by decide +kernel
    rw [hzero]
    exact ⟨rfl, rfl⟩
  obtain ⟨y, rfl⟩ : ∃ y : Byte, y.toNat = n := ⟨BitVec.ofNat 8 n, Nat.mod_eq_of_lt hn⟩
  have hy : y ≠ 0 := by
    rintro rfl
    exact absurd hpos (by decide)
  intro x hx
  rw [sboxBody_eq ht hy]
  by_cases hxy : x = y
  · rw [hxy]
    exact ⟨Function.update_self .., Function.update_self ..⟩
  · have hne : x.toNat ≠ y.toNat := fun h => hxy (BitVec.eq_of_toNat_eq h)
    have hsbox : (Aes.sbox x).toNat ≠ (Aes.sbox y).toNat := fun h => hxy (by
      rw [← Aes.invSbox_sbox x, BitVec.eq_of_toNat_eq h, Aes.invSbox_sbox])
    obtain ⟨hf, hr⟩ := hs x (by omega)
    exact ⟨(Function.update_of_ne hne ..).trans hf, (Function.update_of_ne hsbox ..).trans hr⟩

/-- What a byte of row `k` adds to a column in the inverse mixing of columns. -/
def revWord (k : Fin 4) (y : Byte) : BitVec 32 :=
  word fun r => Aes.mul (![0xE, 0xB, 0xD, 0x9] (k - r)) y

theorem revWord_sum (col : Column) : revWord 0 (col 0) ^^^ revWord 1 (col 1) ^^^
    revWord 2 (col 2) ^^^ revWord 3 (col 3) = word (Aes.invMixColumn col) := by
  have hcol : Aes.invMixColumn col = fun r => Aes.circulant ![0xE, 0xB, 0xD, 0x9] col r := rfl
  simp only [hcol, Aes.circulant_eq, word_xor, revWord]

theorem rotr8_revWord (k : Fin 4) {l : Fin 4} (h : l = k + 1) (y : Byte) :
    rotr8 (revWord k y) = revWord l y := by
  have hrow (r : Fin 4) : k - (r + 3) = l - r := by
    subst h
    revert k r
    decide
  simp only [revWord, rotr8_word, hrow]

/-- What the tables should hold. -/
structure TablesOk (g : AesGlobals) : Prop where
  fsb : ∀ x : Byte, g.fsb x.toNat = (Aes.sbox x).setWidth 32
  rsb : ∀ x : Byte, g.rsb x.toNat = (Aes.invSbox x).setWidth 32
  rt0 : ∀ x : Byte, g.rt0 x.toNat = revWord 0 (Aes.invSbox x)
  rt1 : ∀ x : Byte, g.rt1 x.toNat = revWord 1 (Aes.invSbox x)
  rt2 : ∀ x : Byte, g.rt2 x.toNat = revWord 2 (Aes.invSbox x)
  rt3 : ∀ x : Byte, g.rt3 x.toNat = revWord 3 (Aes.invSbox x)
  rcon : ∀ i < 10, g.rcon i = (Aes.rcon i).setWidth 32 <<< 24

/-- The last loop of `aes_gen_tables` changes the forward and the reverse tables only. -/
theorem tableLoop_ok {t : PowLog} (ht : PowLogOk 256 t) {g : AesGlobals}
    (hs : SboxOk 256 (g.fsb, g.rsb))
    (hrcon : ∀ i < 10, g.rcon i = (Aes.rcon i).setWidth 32 <<< 24) :
    ∃ ft0 ft1 ft2 ft3 rt0 rt1 rt2 rt3, forLoop 0 256 (tableBody t) g =
      { g with ft0, ft1, ft2, ft3, rt0, rt1, rt2, rt3 } ∧
      TablesOk { g with ft0, ft1, ft2, ft3, rt0, rt1, rt2, rt3 } := by
  have hrsb (x : Byte) : g.rsb x.toNat = (Aes.invSbox x).setWidth 32 := by
    have h := (hs (Aes.invSbox x) (Aes.invSbox x).isLt).2
    rwa [Aes.sbox_invSbox] at h
  have h := @forLoop_induction _ 0 256 (tableBody t) g
    (fun n g' => ∃ ft0 ft1 ft2 ft3 rt0 rt1 rt2 rt3, g' =
      { g with ft0, ft1, ft2, ft3, rt0, rt1, rt2, rt3 } ∧
      ∀ x : Byte, x.toNat < n → rt0 x.toNat = revWord 0 (Aes.invSbox x) ∧
        rt1 x.toNat = revWord 1 (Aes.invSbox x) ∧ rt2 x.toNat = revWord 2 (Aes.invSbox x) ∧
        rt3 x.toNat = revWord 3 (Aes.invSbox x)) (Nat.zero_le _)
    ⟨_, _, _, _, _, _, _, _, rfl, fun x hx => absurd hx (Nat.not_lt_zero _)⟩ ?_
  · obtain ⟨ft0, ft1, ft2, ft3, rt0, rt1, rt2, rt3, heq, hall⟩ := h
    exact ⟨ft0, ft1, ft2, ft3, rt0, rt1, rt2, rt3, heq,
      ⟨fun x => (hs x x.isLt).1, hrsb, fun x => (hall x x.isLt).1, fun x => (hall x x.isLt).2.1,
        fun x => (hall x x.isLt).2.2.1, fun x => (hall x x.isLt).2.2.2, hrcon⟩⟩
  rintro n _ - hn ⟨ft0, ft1, ft2, ft3, rt0, rt1, rt2, rt3, rfl, hall⟩
  obtain ⟨y, rfl⟩ : ∃ y : Byte, y.toNat = n := ⟨BitVec.ofNat 8 n, Nat.mod_eq_of_lt hn⟩
  have hy : (g.rsb y.toNat).setWidth 8 = Aes.invSbox y := by
    rw [hrsb, BitVec.setWidth_setWidth_of_le _ (by decide), BitVec.setWidth_eq]
  have hrev (z : Byte) : ((t.mul 0x0B z).setWidth 32 ^^^ (t.mul 0x0D z).setWidth 32 <<< 8 ^^^
      (t.mul 0x09 z).setWidth 32 <<< 16 ^^^ (t.mul 0x0E z).setWidth 32 <<< 24) &&& 0xFFFFFFFF =
        revWord 0 z := by
    have hand (x : BitVec 32) : x &&& 0xFFFFFFFF = x := BitVec.and_allOnes
    have hsum (a b c d : BitVec 32) : a ^^^ b ^^^ c ^^^ d = d ^^^ c ^^^ b ^^^ a := by ac_rfl
    rw [hand, hsum, ht.mul, ht.mul, ht.mul, ht.mul]
    rfl
  refine ⟨_, _, _, _, _, _, _, _, rfl, fun x hx => ?_⟩
  dsimp only
  rw [hy, hrev, rotr8_revWord 0 (rfl : (1 : Fin 4) = _), rotr8_revWord 1 (rfl : (2 : Fin 4) = _),
    rotr8_revWord 2 (rfl : (3 : Fin 4) = _)]
  by_cases hxy : x = y
  · subst hxy
    simp only [Function.update_self, and_self]
  · have hne : x.toNat ≠ y.toNat := fun h => hxy (BitVec.eq_of_toNat_eq h)
    simp only [Function.update_of_ne hne]
    exact hall x (by omega)

/-- **The generated tables** are right, whatever was on the stack. The key schedules are left. -/
theorem aesGenTables_ok (pow log : ℕ → Byte) (g : AesGlobals) :
    TablesOk (aesGenTables pow log g) ∧ (aesGenTables pow log g).erk = g.erk ∧
      (aesGenTables pow log g).ktInit = g.ktInit := by
  have ht := powLog_ok pow log
  have hs := sbox_ok ht g.fsb g.rsb
  have hrcon := rcon_ok g.rcon
  unfold aesGenTables
  dsimp only
  generalize forLoop 0 256 powLogBody ⟨1, pow, log⟩ = t at ht hs ⊢
  generalize forLoop 1 256 (sboxBody t) _ = s at hs ⊢
  generalize (forLoop 0 10 rconBody (1, g.rcon)).2 = rcon at hrcon ⊢
  obtain ⟨ft0, ft1, ft2, ft3, rt0, rt1, rt2, rt3, heq, hok⟩ :=
    @tableLoop_ok t ht { g with rcon, fsb := s.1, rsb := s.2 } hs hrcon
  rw [heq]
  exact ⟨hok, rfl, rfl⟩

/-! ## The key schedules -/

/-- The words of a state in an array. -/
def Holds (a : ℕ → BitVec 32) (i : ℕ) (s : State) : Prop := ∀ c : Fin 4, a (i + c) = word (s c)

theorem fsb_sum {g : AesGlobals} (h : TablesOk g) (n : ℕ) (hn : n < 10) (k0 k3 : Column) :
    word k0 ^^^ g.rcon n ^^^ look g.fsb (word k3) 16 <<< 24 ^^^ look g.fsb (word k3) 8 <<< 16 ^^^
      look g.fsb (word k3) 0 <<< 8 ^^^ look g.fsb (word k3) 24 =
    word fun r => k0 r ^^^ Aes.sbox (k3 (r + 1)) ^^^ if r = 0 then Aes.rcon n else 0 := by
  obtain ⟨h0, h1, h2, h3⟩ := look_word g.fsb k3
  have hsub : word (fun r => Aes.sbox (k3 (r + 1))) = (Aes.sbox (k3 1)).setWidth 32 <<< 24 ^^^
      (Aes.sbox (k3 2)).setWidth 32 <<< 16 ^^^ (Aes.sbox (k3 3)).setWidth 32 <<< 8 ^^^
      (Aes.sbox (k3 0)).setWidth 32 := rfl
  have hrcon : word (fun r => if r = 0 then Aes.rcon n else 0) =
      (Aes.rcon n).setWidth 32 <<< 24 := by
    have hzero (x : Byte) : bytesWord x 0 0 0 = x.setWidth 32 <<< 24 := by
      simp [bytesWord]
    exact hzero (Aes.rcon n)
  have hsum (a b c d e f : BitVec 32) :
      a ^^^ f ^^^ b ^^^ c ^^^ d ^^^ e = a ^^^ (b ^^^ c ^^^ d ^^^ e) ^^^ f := by ac_rfl
  rw [h0, h1, h2, h3, h.fsb, h.fsb, h.fsb, h.fsb, h.rcon n hn, word_xor, word_xor, hsub, hrcon]
  exact hsum ..

/-- Four words stored from `i` up. -/
def storeState (a : ℕ → BitVec 32) (i : ℕ) (s : State) : ℕ → BitVec 32 :=
  Aes.ofEntries (fun w0 w1 w2 w3 => Function.update (Function.update (Function.update
    (Function.update a i w0) (i + 1) w1) (i + 2) w2) (i + 3) w3) (word ∘ s)

theorem storeState_of_lt (a : ℕ → BitVec 32) {i j : ℕ} (h : j < i) (s : State) :
    storeState a i s j = a j := by
  simp (disch := omega) only [storeState, Aes.ofEntries, Function.comp_apply,
    Function.update_of_ne]

theorem holds_storeState (a : ℕ → BitVec 32) (i : ℕ) (s : State) : Holds (storeState a i s) i s
  | 0 => by
    rw [show i + ((0 : Fin 4) : ℕ) = i from rfl]
    simp (disch := omega) only [storeState, Aes.ofEntries, Function.comp_apply,
    Function.update_of_ne, Function.update_self]
  | 1 => by
    rw [show i + ((1 : Fin 4) : ℕ) = i + 1 from rfl]
    simp (disch := omega) only [storeState, Aes.ofEntries, Function.comp_apply,
    Function.update_of_ne, Function.update_self]
  | 2 => by
    rw [show i + ((2 : Fin 4) : ℕ) = i + 2 from rfl]
    simp (disch := omega) only [storeState, Aes.ofEntries, Function.comp_apply,
    Function.update_of_ne, Function.update_self]
  | 3 => Function.update_self ..

theorem Holds.store {a : ℕ → BitVec 32} {i j : ℕ} {s : State} (h : Holds a i s) (hij : i + 4 ≤ j)
    (s' : State) : Holds (storeState a j s') i s := fun c => by
  rw [storeState_of_lt a (by omega), h c]

/-- One turn of the loop over the encryption round keys. -/
theorem expandBody_eq {g : AesGlobals} (h : TablesOk g) {n : ℕ} (hn : n < 10)
    {erk : ℕ → BitVec 32} {k : State} (hk : Holds erk (4 * n) k) :
    expandBody g n (4 * n, erk) =
      (4 * n + 4, storeState erk (4 * n + 4) (Aes.nextRoundKey n k)) := by
  have h0 : erk (4 * n) = word (k 0) := hk 0
  have h1 : erk (4 * n + 1) = word (k 1) := hk 1
  have h2 : erk (4 * n + 2) = word (k 2) := hk 2
  have h3 : erk (4 * n + 3) = word (k 3) := hk 3
  have hxor (a b : Column) : word a ^^^ word b = word fun r => a r ^^^ b r := (word_xor a b).symm
  simp (disch := omega) only [expandBody, Function.update_of_ne, Function.update_self, h0, h1, h2,
    h3, fsb_sum h n hn, hxor]
  rfl

/-- The key itself, whatever more of it is read. -/
theorem loadKey_holds (key : List Byte) {nbits : ℕ} (hbits : 128 ≤ nbits) (erk : ℕ → BitVec 32) :
    Holds (forLoop 0 (nbits / 32)
      (fun i erk => Function.update erk i (getUint32 key (i * 4))) erk) 0 (.ofBytes key) := by
  have hload := @forLoop_induction _ 0 (nbits / 32)
    (fun i erk => Function.update erk i (getUint32 key (i * 4))) erk
    (fun n erk => ∀ i < n, erk i = getUint32 key (i * 4)) (Nat.zero_le _)
    (fun i hi => absurd hi (Nat.not_lt_zero i)) fun n erk _ _ hread i hi => by
      by_cases hin : i = n
      · rw [hin, Function.update_self]
      · rw [Function.update_of_ne hin, hread i (by omega)]
  intro c
  rw [hload _ (by omega), getUint32_eq, Nat.zero_add, Nat.mul_comm]
  exact congrArg word (funext fun r => rfl)

/-- **The encryption round keys.** -/
theorem encKeys_ok {g : AesGlobals} (h : TablesOk g) (key : List Byte) {nbits : ℕ}
    (hbits : 128 ≤ nbits) : (encKeys key nbits g).1 = 40 ∧
      ∀ i ≤ 10, Holds (encKeys key nbits g).2 (4 * i) (Aes.expandKey (.ofBytes key) i) := by
  have hkey := loadKey_holds key hbits g.erk
  unfold encKeys
  generalize forLoop 0 (nbits / 32) _ g.erk = erk at hkey ⊢
  refine forLoop_induction (P := fun n (s : ℕ × (ℕ → BitVec 32)) => s.1 = 4 * n ∧
    ∀ i ≤ n, Holds s.2 (4 * i) (Aes.expandKey (.ofBytes key) i)) (Nat.zero_le _)
    ⟨rfl, fun i hi => ?_⟩ ?_
  · obtain rfl : i = 0 := Nat.le_zero.1 hi
    exact hkey
  · rintro n ⟨_, erk⟩ - hn ⟨rfl, hall⟩
    dsimp only at hall
    rw [expandBody_eq h hn (hall n (Nat.le_refl n))]
    refine ⟨rfl, fun i hi => ?_⟩
    rcases Nat.lt_or_eq_of_le hi with hlt | rfl
    · exact (hall i (by omega)).store (by omega) _
    · exact holds_storeState _ _ _

/-- The tables of the decryption key schedule: the forward S-box before a reverse table. -/
structure KeyTablesOk (g : AesGlobals) : Prop where
  kt0 : ∀ x : Byte, g.kt0 x.toNat = revWord 0 x
  kt1 : ∀ x : Byte, g.kt1 x.toNat = revWord 1 x
  kt2 : ∀ x : Byte, g.kt2 x.toNat = revWord 2 x
  kt3 : ∀ x : Byte, g.kt3 x.toNat = revWord 3 x

theorem ktLoop_ok {g : AesGlobals} (h : TablesOk g) :
    ∃ kt0 kt1 kt2 kt3, forLoop 0 256 ktBody g = { g with kt0, kt1, kt2, kt3 } ∧
      KeyTablesOk { g with kt0, kt1, kt2, kt3 } := by
  have hloop := @forLoop_induction _ 0 256 ktBody g
    (fun n g' => ∃ kt0 kt1 kt2 kt3, g' = { g with kt0, kt1, kt2, kt3 } ∧
      ∀ x : Byte, x.toNat < n → kt0 x.toNat = revWord 0 x ∧ kt1 x.toNat = revWord 1 x ∧
        kt2 x.toNat = revWord 2 x ∧ kt3 x.toNat = revWord 3 x) (Nat.zero_le _)
    ⟨_, _, _, _, rfl, fun x hx => absurd hx (Nat.not_lt_zero _)⟩ ?_
  · obtain ⟨kt0, kt1, kt2, kt3, heq, hall⟩ := hloop
    exact ⟨kt0, kt1, kt2, kt3, heq, fun x => (hall x x.isLt).1, fun x => (hall x x.isLt).2.1,
      fun x => (hall x x.isLt).2.2.1, fun x => (hall x x.isLt).2.2.2⟩
  rintro n _ - hn ⟨kt0, kt1, kt2, kt3, rfl, hall⟩
  obtain ⟨y, rfl⟩ : ∃ y : Byte, y.toNat = n := ⟨BitVec.ofNat 8 n, Nat.mod_eq_of_lt hn⟩
  have hfsb : (g.fsb y.toNat).toNat = (Aes.sbox y).toNat := by
    rw [h.fsb, BitVec.toNat_setWidth_of_le (by decide)]
  refine ⟨_, _, _, _, rfl, fun x hx => ?_⟩
  dsimp only
  rw [hfsb, h.rt0, h.rt1, h.rt2, h.rt3, Aes.invSbox_sbox]
  by_cases hxy : x = y
  · subst hxy
    simp only [Function.update_self, and_self]
  · have hne : x.toNat ≠ y.toNat := fun h => hxy (BitVec.eq_of_toNat_eq h)
    simp only [Function.update_of_ne hne]
    exact hall x (by omega)

theorem mixWord_eq {g : AesGlobals} (h : KeyTablesOk g) (col : Column) :
    mixWord g (word col) = word (Aes.invMixColumn col) := by
  obtain ⟨h0, -, -, -⟩ := look_word g.kt0 col
  obtain ⟨-, h1, -, -⟩ := look_word g.kt1 col
  obtain ⟨-, -, h2, -⟩ := look_word g.kt2 col
  obtain ⟨-, -, -, h3⟩ := look_word g.kt3 col
  rw [mixWord, h0, h1, h2, h3, h.kt0, h.kt1, h.kt2, h.kt3, revWord_sum]

/-- Four words of a state are pushed. -/
theorem push_four {f : BitVec 32 → BitVec 32} {F : Column → Column}
    (hf : ∀ col, f (word col) = word (F col)) {erk : ℕ → BitVec 32} {rk : ℕ} {s : State}
    (hs : Holds erk rk s) (sk : ℕ) (drk : ℕ → BitVec 32) :
    (KeyCopy.push f erk)^[4] ⟨rk, sk, drk⟩ =
      ⟨rk + 4, sk + 4, storeState drk sk fun c => F (s c)⟩ := by
  have h0 : erk rk = word (s 0) := hs 0
  have h1 : erk (rk + 1) = word (s 1) := hs 1
  have h2 : erk (rk + 2) = word (s 2) := hs 2
  have h3 : erk (rk + 3) = word (s 3) := hs 3
  simp only [Function.iterate_succ_apply', Function.iterate_zero_apply, KeyCopy.push,
    Nat.add_assoc, Nat.reduceAdd, h0, h1, h2, h3, hf, storeState,
    Aes.ofEntries, Function.comp_apply]

/-- The words of `drk` that the equivalent inverse cipher wants, up to round `n`. -/
def DrkOk (key : State) (n : ℕ) (drk : ℕ → BitVec 32) : Prop :=
  ∀ i < n, Holds drk (4 * i) (Aes.decKeys (Aes.expandKey key) 9 i)

theorem DrkOk.store {key : State} {n : ℕ} {drk : ℕ → BitVec 32} (h : DrkOk key n drk) :
    DrkOk key (n + 1) (storeState drk (4 * n) (Aes.decKeys (Aes.expandKey key) 9 n)) := by
  intro i hi
  by_cases hin : i = n
  · rw [hin]
    exact holds_storeState _ _ _
  · exact (h i (by omega)).store (by omega) _

/-- **The decryption round keys.** -/
theorem decKeys_ok {g : AesGlobals} (hkt : KeyTablesOk g) (hnr : g.nr = 10) {k : State}
    (herk : ∀ i ≤ 10, Holds g.erk (4 * i) (Aes.expandKey k i)) : DrkOk k 11 (decKeys 40 g).drk := by
  have hid (col : Column) : id (word col) = word (id col) := rfl
  have hfirst : (KeyCopy.push id g.erk)^[4] ⟨40, 0, g.drk⟩ =
      ⟨44, 4, storeState g.drk (4 * 0) (Aes.decKeys (Aes.expandKey k) 9 0)⟩ := by
    rw [Aes.decKeys_first]
    exact push_four hid (herk 10 (Nat.le_refl 10)) 0 g.drk
  have hloop := @forLoop_induction _ 1 10 (decKeyBody g)
    ((KeyCopy.push id g.erk)^[4] ⟨40, 0, g.drk⟩)
    (fun n (c : KeyCopy) => c.rk = 48 - 4 * n ∧ c.sk = 4 * n ∧ DrkOk k n c.drk) (by decide)
    ?_ ?_
  · unfold decKeys
    dsimp only
    rw [hnr]
    generalize forLoop 1 10 (decKeyBody g) _ = c at hloop ⊢
    obtain ⟨hrk, hsk, hdrk⟩ := hloop
    have hlast : (KeyCopy.push id g.erk)^[4] { c with rk := c.rk - 8 } =
        ⟨4, 44, storeState c.drk (4 * 10) (Aes.decKeys (Aes.expandKey k) 9 10)⟩ := by
      rw [hrk, hsk, Aes.decKeys_last]
      exact push_four hid (herk 0 (Nat.zero_le _)) 40 c.drk
    rw [hlast]
    exact hdrk.store
  · rw [hfirst]
    exact ⟨rfl, rfl, DrkOk.store fun i hi => absurd hi (Nat.not_lt_zero i)⟩
  · rintro n ⟨_, _, drk⟩ hpos hn ⟨rfl, rfl, hdrk⟩
    have hkey : Aes.decKeys (Aes.expandKey k) 9 n =
        fun c => Aes.invMixColumn (Aes.expandKey k (10 - n) c) :=
      Aes.decKeys_between _ hpos (by omega)
    have hpush : decKeyBody g n ⟨48 - 4 * n, 4 * n, drk⟩ =
        ⟨4 * (10 - n) + 4, 4 * n + 4, storeState drk (4 * n)
          (Aes.decKeys (Aes.expandKey k) 9 n)⟩ := by
      rw [hkey, ← push_four (mixWord_eq hkt) (herk (10 - n) (by omega)), decKeyBody,
        show 48 - 4 * n - 8 = 4 * (10 - n) by omega]
    have hrk : 4 * (10 - n) + 4 = 48 - 4 * (n + 1) := by omega
    rw [hpush]
    exact ⟨hrk, rfl, hdrk.store⟩

/-! ## The invariant of the global variables -/

/-- The tables hold what they should once their flag says so. -/
structure Ready (g : AesGlobals) : Prop where
  tables : g.doInit = false → TablesOk g
  keyTables : g.ktInit = false → g.doInit = false ∧ KeyTablesOk g

theorem TablesOk.congr {g g' : AesGlobals} (h : TablesOk g) (hfsb : g'.fsb = g.fsb)
    (hrsb : g'.rsb = g.rsb) (h0 : g'.rt0 = g.rt0) (h1 : g'.rt1 = g.rt1) (h2 : g'.rt2 = g.rt2)
    (h3 : g'.rt3 = g.rt3) (hrcon : g'.rcon = g.rcon) : TablesOk g' where
  fsb := hfsb ▸ h.fsb
  rsb := hrsb ▸ h.rsb
  rt0 := h0 ▸ h.rt0
  rt1 := h1 ▸ h.rt1
  rt2 := h2 ▸ h.rt2
  rt3 := h3 ▸ h.rt3
  rcon := hrcon ▸ h.rcon

theorem initTables_ok {g : AesGlobals} (h : Ready g) (pow log : ℕ → Byte) :
    TablesOk (initTables pow log g) ∧ (initTables pow log g).doInit = false ∧
      ((initTables pow log g).ktInit = false → KeyTablesOk (initTables pow log g)) := by
  unfold initTables
  by_cases hinit : g.doInit = true
  · obtain ⟨htables, -, hkt⟩ := aesGenTables_ok pow log g
    rw [if_pos hinit]
    refine ⟨htables.congr rfl rfl rfl rfl rfl rfl rfl, rfl, fun hfalse => ?_⟩
    have hdone := (h.keyTables (hkt.symm.trans hfalse)).1
    rw [hinit] at hdone
    cases hdone
  · rw [if_neg hinit]
    have hdone := Bool.eq_false_iff.2 hinit
    exact ⟨h.tables hdone, hdone, fun hfalse => (h.keyTables hfalse).2⟩

theorem initKeyTables_ok {g : AesGlobals} (h : TablesOk g)
    (hkt : g.ktInit = false → KeyTablesOk g) :
    ∃ kt0 kt1 kt2 kt3, initKeyTables g = { g with ktInit := false, kt0, kt1, kt2, kt3 } ∧
      KeyTablesOk { g with ktInit := false, kt0, kt1, kt2, kt3 } := by
  unfold initKeyTables
  by_cases hinit : g.ktInit = true
  · obtain ⟨kt0, kt1, kt2, kt3, heq, hok⟩ := ktLoop_ok h
    rw [if_pos hinit, heq]
    exact ⟨kt0, kt1, kt2, kt3, rfl, hok.1, hok.2, hok.3, hok.4⟩
  · have hdone := Bool.eq_false_iff.2 hinit
    have hok := hkt hdone
    rw [if_neg hinit]
    refine ⟨g.kt0, g.kt1, g.kt2, g.kt3, ?_, hok.1, hok.2, hok.3, hok.4⟩
    rw [← hdone]

/-- **Setting a key.** Whatever was called before, the tables are there afterwards and the round
keys are those of the first 128 bits of the key. -/
theorem aesSetKey_ok {g : AesGlobals} (h : Ready g) (pow log : ℕ → Byte) (key : List Byte)
    {nbits : ℕ} (hbits : 128 ≤ nbits) :
    Ready (aesSetKey pow log key nbits g) ∧ TablesOk (aesSetKey pow log key nbits g) ∧
      DrkOk (.ofBytes key) 11 (aesSetKey pow log key nbits g).drk := by
  obtain ⟨htables, hinit, hkt⟩ := initTables_ok h pow log
  unfold aesSetKey
  dsimp only
  generalize initTables pow log g = g₁ at htables hinit hkt ⊢
  obtain ⟨hrk, herk⟩ := encKeys_ok htables key hbits
  generalize encKeys key nbits g₁ = keys at hrk herk ⊢
  obtain ⟨rk, erk⟩ := keys
  obtain rfl : rk = 40 := hrk
  obtain ⟨kt0, kt1, kt2, kt3, heq, hok⟩ := @initKeyTables_ok { g₁ with nr := 10, erk }
    (htables.congr rfl rfl rfl rfl rfl rfl rfl) fun hfalse =>
      ⟨(hkt hfalse).1, (hkt hfalse).2, (hkt hfalse).3, (hkt hfalse).4⟩
  dsimp only
  rw [heq]
  have htables' := @TablesOk.congr _
    (decKeys 40 { g₁ with nr := 10, erk, ktInit := false, kt0, kt1, kt2, kt3 })
    htables rfl rfl rfl rfl rfl rfl rfl
  exact ⟨⟨fun _ => htables', fun _ => ⟨hinit, hok.1, hok.2, hok.3, hok.4⟩⟩, htables',
    decKeys_ok hok rfl herk⟩

/-! ## A block -/

/-- The words of a state. -/
def wordsOf (s : State) : Words := Aes.ofEntries Words.mk (word ∘ s)

theorem putUint32_wordsOf (s : State) : putUint32 (wordsOf s).x0 ++ putUint32 (wordsOf s).x1 ++
    putUint32 (wordsOf s).x2 ++ putUint32 (wordsOf s).x3 = s.bytes := by
  simp only [wordsOf, Aes.ofEntries, Function.comp_apply, putUint32_word]
  rfl

theorem revColumn {g : AesGlobals} (h : TablesOk g) (k col : Column) :
    word k ^^^ g.rt0 (col 0).toNat ^^^ g.rt1 (col 1).toNat ^^^ g.rt2 (col 2).toNat ^^^
      g.rt3 (col 3).toNat =
    word fun r => Aes.invMixColumn (fun r => Aes.invSbox (col r)) r ^^^ k r := by
  have hsum (a b c d e : BitVec 32) : a ^^^ b ^^^ c ^^^ d ^^^ e = b ^^^ c ^^^ d ^^^ e ^^^ a := by
    ac_rfl
  rw [h.rt0, h.rt1, h.rt2, h.rt3, word_xor, ← revWord_sum]
  exact hsum ..

theorem lastColumn {g : AesGlobals} (h : TablesOk g) (k col : Column) :
    word k ^^^ g.rsb (col 0).toNat <<< 24 ^^^ g.rsb (col 1).toNat <<< 16 ^^^
      g.rsb (col 2).toNat <<< 8 ^^^ g.rsb (col 3).toNat =
    word fun r => Aes.invSbox (col r) ^^^ k r := by
  have hsum (a b c d e : BitVec 32) : a ^^^ b ^^^ c ^^^ d ^^^ e = b ^^^ c ^^^ d ^^^ e ^^^ a := by
    ac_rfl
  rw [h.rsb, h.rsb, h.rsb, h.rsb, word_xor]
  exact hsum ..

/-- A round on words is a round of the equivalent inverse cipher. -/
theorem aesRround_wordsOf {g : AesGlobals} (h : TablesOk g) {rk : ℕ} {k : State}
    (hk : Holds g.drk rk k) (s : State) : aesRround g rk (wordsOf s) =
      wordsOf (Aes.addRoundKey k (Aes.invMixColumns (Aes.invShiftRows (Aes.invSubBytes s)))) := by
  have h0 : g.drk rk = word (k 0) := hk 0
  have h1 : g.drk (rk + 1) = word (k 1) := hk 1
  have h2 : g.drk (rk + 2) = word (k 2) := hk 2
  have h3 : g.drk (rk + 3) = word (k 3) := hk 3
  have hcol (c : Fin 4) := revColumn h (k c) fun r => s (c - r) r
  simp only [aesRround, wordsOf, Aes.ofEntries, Function.comp_apply, h0, h1, h2, h3, look_word]
  exact congr (congr (congr (congrArg Words.mk (hcol 0)) (hcol 1)) (hcol 2)) (hcol 3)

theorem lastRound_wordsOf {g : AesGlobals} (h : TablesOk g) {rk : ℕ} {k : State}
    (hk : Holds g.drk rk k) (s : State) : lastRound g rk (wordsOf s) =
      wordsOf (Aes.addRoundKey k (Aes.invShiftRows (Aes.invSubBytes s))) := by
  have h0 : g.drk rk = word (k 0) := hk 0
  have h1 : g.drk (rk + 1) = word (k 1) := hk 1
  have h2 : g.drk (rk + 2) = word (k 2) := hk 2
  have h3 : g.drk (rk + 3) = word (k 3) := hk 3
  have hcol (c : Fin 4) := lastColumn h (k c) fun r => s (c - r) r
  simp only [lastRound, wordsOf, Aes.ofEntries, Function.comp_apply, h0, h1, h2, h3, look_word]
  exact congr (congr (congr (congrArg Words.mk (hcol 0)) (hcol 1)) (hcol 2)) (hcol 3)

/-- **The tables decrypt**: a block goes through the inverse cipher. -/
theorem aesDecrypt_eq {g : AesGlobals} (h : TablesOk g) {k : State} (hdrk : DrkOk k 11 g.drk)
    (input : List Byte) : aesDecrypt g input = (Aes.decrypt k (.ofBytes input)).bytes := by
  have hstart : (⟨getUint32 input 0 ^^^ g.drk 0, getUint32 input 4 ^^^ g.drk 1,
      getUint32 input 8 ^^^ g.drk 2, getUint32 input 12 ^^^ g.drk 3⟩ : Words) =
        wordsOf (Aes.eqInvRounds (Aes.decKeys (Aes.expandKey k) 9) 0 (.ofBytes input)) := by
    have hk := hdrk 0 (by decide)
    have h0 : g.drk 0 = word _ := hk 0
    have h1 : g.drk 1 = word _ := hk 1
    have h2 : g.drk 2 = word _ := hk 2
    have h3 : g.drk 3 = word _ := hk 3
    simp only [h0, h1, h2, h3, getUint32_eq, ← word_xor]
    rfl
  have hloop := @forLoop_induction _ 1 10
    (fun _ s => (s.1 + 4, aesRround g (s.1 + 4) s.2))
    (0, wordsOf (Aes.eqInvRounds (Aes.decKeys (Aes.expandKey k) 9) 0 (.ofBytes input)))
    (fun n (s : ℕ × Words) => s = (4 * (n - 1),
      wordsOf (Aes.eqInvRounds (Aes.decKeys (Aes.expandKey k) 9) (n - 1) (.ofBytes input))))
    (by decide) rfl ?_
  · have hlast := lastRound_wordsOf h (hdrk 10 (by decide))
      (Aes.eqInvRounds (Aes.decKeys (Aes.expandKey k) 9) 9 (.ofBytes input))
    rw [Aes.decrypt, ← Aes.eqInvCipher_decKeys, Aes.eqInvCipher]
    unfold aesDecrypt
    dsimp only
    rw [hstart, hloop, hlast, putUint32_wordsOf]
  · rintro n _ hpos hn rfl
    obtain ⟨m, rfl⟩ : ∃ m, n = m + 1 := ⟨n - 1, by omega⟩
    have hround := aesRround_wordsOf h (hdrk (m + 1) (by omega))
      (Aes.eqInvRounds (Aes.decKeys (Aes.expandKey k) 9) m (.ofBytes input))
    exact Prod.ext rfl hround

/-! ## Any number of calls -/

/-- A call of `aes_set_key`, and what is on the stack. -/
structure SetKey where
  pow : ℕ → Byte
  log : ℕ → Byte
  key : List Byte
  nbits : ℕ

def SetKey.run (g : AesGlobals) (c : SetKey) : AesGlobals :=
  aesSetKey c.pow c.log c.key c.nbits g

/-- At the start. -/
theorem ready_of_init {g : AesGlobals} (hdo : g.doInit = true) (hkt : g.ktInit = true) :
    Ready g where
  tables h := absurd (hdo.symm.trans h) (by decide)
  keyTables h := absurd (hkt.symm.trans h) (by decide)

theorem Ready.run {g : AesGlobals} (h : Ready g) {calls : List SetKey}
    (hbits : ∀ c ∈ calls, 128 ≤ c.nbits) : Ready (calls.foldl SetKey.run g) := by
  induction calls generalizing g with
  | nil => exact h
  | cons c calls ih =>
    have hc := (aesSetKey_ok h c.pow c.log c.key (hbits c List.mem_cons_self)).1
    exact ih hc fun c' hc' => hbits c' (List.mem_cons_of_mem c hc')

/-- **Any number of keys.** Whatever keys were set before, of whatever length, and whatever was on
the stack: what the cipher makes of a block with the first 128 bits of the last key, `aes_decrypt`
takes back. -/
theorem aesDecrypt_encrypt {g : AesGlobals} (hdo : g.doInit = true) (hkt : g.ktInit = true)
    (calls : List SetKey) (last : SetKey) (hbits : ∀ c ∈ calls, 128 ≤ c.nbits)
    (hlast : 128 ≤ last.nbits) (s : State) :
    aesDecrypt (last.run (calls.foldl SetKey.run g)) (Aes.encrypt (.ofBytes last.key) s).bytes =
      s.bytes := by
  obtain ⟨-, htables, hdrk⟩ := aesSetKey_ok ((ready_of_init hdo hkt).run hbits) last.pow last.log
    last.key hlast
  rw [SetKey.run, aesDecrypt_eq htables hdrk, State.ofBytes_bytes, Aes.decrypt_encrypt]

/-- The global variables at the start. -/
def startGlobals : AesGlobals where
  erk _ := 0
  drk _ := 0
  nr := 0
  fsb _ := 0
  ft0 _ := 0
  ft1 _ := 0
  ft2 _ := 0
  ft3 _ := 0
  rsb _ := 0
  rt0 _ := 0
  rt1 _ := 0
  rt2 _ := 0
  rt3 _ := 0
  rcon _ := 0
  doInit := true
  ktInit := true
  kt0 _ := 0
  kt1 _ := 0
  kt2 _ := 0
  kt3 _ := 0

/-- A key of 256 bits before one of 128, which then enciphers itself. -/
theorem aesDecrypt_encrypt_second :
    aesDecrypt (SetKey.run (SetKey.run startGlobals ⟨fun _ => 7, fun _ => 9, key ++ key, 256⟩)
      ⟨fun _ => 0, fun _ => 0, key, 128⟩) (Aes.encrypt (.ofBytes key) (.ofBytes key)).bytes =
        (State.ofBytes key).bytes :=
  aesDecrypt_encrypt (g := startGlobals) rfl rfl [⟨fun _ => 7, fun _ => 9, key ++ key, 256⟩]
    ⟨fun _ => 0, fun _ => 0, key, 128⟩ (by simp) (Nat.le_refl 128) (.ofBytes key)

/-! ## Decrypt -/

/-- The blocks that `Decrypt` goes over. -/
def blockCount (size : BitVec 32) : ℕ := (size.toNat / 4 + 3) / 4

/-- `Decrypt` takes the blocks at `DestAddr` through the inverse cipher and puts them at
`SrcAddr`. -/
theorem decrypt_eq_mapBlocks {g : AesGlobals} (h : Ready g) (pow log : ℕ → Byte)
    (srcAddr destAddr : BitVec w) (size : BitVec 32) (mem : Mem w) :
    (decrypt pow log srcAddr destAddr size g mem).2 = Touched.mapBlocks { mem }
      (fun bs => (Aes.decrypt (.ofBytes key) (.ofBytes bs)).bytes) 16 destAddr srcAddr
      (blockCount size) := by
  obtain ⟨-, htables, hdrk⟩ := aesSetKey_ok h pow log key (Nat.le_refl 128)
  have hsize : (size >>> 2).toNat = size.toNat / 4 := by
    rw [BitVec.toNat_ushiftRight, Nat.shiftRight_eq_div_pow]
  have hsteps : List.range' 0 (blockCount size) 4 = (List.range (blockCount size)).map (4 * ·) := by
    refine List.ext_getElem (by simp) fun i _ _ => ?_
    simp
  have hblock (i : ℕ) : 4 * (4 * i) = 16 * i := by omega
  rw [← Touched.mapBlocks_congr _ _ _ fun bs _ => aesDecrypt_eq htables hdrk bs]
  simp only [decrypt, hsize]
  rw [show (size.toNat / 4 + 3) / 4 = blockCount size from rfl, hsteps, List.foldl_map,
    Touched.mapBlocks]
  simp only [hblock]

/-- **Decryption in place.** Of what was encrypted with `key`, `Decrypt` leaves the plain blocks,
and nothing else has changed. -/
theorem decrypt_in_place {g : AesGlobals} (h : Ready g) (hw : 32 ≤ w) (pow log : ℕ → Byte)
    (p : BitVec w) (size : BitVec 32) {mem : Mem w} {plain : ℕ → State}
    (henc : ∀ i < blockCount size, read mem (p + BitVec.ofNat w (16 * i)) 16 =
      (Aes.encrypt (.ofBytes key) (plain i)).bytes) :
    (∀ i < blockCount size, read (decrypt pow log p p size g mem).2.mem
        (p + BitVec.ofNat w (16 * i)) 16 = (plain i).bytes) ∧
      ∀ a ∉ block p (16 * blockCount size), (decrypt pow log p p size g mem).2.mem a = mem a := by
  have hlen (bs : List Byte) (_ : bs.length = 16) :
      ((Aes.decrypt (.ofBytes key) (.ofBytes bs)).bytes).length = 16 := State.length_bytes _
  have hcount : blockCount size ≤ (size.toNat + 15) / 16 := by
    rw [blockCount]
    omega
  have hfits : 16 * blockCount size ≤ 2 ^ w :=
    (mul_blocks_le size hcount).trans (Nat.pow_le_pow_right (by decide) hw)
  rw [decrypt_eq_mapBlocks h]
  refine ⟨fun i hi => ?_, fun a ha => Touched.mapBlocks_frame _ p p hlen ha⟩
  rw [Touched.mapBlocks_read _ p hlen hfits hi, henc i hi, State.ofBytes_bytes,
    Aes.decrypt_encrypt]

/-- Two encrypted blocks. -/
theorem decrypt_in_place_two : ∃ mem : Mem 64,
    let m := (decrypt (fun _ => 0) (fun _ => 0) 0x43C00000 0x43C00000 32 startGlobals mem).2.mem
    read m 0x43C00000 16 = (State.ofBytes key).bytes ∧
      read m 0x43C00010 16 = (State.ofBytes key.reverse).bytes := by
  let plain (i : ℕ) : State := if i = 0 then .ofBytes key else .ofBytes key.reverse
  let cipher (i : ℕ) : List Byte := (Aes.encrypt (.ofBytes key) (plain i)).bytes
  have hlen (i : ℕ) : (cipher i).length = 16 := State.length_bytes _
  let mem : Mem 64 := write (write (fun _ => 0) 0x43C00000 (cipher 0)) 0x43C00010 (cipher 1)
  have hself (m : Mem 64) (p : BitVec 64) (i : ℕ) :
      read (write m p (cipher i)) p 16 = cipher i := by
    rw [← hlen i, read_write_self _ _ (by rw [hlen]; decide)]
  have hfirst : read mem 0x43C00000 16 = cipher 0 := by
    rw [read_write_of_disjoint, hself]
    rw [hlen]
    exact (disjoint_block_of_le (by decide) (by decide)).symm
  have henc : ∀ i < blockCount 32, read mem (0x43C00000 + BitVec.ofNat 64 (16 * i)) 16 =
      cipher i := by
    intro i hi
    have htwo : i < 2 := hi
    obtain rfl | rfl : i = 0 ∨ i = 1 := by omega
    · exact hfirst
    · exact hself _ _ 1
  have h := (decrypt_in_place (ready_of_init (g := startGlobals) rfl rfl) (by decide)
    (fun _ => 0) (fun _ => 0) _ 32 henc).1
  exact ⟨mem, h 0 (by decide), h 1 (by decide)⟩

/-- An engine with the key. -/
def Decodes (aes : AesEngine) : Prop :=
  ∀ bs, bs.length = 16 → aesBytes aes bs = (Aes.decrypt (.ofBytes key) (.ofBytes bs)).bytes

/-- **With or without the engine.** With the same key, both `Decrypt` do the same, but for two
things: the one without the engine has source and destination the other way round, and it leaves
the last block if it has no whole word of it. (A size that wraps when it is rounded up makes the one
with the engine do nothing.) -/
theorem decrypt_agrees_iff {g : AesGlobals} (h : Ready g) {aes : AesEngine} (haes : Decodes aes)
    (pow log : ℕ → Byte) (p q : BitVec w) (size : BitVec 32) (mem : Mem w) :
    (decrypt pow log q p size g mem).2 = Gec6818Bl1.decrypt aes p q size mem ↔
      size.toNat ≤ 2 ^ 32 - 16 ∧ (size.toNat % 16 = 0 ∨ 4 ≤ size.toNat % 16) := by
  have hcount : blockCount size = Gec6818Bl1.blockCount size ↔
      size.toNat ≤ 2 ^ 32 - 16 ∧ (size.toNat % 16 = 0 ∨ 4 ≤ size.toNat % 16) := by
    have := size.isLt
    have hsum : (size + 15).toNat = (size.toNat + 15) % 2 ^ 32 := BitVec.toNat_add ..
    rw [blockCount, Gec6818Bl1.blockCount, hsum]
    omega
  rw [decrypt_eq_mapBlocks h, Gec6818Bl1.decrypt_eq_mapBlocks,
    Touched.mapBlocks_congr _ _ _ haes, ← hcount]
  refine ⟨fun heq => ?_, fun heq => by rw [heq]⟩
  have hloads := congrArg (fun t : Touched w => t.loads.length) heq
  simpa only [Touched.length_loads_mapBlocks, List.length_nil, Nat.zero_add] using hloads

/-- An engine that does. -/
def keyedEngine : AesEngine := fun x =>
  AesWords.ofBytes (Aes.decrypt (.ofBytes key) (.ofBytes x.bytes)).bytes

theorem keyedEngine_decodes : Decodes keyedEngine := by
  intro bs hbs
  have hout := State.length_bytes (Aes.decrypt (.ofBytes key) (.ofBytes bs))
  calc aesBytes keyedEngine bs
      = aesBytes id (Aes.decrypt (.ofBytes key) (.ofBytes (aesBytes id bs))).bytes := rfl
    _ = (Aes.decrypt (.ofBytes key) (.ofBytes bs)).bytes := by
      rw [aesBytes_id hbs, aesBytes_id hout]

theorem decrypt_agrees_512 :
    (decrypt (fun _ => 0) (fun _ => 0) 0x43C00400 0x43C00400 512 startGlobals
      (fun _ => 0 : Mem 64)).2 =
        Gec6818Bl1.decrypt keyedEngine 0x43C00400 0x43C00400 512 (fun _ => 0 : Mem 64) :=
  (decrypt_agrees_iff (ready_of_init (g := startGlobals) rfl rfl) keyedEngine_decodes _ _ _ _ _
    _).2 (by decide)

end Gec6818Bl1.SoftCrypto
