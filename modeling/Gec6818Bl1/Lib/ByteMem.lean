import Mathlib.Data.Set.Basic
import Mathlib.Order.Disjoint
import Mathlib.Order.CompletePartialOrder
import Mathlib.Data.Set.Lattice
import Mathlib.Data.List.GetD
import Mathlib.Tactic.IntervalCases

/-!
# Byte-addressed memory

A memory is a byte at every address of a `w`-bit address space. Addresses wrap, as pointer
arithmetic does on the hardware.

* `block p n` is the set of the `n` addresses from `p` on, and `write m p bs` stores the bytes
  `bs` there. Everything about a store is read off the *offset* `(a - p).toNat` of an address
  from its base: `offset_add` moves the base, `write_append` splits a store in two.
* `load32`, `load64` and `leBytes` are the little-endian words.
* `Traced` is a memory with the list of the stores that made it, for programs whose stores are
  themselves what a theorem is about. `copyWords` is the word-by-word copy loop over it.
-/

namespace ByteMem

abbrev Byte := BitVec 8

/-- A byte at every address of a `w`-bit address space. -/
abbrev Mem (w : ℕ) := BitVec w → Byte

variable {w : ℕ}

/-! ## Offsets -/

/-- How far `a` lies after `p`, wrapping at the end of the address space. -/
def offset (p a : BitVec w) : ℕ := (a - p).toNat

theorem offset_lt (p a : BitVec w) : offset p a < 2 ^ w := (a - p).isLt

@[simp] theorem offset_self (p : BitVec w) : offset p p = 0 := by simp [offset]

theorem offset_of_le {p a : BitVec w} (h : p.toNat ≤ a.toNat) :
    offset p a = a.toNat - p.toNat :=
  BitVec.toNat_sub_of_le (BitVec.le_def.2 h)

theorem offset_of_lt {p a : BitVec w} (h : a.toNat < p.toNat) :
    offset p a = 2 ^ w - p.toNat + a.toNat := by
  have hp := p.isLt
  rw [offset, BitVec.toNat_sub, Nat.mod_eq_of_lt (by omega)]

theorem offset_add_ofNat (p : BitVec w) {k : ℕ} (hk : k < 2 ^ w) :
    offset p (p + BitVec.ofNat w k) = k := by
  rw [offset, BitVec.add_comm, BitVec.add_sub_cancel, BitVec.toNat_ofNat, Nat.mod_eq_of_lt hk]

theorem add_offset (p a : BitVec w) : p + BitVec.ofNat w (offset p a) = a := by
  rw [offset, BitVec.ofNat_toNat, BitVec.setWidth_eq, BitVec.add_comm, BitVec.sub_add_cancel]

theorem ofNat_add (p : BitVec w) (i j : ℕ) :
    p + BitVec.ofNat w i + BitVec.ofNat w j = p + BitVec.ofNat w (i + j) := by
  rw [BitVec.add_assoc, ← BitVec.ofNat_add]

theorem offset_base_add (p a : BitVec w) (k : ℕ) :
    offset (p + BitVec.ofNat w k) a = (2 ^ w - k % 2 ^ w + offset p a) % 2 ^ w := by
  have h : a - (p + BitVec.ofNat w k) = (a - p) - BitVec.ofNat w k := by
    simp only [BitVec.sub_eq_add_neg, BitVec.neg_add]
    ac_rfl
  rw [offset, h, BitVec.toNat_sub, BitVec.toNat_ofNat, offset]

/-- The offset from a base moved up by `k`, for an address at or after the new base. -/
theorem offset_add_of_le {p a : BitVec w} {k : ℕ} (h : k ≤ offset p a) :
    offset (p + BitVec.ofNat w k) a = offset p a - k := by
  have hlt := offset_lt p a
  rw [offset_base_add, Nat.mod_eq_of_lt (by omega : k < 2 ^ w)]
  have : 2 ^ w - k + offset p a = 2 ^ w + (offset p a - k) := by omega
  rw [this, Nat.add_mod_left, Nat.mod_eq_of_lt (by omega)]

/-- The offset from a base moved up by `k`, for an address before the new base. -/
theorem offset_add_of_lt {p a : BitVec w} {k : ℕ} (hk : k < 2 ^ w) (h : offset p a < k) :
    offset (p + BitVec.ofNat w k) a = 2 ^ w + offset p a - k := by
  rw [offset_base_add, Nat.mod_eq_of_lt hk, Nat.mod_eq_of_lt (by omega)]
  omega

/-! ## Blocks of addresses -/

/-- The `n` addresses from `p` on. -/
def block (p : BitVec w) (n : ℕ) : Set (BitVec w) := {a | offset p a < n}

@[simp] theorem mem_block {p a : BitVec w} {n : ℕ} : a ∈ block p n ↔ offset p a < n := Iff.rfl

@[simp] theorem block_zero (p : BitVec w) : block p 0 = ∅ := by
  ext a; simp

theorem add_mem_block (p : BitVec w) {k n : ℕ} (h : k < n) : p + BitVec.ofNat w k ∈ block p n := by
  rw [mem_block, offset, BitVec.add_comm, BitVec.add_sub_cancel, BitVec.toNat_ofNat]
  exact lt_of_le_of_lt (Nat.mod_le _ _) h

theorem self_mem_block (p : BitVec w) {n : ℕ} (h : 0 < n) : p ∈ block p n := by
  rwa [mem_block, offset_self]

theorem block_mono {p : BitVec w} {m n : ℕ} (h : m ≤ n) : block p m ⊆ block p n :=
  fun _ ha => lt_of_lt_of_le ha h

/-- A block is its first `m` addresses and the rest. -/
theorem block_add (p : BitVec w) (m n : ℕ) :
    block p (m + n) = block p m ∪ block (p + BitVec.ofNat w m) n := by
  ext a
  simp only [mem_block, Set.mem_union]
  rcases Nat.lt_or_ge (offset p a) m with hlt | hge
  · simp only [hlt, true_or, iff_true]
    omega
  · rw [offset_add_of_le hge]
    omega

/-- A block inside another one, given by its offset. -/
theorem block_sub (p : BitVec w) {k m n : ℕ} (hk : k + m ≤ n) :
    block (p + BitVec.ofNat w k) m ⊆ block p n := by
  intro a ha
  rw [mem_block] at ha ⊢
  rcases Nat.lt_or_ge (offset p a) k with hlt | hge
  · omega
  · rw [offset_add_of_le hge] at ha
    omega

/-- Two blocks at different offsets from one base do not meet. -/
theorem disjoint_block_add (p : BitVec w) {i m j n : ℕ} (h : i + m ≤ j) (hw : j + n ≤ 2 ^ w) :
    Disjoint (block (p + BitVec.ofNat w i) m) (block (p + BitVec.ofNat w j) n) := by
  refine Set.disjoint_left.2 fun a ha hb => ?_
  rw [mem_block] at ha hb
  rcases Nat.lt_or_ge (offset p a) i with hlt | hge
  · rw [offset_add_of_lt (by omega) hlt] at ha
    omega
  · rw [offset_add_of_le hge] at ha
    rw [offset_add_of_lt (by omega) (by omega)] at hb
    omega

/-- One block ends before the other begins. -/
theorem disjoint_block_of_le {p q : BitVec w} {m n : ℕ} (h : p.toNat + m ≤ q.toNat)
    (hw : q.toNat + n ≤ 2 ^ w) : Disjoint (block p m) (block q n) := by
  refine Set.disjoint_left.2 fun a ha hb => ?_
  rw [mem_block] at ha hb
  rcases Nat.lt_or_ge a.toNat q.toNat with hlt | hge
  · rw [offset_of_lt hlt] at hb
    omega
  · rw [offset_of_le (by omega)] at ha
    omega

/-! ## Stores -/

/-- Store the bytes `bs` at consecutive addresses from `p` on. -/
def write (m : Mem w) (p : BitVec w) (bs : List Byte) : Mem w :=
  fun a => bs.getD (offset p a) (m a)

@[simp] theorem write_nil (m : Mem w) (p : BitVec w) : write m p [] = m := by
  funext a; simp [write]

theorem write_of_lt (m : Mem w) {p a : BitVec w} {bs : List Byte} (h : offset p a < bs.length) :
    write m p bs a = bs[offset p a] := by
  simp [write, h]

theorem write_add (m : Mem w) (p : BitVec w) {bs : List Byte} {k : ℕ} (hk : k < bs.length)
    (hw : bs.length ≤ 2 ^ w) : write m p bs (p + BitVec.ofNat w k) = bs[k] := by
  have hoff := offset_add_ofNat p (lt_of_lt_of_le hk hw)
  rw [write_of_lt m (by rw [hoff]; exact hk)]
  simp only [hoff]

/-- A store changes no address outside its block. -/
theorem write_of_not_mem (m : Mem w) {p a : BitVec w} {bs : List Byte}
    (h : a ∉ block p bs.length) : write m p bs a = m a := by
  rw [mem_block, Nat.not_lt] at h
  simp [write, List.getElem?_eq_none h]

/-- Two stores one after the other are one store. -/
theorem write_append (m : Mem w) (p : BitVec w) {as bs : List Byte}
    (h : as.length + bs.length ≤ 2 ^ w) :
    write (write m p as) (p + BitVec.ofNat w as.length) bs = write m p (as ++ bs) := by
  funext a
  rcases Nat.lt_or_ge (offset p a) as.length with hlt | hge
  · have hout : a ∉ block (p + BitVec.ofNat w as.length) bs.length := by
      have := offset_lt p a
      rcases Nat.eq_zero_or_pos bs.length with h0 | h0
      · simp [h0]
      · rw [mem_block, offset_add_of_lt (by omega) hlt]
        omega
    rw [write_of_not_mem _ hout]
    simp [write, List.getElem?_append_left hlt, hlt]
  · simp [write, offset_add_of_le hge, List.getElem?_append_right hge, List.getElem?_eq_none hge]

/-- A store changes a byte in a way that depends on that byte only. -/
theorem write_congr {m m' : Mem w} {a : BitVec w} (h : m a = m' a) (p : BitVec w)
    (bs : List Byte) : write m p bs a = write m' p bs a := by
  rw [write, write, h]

theorem write_of_mem (m m' : Mem w) {p a : BitVec w} {bs : List Byte}
    (h : a ∈ block p bs.length) : write m p bs a = write m' p bs a := by
  rw [write_of_lt m h, write_of_lt m' h]

/-- The `n` bytes from `p` on. -/
def read (m : Mem w) (p : BitVec w) (n : ℕ) : List Byte :=
  (List.range n).map fun i => m (p + BitVec.ofNat w i)

@[simp] theorem length_read (m : Mem w) (p : BitVec w) (n : ℕ) : (read m p n).length = n := by
  simp [read]

@[simp] theorem getElem_read (m : Mem w) (p : BitVec w) {n i : ℕ} (h : i < (read m p n).length) :
    (read m p n)[i] = m (p + BitVec.ofNat w i) := by
  simp [read]

theorem read_add (m : Mem w) (p : BitVec w) (j n : ℕ) :
    read m p (j + n) = read m p j ++ read m (p + BitVec.ofNat w j) n := by
  simp only [read, List.range_add, List.map_append, List.map_map, List.append_cancel_left_eq]
  exact List.map_congr_left fun i _ => by simp only [Function.comp, ofNat_add]

theorem take_read (m : Mem w) (p : BitVec w) (k n : ℕ) :
    (read m p n).take k = read m p (min k n) := by
  rw [read, ← List.map_take, List.take_range, read]

/-- To store what is there changes nothing. -/
theorem write_read (m : Mem w) (p : BitVec w) (n : ℕ) : write m p (read m p n) = m := by
  funext a
  by_cases h : offset p a < (read m p n).length
  · rw [write_of_lt m h, getElem_read, add_offset]
  · exact write_of_not_mem m h

/-- What is read depends only on the bytes of the block. -/
theorem read_congr {m m' : Mem w} {p : BitVec w} {n : ℕ} (h : ∀ a ∈ block p n, m a = m' a) :
    read m p n = read m' p n :=
  List.map_congr_left fun _ hi => h _ (add_mem_block p (List.mem_range.1 hi))

theorem read_write_of_disjoint (m : Mem w) {p q : BitVec w} {bs : List Byte} {n : ℕ}
    (h : Disjoint (block p bs.length) (block q n)) : read (write m p bs) q n = read m q n :=
  read_congr fun _ ha => write_of_not_mem m (Set.disjoint_right.1 h ha)

/-- What is stored is read back. -/
theorem read_write_self (m : Mem w) (p : BitVec w) {bs : List Byte} (h : bs.length ≤ 2 ^ w) :
    read (write m p bs) p bs.length = bs := by
  refine List.ext_getElem (length_read _ _ _) fun i hi hi' => ?_
  rw [getElem_read, write_add m p hi' h]

/-! ## Little-endian words -/

/-- The word with the bytes `b0` (lowest) to `b3`. -/
def leWord (b0 b1 b2 b3 : Byte) : BitVec 32 := b3 ++ b2 ++ b1 ++ b0

/-- The bytes of a word, lowest first. -/
def leBytes (x : BitVec 32) : List Byte :=
  [x.extractLsb' 0 8, x.extractLsb' 8 8, x.extractLsb' 16 8, x.extractLsb' 24 8]

@[simp] theorem length_leBytes (x : BitVec 32) : (leBytes x).length = 4 := rfl

theorem leBytes_leWord (b0 b1 b2 b3 : Byte) : leBytes (leWord b0 b1 b2 b3) = [b0, b1, b2, b3] := by
  simp only [leBytes, leWord, List.cons.injEq, and_true]
  refine ⟨?_, ?_, ?_, ?_⟩ <;> ext i hi <;>
    simp only [BitVec.getElem_extractLsb', BitVec.getLsbD_append] <;> grind

theorem leWord_leBytes (x : BitVec 32) :
    leWord (x.extractLsb' 0 8) (x.extractLsb' 8 8) (x.extractLsb' 16 8) (x.extractLsb' 24 8) =
      x := by
  have hjoin (lo n m : ℕ) :
      x.extractLsb' (lo + n) m ++ x.extractLsb' lo n = x.extractLsb' lo (m + n) :=
    BitVec.extractLsb'_append_extractLsb'_eq_extractLsb' rfl
  rw [leWord, hjoin 16 8, hjoin 8 8, hjoin 0 8, BitVec.extractLsb'_eq_self]

/-- The bytes of consecutive words. -/
def wordBytes (xs : List (BitVec 32)) : List Byte := xs.flatMap leBytes

@[simp] theorem length_wordBytes (xs : List (BitVec 32)) :
    (wordBytes xs).length = 4 * xs.length := by
  induction xs with
  | nil => rfl
  | cons x xs ih =>
    rw [wordBytes, List.flatMap_cons, List.length_append, ← wordBytes, ih, length_leBytes,
      List.length_cons, Nat.mul_succ, Nat.add_comm]

theorem wordBytes_cons (x : BitVec 32) (xs : List (BitVec 32)) :
    wordBytes (x :: xs) = leBytes x ++ wordBytes xs := List.flatMap_cons

theorem wordBytes_singleton (x : BitVec 32) : wordBytes [x] = leBytes x :=
  List.flatMap_singleton _ _

theorem wordBytes_append (xs ys : List (BitVec 32)) :
    wordBytes (xs ++ ys) = wordBytes xs ++ wordBytes ys :=
  List.flatMap_append

/-- The words that consecutive bytes make up; what is left of a last one is dropped. -/
def toWords : List Byte → List (BitVec 32)
  | b0 :: b1 :: b2 :: b3 :: bs => leWord b0 b1 b2 b3 :: toWords bs
  | _ => []

theorem toWords_wordBytes (xs : List (BitVec 32)) : toWords (wordBytes xs) = xs := by
  induction xs with
  | nil => rfl
  | cons x xs ih =>
    show toWords (leBytes x ++ wordBytes xs) = x :: xs
    rw [leBytes, List.cons_append, List.cons_append, List.cons_append, List.cons_append,
      List.nil_append, toWords, leWord_leBytes, ih]

theorem wordBytes_toWords {bs : List Byte} (h : 4 ∣ bs.length) : wordBytes (toWords bs) = bs := by
  fun_induction toWords bs with
  | case1 b0 b1 b2 b3 bs ih =>
    have hrest : 4 ∣ bs.length := by
      rw [List.length_cons, List.length_cons, List.length_cons, List.length_cons] at h
      omega
    rw [wordBytes_cons, leBytes_leWord, ih hrest]
    rfl
  | case2 bs hshort =>
    -- fewer than four bytes, and a multiple of four
    match bs with
    | [] => rfl
    | [_] | [_, _] | [_, _, _] => simp at h
    | b0 :: b1 :: b2 :: b3 :: bs => exact absurd rfl (hshort b0 b1 b2 b3 bs)

def load32 (m : Mem w) (p : BitVec w) : BitVec 32 :=
  leWord (m p) (m (p + BitVec.ofNat w 1)) (m (p + BitVec.ofNat w 2)) (m (p + BitVec.ofNat w 3))

def load64 (m : Mem w) (p : BitVec w) : BitVec 64 :=
  load32 m (p + BitVec.ofNat w 4) ++ load32 m p

theorem leBytes_load32 (m : Mem w) (p : BitVec w) : leBytes (load32 m p) = read m p 4 := by
  rw [load32, leBytes_leWord]
  simp [read, List.range_succ]

theorem load32_congr {m m' : Mem w} {p : BitVec w} (h : ∀ a ∈ block p 4, m a = m' a) :
    load32 m p = load32 m' p := by
  simp only [load32]
  rw [h p (self_mem_block p (by decide)), h _ (add_mem_block p (by decide : 1 < 4)),
    h _ (add_mem_block p (by decide : 2 < 4)), h _ (add_mem_block p (by decide : 3 < 4))]

theorem load64_congr {m m' : Mem w} {p : BitVec w} (h : ∀ a ∈ block p 8, m a = m' a) :
    load64 m p = load64 m' p := by
  simp only [load64]
  rw [load32_congr fun a ha => h a (block_sub p (by decide : 4 + 4 ≤ 8) ha),
    load32_congr fun a ha => h a (block_mono (by decide : 4 ≤ 8) ha)]

/-- A field reads the same in two copies of its bytes, wherever and however wide these are. -/
theorem load32_copy {w' : ℕ} {m : Mem w} {m' : Mem w'} {p : BitVec w} {q : BitVec w'} {off : ℕ}
    (h : ∀ k, off ≤ k → k < off + 4 → m' (q + BitVec.ofNat w' k) = m (p + BitVec.ofNat w k)) :
    load32 m' (q + BitVec.ofNat w' off) = load32 m (p + BitVec.ofNat w off) := by
  simp only [load32, ofNat_add]
  rw [h off (by omega) (by omega), h (off + 1) (by omega) (by omega),
    h (off + 2) (by omega) (by omega), h (off + 3) (by omega) (by omega)]

theorem load64_copy {w' : ℕ} {m : Mem w} {m' : Mem w'} {p : BitVec w} {q : BitVec w'} {off : ℕ}
    (h : ∀ k, off ≤ k → k < off + 8 → m' (q + BitVec.ofNat w' k) = m (p + BitVec.ofNat w k)) :
    load64 m' (q + BitVec.ofNat w' off) = load64 m (p + BitVec.ofNat w off) := by
  simp only [load64, ofNat_add]
  rw [load32_copy fun k _ _ => h k (by omega) (by omega),
    load32_copy fun k _ _ => h k (by omega) (by omega)]

theorem load32_write_of_disjoint (m : Mem w) {p q : BitVec w} {bs : List Byte}
    (h : Disjoint (block p bs.length) (block q 4)) : load32 (write m p bs) q = load32 m q :=
  load32_congr fun _ ha => write_of_not_mem m (Set.disjoint_right.1 h ha)

theorem load32_write_leBytes (m : Mem w) (p : BitVec w) (x : BitVec 32) (hw : 4 ≤ 2 ^ w) :
    load32 (write m p (leBytes x)) p = x := by
  have hb : ∀ k (hk : k < (leBytes x).length),
      write m p (leBytes x) (p + BitVec.ofNat w k) = (leBytes x)[k] :=
    fun k hk => write_add m p hk hw
  have h0 := hb 0 (by simp)
  rw [BitVec.add_zero] at h0
  rw [load32, h0, hb 1 (by simp), hb 2 (by simp), hb 3 (by simp)]
  exact leWord_leBytes x

/-- The word at an offset of a list of bytes. -/
def wordAt (bs : List Byte) (off : ℕ) : BitVec 32 :=
  leWord (bs.getD off 0) (bs.getD (off + 1) 0) (bs.getD (off + 2) 0) (bs.getD (off + 3) 0)

theorem wordAt_congr {bs bs' : List Byte} {off off' : ℕ}
    (h : ∀ j < 4, bs.getD (off + j) 0 = bs'.getD (off' + j) 0) :
    wordAt bs off = wordAt bs' off' := by
  have h0 := h 0 (by decide)
  rw [Nat.add_zero, Nat.add_zero] at h0
  rw [wordAt, wordAt, h0, h 1 (by decide), h 2 (by decide), h 3 (by decide)]

theorem wordAt_leBytes (x : BitVec 32) : wordAt (leBytes x) 0 = x := leWord_leBytes x

/-- Four bytes that are those of a word. -/
theorem wordAt_eq {bs : List Byte} {off : ℕ} {x : BitVec 32}
    (h : ∀ j < 4, bs.getD (off + j) 0 = (leBytes x).getD j 0) : wordAt bs off = x := by
  rw [← wordAt_leBytes x]
  refine wordAt_congr fun j hj => ?_
  rw [h j hj, Nat.zero_add]

/-- A word of what is read is the word in memory. -/
theorem wordAt_read (m : Mem w) (p : BitVec w) {off n : ℕ} (h : off + 4 ≤ n) :
    wordAt (read m p n) off = load32 m (p + BitVec.ofNat w off) := by
  have hbyte (k : ℕ) (hk : k < n) : (read m p n).getD k 0 = m (p + BitVec.ofNat w k) := by
    rw [List.getD_eq_getElem _ _ (by rwa [length_read]), getElem_read]
  simp only [wordAt, load32, ofNat_add]
  rw [hbyte off (by omega), hbyte (off + 1) (by omega), hbyte (off + 2) (by omega),
    hbyte (off + 3) (by omega)]

theorem wordAt_append_left {xs : List Byte} {off : ℕ} (h : off + 4 ≤ xs.length) (ys : List Byte) :
    wordAt (xs ++ ys) off = wordAt xs off :=
  wordAt_congr fun j hj => List.getD_append _ _ _ _ (by omega)

theorem wordAt_append_right (xs ys : List Byte) (off : ℕ) :
    wordAt (xs ++ ys) (xs.length + off) = wordAt ys off := by
  apply wordAt_congr
  intro j _
  rw [List.getD_append_right _ _ _ _ (by omega)]
  congr 1
  omega

theorem wordAt_wordBytes {xs : List (BitVec 32)} {i : ℕ} (hi : i < xs.length) :
    wordAt (wordBytes xs) (4 * i) = xs.getD i 0 := by
  induction xs generalizing i with
  | nil => cases hi
  | cons x xs ih =>
    cases i with
    | zero =>
      apply wordAt_eq
      intro j hj
      rw [wordBytes_cons, Nat.mul_zero, Nat.zero_add,
        List.getD_append _ _ _ _ (by rw [length_leBytes]; omega)]
      rfl
    | succ i =>
      have hlen : (leBytes x).length + 4 * i = 4 * (i + 1) := by
        rw [length_leBytes]
        omega
      rw [wordBytes_cons, ← hlen, wordAt_append_right]
      exact ih (Nat.lt_of_succ_lt_succ hi)

theorem leBytes_wordAt_append {bs : List Byte} {off : ℕ} (h : off + 4 ≤ bs.length) :
    leBytes (wordAt bs off) ++ bs.drop (off + 4) = bs.drop off := by
  have hcons (i : ℕ) (hi : i < 4) :
      bs.drop (off + i) = bs.getD (off + i) 0 :: bs.drop (off + (i + 1)) := by
    have hlt : off + i < bs.length := by omega
    rw [List.drop_eq_getElem_cons hlt, List.getD_eq_getElem?_getD, List.getElem?_eq_getElem hlt,
      Option.getD_some, Nat.add_assoc]
  rw [wordAt, leBytes_leWord, ← Nat.add_zero off, hcons 0 (by decide), hcons 1 (by decide),
    hcons 2 (by decide), hcons 3 (by decide)]
  rfl

/-- The `n` words from `p` on. -/
def loadWords (m : Mem w) (p : BitVec w) : ℕ → List (BitVec 32)
  | 0 => []
  | n + 1 => load32 m p :: loadWords m (p + BitVec.ofNat w 4) n

theorem loadWords_congr {m m' : Mem w} {p : BitVec w} {n : ℕ}
    (h : ∀ a ∈ block p (4 * n), m a = m' a) : loadWords m p n = loadWords m' p n := by
  induction n generalizing p with
  | zero => rfl
  | succ n ih =>
    rw [Nat.mul_succ, Nat.add_comm, block_add] at h
    rw [loadWords, loadWords, load32_congr fun a ha => h a (Or.inl ha),
      ih fun a ha => h a (Or.inr ha)]

theorem loadWords_add (m : Mem w) (p : BitVec w) (n k : ℕ) :
    loadWords m p (n + k) = loadWords m p n ++ loadWords m (p + BitVec.ofNat w (4 * n)) k := by
  induction n generalizing p with
  | zero => simp [loadWords]
  | succ n ih =>
    rw [Nat.succ_add, loadWords, loadWords, ih, List.cons_append, ofNat_add, Nat.mul_succ,
      Nat.add_comm 4]

theorem take_loadWords (m : Mem w) (p : BitVec w) {n k : ℕ} (h : n ≤ k) :
    (loadWords m p k).take n = loadWords m p n := by
  obtain ⟨j, rfl⟩ := Nat.exists_eq_add_of_le h
  have hlen : ∀ (i : ℕ) (q : BitVec w), (loadWords m q i).length = i := by
    intro i
    induction i with
    | zero => exact fun _ => rfl
    | succ i ih => exact fun q => congrArg (· + 1) (ih _)
  rw [loadWords_add, List.take_left' (hlen n p)]

theorem wordBytes_loadWords (m : Mem w) (p : BitVec w) (n : ℕ) :
    wordBytes (loadWords m p n) = read m p (4 * n) := by
  induction n generalizing p with
  | zero => rfl
  | succ n ih =>
    rw [loadWords, wordBytes_cons, leBytes_load32, ih, ← read_add]
    congr 1
    omega

/-- The words come back as they were stored. -/
theorem loadWords_write (m : Mem w) (p : BitVec w) {xs : List (BitVec 32)}
    (hw : 4 * xs.length ≤ 2 ^ w) : loadWords (write m p (wordBytes xs)) p xs.length = xs := by
  induction xs generalizing m p with
  | nil => rfl
  | cons x xs ih =>
    rw [List.length_cons, Nat.mul_succ] at hw
    have hlen : (leBytes x).length + (wordBytes xs).length ≤ 2 ^ w := by
      rw [length_leBytes, length_wordBytes]
      omega
    have hsplit : write m p (wordBytes (x :: xs)) =
        write (write m p (leBytes x)) (p + BitVec.ofNat w 4) (wordBytes xs) :=
      (write_append m p hlen).symm
    have hdisjoint :
        Disjoint (block (p + BitVec.ofNat w 4) (wordBytes xs).length) (block p 4) := by
      have h := disjoint_block_add p (i := 0) (m := 4) (j := 4) (n := 4 * xs.length) (by decide)
        (by omega)
      rw [BitVec.add_zero] at h
      rw [length_wordBytes]
      exact h.symm
    rw [hsplit, List.length_cons, loadWords, ih _ _ (by omega),
      load32_write_of_disjoint _ hdisjoint, load32_write_leBytes m p x (by omega)]

/-! ## Traced stores -/

/-- A memory and the stores made so far, oldest first. -/
structure Traced (w : ℕ) where
  mem : Mem w
  log : List (BitVec w × List Byte) := []

namespace Traced

/-- Every address some store of the log wrote to. -/
def footprint (t : Traced w) : Set (BitVec w) :=
  {a | ∃ s ∈ t.log, a ∈ block s.1 s.2.length}

def store (t : Traced w) (p : BitVec w) (bs : List Byte) : Traced w :=
  { mem := write t.mem p bs, log := t.log ++ [(p, bs)] }

@[simp] theorem store_mem (t : Traced w) (p : BitVec w) (bs : List Byte) :
    (t.store p bs).mem = write t.mem p bs := rfl

@[simp] theorem footprint_nil (m : Mem w) : footprint (⟨m, []⟩ : Traced w) = ∅ := by
  simp [footprint]

@[simp] theorem footprint_store (t : Traced w) (p : BitVec w) (bs : List Byte) :
    (t.store p bs).footprint = t.footprint ∪ block p bs.length := by
  ext a
  simp only [footprint, store, List.mem_append, List.mem_singleton, Set.mem_ofPred_eq,
    Set.mem_union]
  constructor
  · rintro ⟨s, hs | rfl, ha⟩
    exacts [Or.inl ⟨s, hs, ha⟩, Or.inr ha]
  · rintro (⟨s, hs, ha⟩ | ha)
    exacts [⟨s, Or.inl hs, ha⟩, ⟨(p, bs), Or.inr rfl, ha⟩]

/-- Copy `n` words from `src` to `dst`, lowest address first. -/
def copyWords (t : Traced w) (src dst : BitVec w) : ℕ → Traced w
  | 0 => t
  | n + 1 =>
    copyWords (t.store dst (leBytes (load32 t.mem src)))
      (src + BitVec.ofNat w 4) (dst + BitVec.ofNat w 4) n

theorem footprint_copyWords (t : Traced w) (src dst : BitVec w) (n : ℕ) :
    (t.copyWords src dst n).footprint = t.footprint ∪ block dst (4 * n) := by
  induction n generalizing t src dst with
  | zero => simp [copyWords]
  | succ n ih =>
    rw [copyWords, ih, footprint_store, length_leBytes, Set.union_assoc, ← block_add,
      Nat.mul_succ, Nat.add_comm]

theorem copyWords_frame (t : Traced w) {src dst a : BitVec w} {n : ℕ}
    (ha : a ∉ block dst (4 * n)) : (t.copyWords src dst n).mem a = t.mem a := by
  induction n generalizing t src dst with
  | zero => rfl
  | succ n ih =>
    rw [Nat.mul_succ, Nat.add_comm, block_add, Set.mem_union, not_or] at ha
    rw [copyWords, ih _ ha.2, store_mem, write_of_not_mem _ ha.1]

/-- Between blocks that do not meet, copying word by word is one store of what was read. -/
theorem copyWords_mem (t : Traced w) {src dst : BitVec w} {n : ℕ} (hn : 4 * n ≤ 2 ^ w)
    (h : Disjoint (block dst (4 * n)) (block src (4 * n))) :
    (t.copyWords src dst n).mem = write t.mem dst (read t.mem src (4 * n)) := by
  induction n generalizing t src dst with
  | zero => simp [copyWords, read]
  | succ n ih =>
    rw [Nat.mul_succ, Nat.add_comm, block_add, block_add, Set.disjoint_union_left,
      Set.disjoint_union_right, Set.disjoint_union_right] at h
    obtain ⟨⟨_, hrest⟩, _, htail⟩ := h
    rw [copyWords, ih _ (by omega) htail, store_mem, leBytes_load32,
      read_write_of_disjoint _ (by rwa [length_read]), Nat.mul_succ, Nat.add_comm (4 * n), read_add]
    have hlen : BitVec.ofNat w 4 = BitVec.ofNat w (read t.mem src 4).length := by
      rw [length_read]
    nth_rewrite 1 [hlen]
    exact write_append _ _ (by simp only [length_read]; omega)

/-- The words `xs` at consecutive addresses from `p` on, one store each. -/
def storeWords (t : Traced w) (p : BitVec w) : List (BitVec 32) → Traced w
  | [] => t
  | x :: xs => storeWords (t.store p (leBytes x)) (p + BitVec.ofNat w 4) xs

theorem storeWords_append (t : Traced w) (p : BitVec w) (xs ys : List (BitVec 32)) :
    t.storeWords p (xs ++ ys) =
      (t.storeWords p xs).storeWords (p + BitVec.ofNat w (4 * xs.length)) ys := by
  induction xs generalizing t p with
  | nil => simp [storeWords]
  | cons x xs ih =>
    rw [List.cons_append, storeWords, ih, storeWords, List.length_cons, Nat.mul_succ, Nat.add_comm,
      ofNat_add]

/-- How many bytes were stored. -/
def stored (t : Traced w) : ℕ := (t.log.map fun s => s.2.length).sum

@[simp] theorem stored_nil (m : Mem w) : stored (⟨m, []⟩ : Traced w) = 0 := rfl

@[simp] theorem stored_store (t : Traced w) (p : BitVec w) (bs : List Byte) :
    (t.store p bs).stored = t.stored + bs.length := by
  simp [stored, store]

theorem stored_storeWords (t : Traced w) (p : BitVec w) (xs : List (BitVec 32)) :
    (t.storeWords p xs).stored = t.stored + 4 * xs.length := by
  induction xs generalizing t p with
  | nil => rfl
  | cons x xs ih =>
    rw [storeWords, ih, stored_store, length_leBytes, List.length_cons, Nat.mul_succ, Nat.add_assoc,
      Nat.add_comm 4]

end Traced

/-! ## Traced reads and stores -/

/-- A memory, its stores and the blocks that were read for them. -/
structure Touched (w : ℕ) extends Traced w where
  loads : List (BitVec w × ℕ) := []

namespace Touched

/-- Every address that was read or stored. -/
def span (t : Touched w) : Set (BitVec w) := {a | ∃ l ∈ t.loads, a ∈ block l.1 l.2} ∪ t.footprint

/-- Read the `n` bytes at `src` and store `f` of them at `dst`. -/
def mapBlock (t : Touched w) (f : List Byte → List Byte) (n : ℕ) (src dst : BitVec w) :
    Touched w :=
  { t.store dst (f (read t.mem src n)) with loads := t.loads ++ [(src, n)] }

@[simp] theorem mapBlock_mem (t : Touched w) (f : List Byte → List Byte) (n : ℕ)
    (src dst : BitVec w) : (t.mapBlock f n src dst).mem = write t.mem dst (f (read t.mem src n)) :=
  rfl

@[simp] theorem mapBlock_log (t : Touched w) (f : List Byte → List Byte) (n : ℕ)
    (src dst : BitVec w) :
    (t.mapBlock f n src dst).log = t.log ++ [(dst, f (read t.mem src n))] := rfl

@[simp] theorem span_nil (m : Mem w) : span { mem := m } = ∅ := by
  simp [span]

theorem span_mapBlock (t : Touched w) {f : List Byte → List Byte} {n : ℕ}
    (hf : ∀ bs, bs.length = n → (f bs).length = n) (src dst : BitVec w) :
    (t.mapBlock f n src dst).span = t.span ∪ (block src n ∪ block dst n) := by
  have hlen : (f (read t.mem src n)).length = n := hf _ (length_read _ _ _)
  have hfoot : (t.mapBlock f n src dst).footprint = t.footprint ∪ block dst n := by
    calc (t.mapBlock f n src dst).footprint
        = t.footprint ∪ block dst (f (read t.mem src n)).length := Traced.footprint_store _ _ _
      _ = t.footprint ∪ block dst n := by rw [hlen]
  have hloads : {a | ∃ l ∈ (t.mapBlock f n src dst).loads, a ∈ block l.1 l.2} =
      {a | ∃ l ∈ t.loads, a ∈ block l.1 l.2} ∪ block src n := by
    ext a
    simp only [mapBlock, List.mem_append, List.mem_singleton, Set.mem_ofPred_eq, Set.mem_union]
    constructor
    · rintro ⟨l, hl | rfl, ha⟩
      exacts [Or.inl ⟨l, hl, ha⟩, Or.inr ha]
    · rintro (⟨l, hl, ha⟩ | ha)
      exacts [⟨l, Or.inl hl, ha⟩, ⟨(src, n), Or.inr rfl, ha⟩]
  rw [span, hfoot, hloads, span]
  exact Set.union_union_union_comm _ _ _ _

/-- `mapBlock` for the first `k` blocks of `n` bytes, lowest first. -/
def mapBlocks (t : Touched w) (f : List Byte → List Byte) (n : ℕ) (src dst : BitVec w) (k : ℕ) :
    Touched w :=
  (List.range k).foldl
    (fun t i => t.mapBlock f n (src + BitVec.ofNat w (n * i)) (dst + BitVec.ofNat w (n * i))) t

variable (t : Touched w) (f : List Byte → List Byte) (n : ℕ) (src dst p : BitVec w)

@[simp] theorem mapBlocks_zero : t.mapBlocks f n src dst 0 = t := rfl

theorem mapBlocks_succ (k : ℕ) :
    t.mapBlocks f n src dst (k + 1) = (t.mapBlocks f n src dst k).mapBlock f n
      (src + BitVec.ofNat w (n * k)) (dst + BitVec.ofNat w (n * k)) := by
  rw [mapBlocks, List.range_succ, List.foldl_append]
  rfl

variable {f n}

theorem span_mapBlocks (hf : ∀ bs, bs.length = n → (f bs).length = n) (k : ℕ) :
    (t.mapBlocks f n src dst k).span = t.span ∪ (block src (n * k) ∪ block dst (n * k)) := by
  induction k with
  | zero => simp
  | succ k ih =>
    rw [mapBlocks_succ, span_mapBlock _ hf, ih, Set.union_assoc, Nat.mul_succ, block_add,
      block_add, Set.union_union_union_comm]

theorem mapBlocks_frame (hf : ∀ bs, bs.length = n → (f bs).length = n) {k : ℕ} {a : BitVec w}
    (ha : a ∉ block dst (n * k)) : (t.mapBlocks f n src dst k).mem a = t.mem a := by
  induction k with
  | zero => rfl
  | succ k ih =>
    rw [Nat.mul_succ, block_add, Set.mem_union, not_or] at ha
    rw [mapBlocks_succ, mapBlock_mem, write_of_not_mem, ih ha.1]
    rw [hf _ (length_read _ _ _)]
    exact ha.2

/-- In place, each block is read as it was at the start: the stores before it are to others. -/
theorem mapBlocks_read_next (hf : ∀ bs, bs.length = n → (f bs).length = n) {k : ℕ}
    (hk : n * (k + 1) ≤ 2 ^ w) :
    read (t.mapBlocks f n p p k).mem (p + BitVec.ofNat w (n * k)) n =
      read t.mem (p + BitVec.ofNat w (n * k)) n := by
  refine read_congr fun a ha => mapBlocks_frame t p p hf fun hin => ?_
  have hdis := disjoint_block_add p (i := 0) (m := n * k) (j := n * k) (n := n) (by omega) hk
  rw [BitVec.add_zero] at hdis
  exact Set.disjoint_left.1 hdis hin ha

theorem mapBlocks_log (hf : ∀ bs, bs.length = n → (f bs).length = n) {k : ℕ}
    (hk : n * k ≤ 2 ^ w) :
    (t.mapBlocks f n p p k).log = t.log ++ (List.range k).map fun i =>
      (p + BitVec.ofNat w (n * i), f (read t.mem (p + BitVec.ofNat w (n * i)) n)) := by
  induction k with
  | zero => simp
  | succ k ih =>
    have hread := mapBlocks_read_next t p hf hk
    rw [Nat.mul_succ] at hk
    rw [mapBlocks_succ, mapBlock_log, ih (by omega), hread, List.range_succ, List.map_append,
      List.append_assoc]
    rfl

/-- In place, each block holds afterwards what the map makes of it. -/
theorem mapBlocks_read (hf : ∀ bs, bs.length = n → (f bs).length = n) {k i : ℕ}
    (hk : n * k ≤ 2 ^ w) (hi : i < k) :
    read (t.mapBlocks f n p p k).mem (p + BitVec.ofNat w (n * i)) n =
      f (read t.mem (p + BitVec.ofNat w (n * i)) n) := by
  induction k with
  | zero => exact absurd hi (Nat.not_lt_zero i)
  | succ k ih =>
    have hread := mapBlocks_read_next t p hf hk
    have hlen : (f (read t.mem (p + BitVec.ofNat w (n * k)) n)).length = n :=
      hf _ (length_read _ _ _)
    rw [Nat.mul_succ] at hk
    rw [mapBlocks_succ, mapBlock_mem, hread]
    by_cases hik : i = k
    · rw [hik]
      have hself := @read_write_self _ (t.mapBlocks f n p p k).mem (p + BitVec.ofNat w (n * k))
        (f (read t.mem (p + BitVec.ofNat w (n * k)) n)) (by omega)
      rwa [hlen] at hself
    · have hbefore : n * i + n ≤ n * k := by
        rw [← Nat.mul_succ]
        exact Nat.mul_le_mul_left n (by omega)
      have hdis := disjoint_block_add p hbefore (by omega : n * k + n ≤ 2 ^ w)
      rw [read_write_of_disjoint, ih (by omega) (by omega)]
      rw [hlen]
      exact hdis.symm

/-- Only what the map makes of a block matters. -/
theorem mapBlocks_congr {f' : List Byte → List Byte} (h : ∀ bs, bs.length = n → f bs = f' bs)
    (k : ℕ) : t.mapBlocks f n src dst k = t.mapBlocks f' n src dst k := by
  induction k with
  | zero => rfl
  | succ k ih =>
    rw [mapBlocks_succ, mapBlocks_succ, ih, mapBlock, mapBlock, h _ (length_read _ _ _)]

theorem length_loads_mapBlocks (k : ℕ) :
    (t.mapBlocks f n src dst k).loads.length = t.loads.length + k := by
  induction k with
  | zero => rfl
  | succ k ih =>
    rw [mapBlocks_succ, mapBlock, List.length_append, ih]
    rfl

/-- A map that changes no block changes nothing. -/
theorem mapBlocks_mem_of_id (hf : ∀ bs, bs.length = n → f bs = bs) (k : ℕ) :
    (t.mapBlocks f n p p k).mem = t.mem := by
  induction k with
  | zero => rfl
  | succ k ih =>
    rw [mapBlocks_succ, mapBlock_mem, ih, hf _ (length_read _ _ _), write_read]

end Touched

end ByteMem
