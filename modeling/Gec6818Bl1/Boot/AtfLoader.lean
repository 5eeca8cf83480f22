import Mathlib.Tactic.IntervalCases
import Gec6818Bl1.Tools.MkBl1Image

/-!
# The entry that the ATF loader's stub would jump to

`AtfLoaderEntry64` of `secondboot.c` reads the A32 code at the start of `fip-loader.img` without
running it: a branch in front of a text, and at its target a load relative to the program counter.

* **The branch.** Its offset is the low 24 bits of the word. Two shifts make a signed multiple of
  four of it (`branchCode_eq`), which is what `arm_branch` of `mk_bl1_image.py` took apart
  (`branchCode_armBranch`), also across the end of the address space.
* **The search** goes from one word to the next, so the pair it stops at is the first one
  (`search_of_pair`, `search_of_none`).

Pointers have 64 bits: the words that are searched go on past `2 ^ 32`. The address of the literal
is computed in 32 bits, as an A32 processor does.
-/

namespace Gec6818Bl1.AtfLoader

open ByteMem Tools

abbrev U32 := BitVec 32

/-! ## The code -/

/-- `p[i]`. -/
def word (mem : Mem 64) (p : U32) (i : ℕ) : U32 :=
  load32 mem (p.setWidth 64 + BitVec.ofNat 64 (4 * i))

/-- `start + 8 + ((S32)(p[0] << 8) >> 6)`. -/
def branchCode (start insn : U32) : U32 := start + 8 + (insn <<< 8).sshiftRight 6

/-- What is left of the loop over `i`. -/
def search (mem : Mem 64) (code : U32) : ℕ → ℕ → U32
  | 0, _ => 0
  | left + 1, i =>
    let insn := word mem code i
    if insn &&& 0xFFFFF000#32 = 0xE59F6000#32 ∧ word mem code (i + 1) = 0xE1A06126#32 then
      load32 mem ((code + BitVec.ofNat 32 i * 4 + 8 + (insn &&& 0xFFF#32)).setWidth 64)
    else search mem code left (i + 1)

/-- `AtfLoaderEntry64`. -/
def atfLoaderEntry64 (mem : Mem 64) (start : U32) : U32 :=
  let p := word mem start
  if p 0 &&& 0xFF000000#32 ≠ 0xEA000000#32 ∨ p 1 ≠ 0x544F4F42 ∨ p 2 ≠ 0x4947414D ∨
      p 3 ≠ 0x4D554E43 ∨ p 4 ≠ 0x21524542 then 0
  else search mem (branchCode start (p 0)) 64 0

/-! ## The instructions -/

/-- `ldr r6, [pc, #imm]`. -/
def ldrR6 (imm : BitVec 12) : U32 := 0xE59F6000 ||| imm.setWidth 32

/-- `lsr r6, r6, #2`. -/
def lsrR6 : U32 := 0xE1A06126

/-- A branch that is always taken, and the text `BOOTMAGICNUMBER!`. -/
structure Stub (mem : Mem 64) (start : U32) : Prop where
  branch : isBranch (word mem start 0) = true
  boot : word mem start 1 = 0x544F4F42
  magi : word mem start 2 = 0x4947414D
  cnum : word mem start 3 = 0x4D554E43
  ber : word mem start 4 = 0x21524542

/-- A load into `r6` and its shift, at instruction `i` from `code`. -/
structure LdrPair (mem : Mem 64) (code : U32) (i : ℕ) (imm : BitVec 12) : Prop where
  ldr : word mem code i = ldrR6 imm
  lsr : word mem code (i + 1) = lsrR6

/-- What the load of instruction `i` reads. -/
def literal (mem : Mem 64) (code : U32) (i : ℕ) (imm : BitVec 12) : U32 :=
  load32 mem ((code + BitVec.ofNat 32 (4 * i) + 8 + imm.setWidth 32).setWidth 64)

theorem branch_iff (insn : U32) : insn &&& 0xFF000000#32 = 0xEA000000#32 ↔
    isBranch insn = true := by
  have hand : insn &&& 0xFF000000#32 = insn >>> 24 <<< 24 := by
    ext i hi
    simp only [BitVec.getElem_and, BitVec.getElem_shiftLeft, BitVec.getElem_ushiftRight]
    interval_cases i <;> simp
  rw [isBranch, beq_iff_eq, hand]
  constructor
  · intro h
    have hlt : (insn >>> 24).toNat < 2 ^ 8 := by
      rw [BitVec.toNat_ushiftRight, Nat.shiftRight_eq_div_pow]
      omega
    apply BitVec.eq_of_toNat_eq
    have heq := congrArg BitVec.toNat h
    rw [BitVec.toNat_shiftLeft, Nat.shiftLeft_eq] at heq
    change _ = 0xEA
    change _ = 0xEA000000 at heq
    omega
  · intro h
    rw [h]
    rfl

theorem and_low (insn : U32) : insn &&& 0xFFF#32 = (insn.setWidth 12).setWidth 32 := by
  ext i hi
  simp only [BitVec.getElem_and, BitVec.getElem_setWidth, BitVec.getLsbD_setWidth]
  interval_cases i <;> simp

theorem ldrR6_and (imm : BitVec 12) : ldrR6 imm &&& 0xFFFFF000#32 = 0xE59F6000#32 := by
  ext i hi
  simp only [ldrR6, BitVec.getElem_and, BitVec.getElem_or, BitVec.getElem_setWidth]
  interval_cases i <;> simp

/-- The words that pass the mask are the loads, each with its own offset. -/
theorem ldr_iff (insn : U32) :
    insn &&& 0xFFFFF000#32 = 0xE59F6000#32 ↔ insn = ldrR6 (insn.setWidth 12) := by
  constructor
  · intro h
    have hsplit : insn = insn &&& 0xFFFFF000#32 ||| insn &&& 0xFFF#32 := by
      rw [← BitVec.and_or_distrib_left]
      exact BitVec.and_allOnes.symm
    rw [h, and_low] at hsplit
    exact hsplit
  · intro h
    rw [h]
    exact ldrR6_and _

theorem setWidth_ldrR6 (imm : BitVec 12) : (ldrR6 imm).setWidth 12 = imm := by
  rw [ldrR6, BitVec.setWidth_or]
  ext i hi
  simp only [BitVec.getElem_or, BitVec.getElem_setWidth, BitVec.getLsbD_setWidth]
  interval_cases i <;> simp

/-! ## The branch -/

/-- Both shifts together are the sign extension of the offset. -/
theorem branchCode_eq (start insn : U32) : branchCode start insn = branchTarget start insn := by
  have hshift : (insn <<< 8).sshiftRight 6 = (insn.setWidth 24).signExtend 32 <<< 2 := by
    ext i hi
    simp only [BitVec.getElem_sshiftRight, BitVec.getElem_shiftLeft, BitVec.msb_eq_getLsbD_last]
    grind
  rw [branchCode, branchTarget, hshift]

theorem setWidth_ofInt (q : ℤ) : (BitVec.ofInt 32 q).setWidth 24 = BitVec.ofInt 24 q := by
  apply BitVec.eq_of_toNat_eq
  rw [BitVec.toNat_setWidth, BitVec.toNat_ofInt, BitVec.toNat_ofInt]
  omega

theorem armBranch_eq (f t : ℤ) : armBranch f t =
    0xEA000000#32 ||| (BitVec.ofInt 32 ((t - f - 8) / 4) &&& 0x00FFFFFF#32) := by
  rw [armBranch, Int.shiftRight_eq_div_pow]
  rfl

theorem offset_armBranch (f t : ℤ) :
    (armBranch f t).setWidth 24 = BitVec.ofInt 24 ((t - f - 8) / 4) := by
  have hopcode : (0xEA000000#32).setWidth 24 = 0#24 := by decide
  have hmask : (0x00FFFFFF#32).setWidth 24 = BitVec.allOnes 24 := by decide
  rw [armBranch_eq, BitVec.setWidth_or, BitVec.setWidth_and, hopcode, hmask, BitVec.zero_or,
    BitVec.and_allOnes, setWidth_ofInt]

/-- The way from `f` to `t`, modulo `2 ^ 32`, is within the range of a branch. -/
def Reaches (f t : ℤ) : Prop :=
  -2 ^ 25 ≤ (t - f - 8).bmod (2 ^ 32) ∧ (t - f - 8).bmod (2 ^ 32) < 2 ^ 25

theorem bmod_quarter {d : ℤ} (h4 : 4 ∣ d) (hlo : -2 ^ 25 ≤ d.bmod (2 ^ 32))
    (hhi : d.bmod (2 ^ 32) < 2 ^ 25) : (d / 4).bmod (2 ^ 24) * 4 = d.bmod (2 ^ 32) := by
  rw [Int.bmod_def] at hlo hhi ⊢
  rw [Int.bmod_def]
  push_cast at *
  split_ifs at * <;> omega

theorem branchTarget_armBranch {f t : ℤ} (hf : 4 ∣ f) (ht : 4 ∣ t) (h : Reaches f t) :
    branchTarget (BitVec.ofInt 32 f) (armBranch f t) = BitVec.ofInt 32 t := by
  obtain ⟨hlo, hhi⟩ := h
  have h4 : 4 ∣ t - f - 8 := by omega
  have hoffset : BitVec.signExtend 32 (BitVec.ofInt 24 ((t - f - 8) / 4)) <<< 2 =
      BitVec.ofInt 32 (t - f - 8) := by
    rw [BitVec.signExtend, BitVec.toInt_ofInt, BitVec.shiftLeft_eq_mul_twoPow]
    change BitVec.ofInt 32 _ * BitVec.ofInt 32 4 = _
    rw [← BitVec.ofInt_mul, bmod_quarter h4 hlo hhi, ← BitVec.toInt_ofInt, BitVec.ofInt_toInt]
  rw [branchTarget, offset_armBranch, hoffset]
  change BitVec.ofInt 32 f + BitVec.ofInt 32 8 + _ = _
  rw [← BitVec.ofInt_add, ← BitVec.ofInt_add]
  congr 1
  omega

theorem isBranch_armBranch (f t : ℤ) : isBranch (armBranch f t) = true := by
  have h : ∀ x : U32, (0xEA000000#32 ||| (x &&& 0x00FFFFFF#32)) >>> 24 = 0xEA#32 := by
    intro x
    ext i hi
    simp only [BitVec.getElem_ushiftRight, BitVec.getLsbD_or, BitVec.getLsbD_and]
    interval_cases i <;> simp
  rw [isBranch, armBranch_eq, h]
  rfl

theorem branchCode_armBranch {f t : ℤ} (hf : 4 ∣ f) (ht : 4 ∣ t) (h : Reaches f t) :
    branchCode (BitVec.ofInt 32 f) (armBranch f t) = BitVec.ofInt 32 t :=
  (branchCode_eq _ _).trans (branchTarget_armBranch hf ht h)

/-! ## The search -/

section Search

variable {mem : Mem 64} {start code : U32} {i k left : ℕ} {imm : BitVec 12}

/-- The test of the loop. -/
theorem pair_iff : word mem code i &&& 0xFFFFF000#32 = 0xE59F6000#32 ∧
    word mem code (i + 1) = 0xE1A06126#32 ↔ ∃ imm, LdrPair mem code i imm := by
  rw [ldr_iff]
  constructor
  · exact fun ⟨hldr, hlsr⟩ => ⟨_, hldr, hlsr⟩
  · rintro ⟨imm, hldr, hlsr⟩
    refine ⟨?_, hlsr⟩
    rw [hldr, setWidth_ldrR6]

theorem search_of_none (h : ∀ j, i ≤ j → j < i + left → ¬∃ imm, LdrPair mem code j imm) :
    search mem code left i = 0 := by
  induction left generalizing i with
  | zero => rfl
  | succ left ih =>
    have hpair := mt pair_iff.1 (h i (Nat.le_refl i) (by omega))
    rw [search, if_neg hpair]
    exact ih fun j hj hlt => h j (by omega) (by omega)

theorem search_of_pair (h : LdrPair mem code k imm) (hi : i ≤ k) (hk : k < i + left)
    (hfirst : ∀ j, i ≤ j → j < k → ¬∃ imm, LdrPair mem code j imm) :
    search mem code left i = literal mem code k imm := by
  induction left generalizing i with
  | zero => omega
  | succ left ih =>
    obtain rfl | hlt := Nat.eq_or_lt_of_le hi
    · have himm : word mem code i &&& 0xFFF#32 = imm.setWidth 32 := by
        rw [and_low, h.ldr, setWidth_ldrR6]
      have hindex : BitVec.ofNat 32 i * 4 = BitVec.ofNat 32 (4 * i) := by
        rw [Nat.mul_comm, BitVec.ofNat_mul]
        rfl
      rw [search, if_pos (pair_iff.2 ⟨imm, h⟩), himm, hindex, literal]
    · have hpair := mt pair_iff.1 (hfirst i (Nat.le_refl i) hlt)
      rw [search, if_neg hpair]
      exact ih hlt (by omega) fun j hj hjk => hfirst j (by omega) hjk

theorem stub_iff : ¬(word mem start 0 &&& 0xFF000000#32 ≠ 0xEA000000#32 ∨
    word mem start 1 ≠ 0x544F4F42 ∨ word mem start 2 ≠ 0x4947414D ∨
    word mem start 3 ≠ 0x4D554E43 ∨ word mem start 4 ≠ 0x21524542) ↔ Stub mem start := by
  simp only [not_or, not_not, branch_iff]
  exact ⟨fun ⟨h0, h1, h2, h3, h4⟩ => ⟨h0, h1, h2, h3, h4⟩,
    fun h => ⟨h.branch, h.boot, h.magi, h.cnum, h.ber⟩⟩

theorem atfLoaderEntry64_of_not_stub (h : ¬Stub mem start) : atfLoaderEntry64 mem start = 0 :=
  if_pos (not_not.1 (mt stub_iff.1 h))

theorem atfLoaderEntry64_of_stub (h : Stub mem start) : atfLoaderEntry64 mem start =
    search mem (branchTarget start (word mem start 0)) 64 0 := by
  rw [← branchCode_eq]
  exact if_neg (stub_iff.2 h)

end Search

/-- What is to be found at `start`. -/
structure Found (mem : Mem 64) (start entry : U32) : Prop where
  noStub : ¬Stub mem start → entry = 0
  noPair : Stub mem start →
    (∀ i < 64, ¬∃ imm, LdrPair mem (branchTarget start (word mem start 0)) i imm) → entry = 0
  pair : Stub mem start → ∀ i < 64, ∀ imm,
    LdrPair mem (branchTarget start (word mem start 0)) i imm →
    (∀ j < i, ¬∃ imm', LdrPair mem (branchTarget start (word mem start 0)) j imm') →
    entry = literal mem (branchTarget start (word mem start 0)) i imm

/-- **The branch and the literal**: what `arm_branch` encodes, `AtfLoaderEntry64` decodes, and
behind the branch of a stub it finds the literal of the first pair. -/
theorem atf_loader :
    (∀ f t : ℤ, 4 ∣ f → 4 ∣ t → Reaches f t → isBranch (armBranch f t) = true ∧
      branchCode (BitVec.ofInt 32 f) (armBranch f t) = BitVec.ofInt 32 t) ∧
    ∀ (mem : Mem 64) (start : U32), Found mem start (atfLoaderEntry64 mem start) := by
  refine ⟨fun f t hf ht h => ⟨isBranch_armBranch f t, branchCode_armBranch hf ht h⟩,
    fun mem start => ⟨atfLoaderEntry64_of_not_stub, fun hstub hnone => ?_,
      fun hstub i hi imm hpair hfirst => ?_⟩⟩
  · rw [atfLoaderEntry64_of_stub hstub]
    exact search_of_none fun j _ hj => hnone j (by omega)
  · rw [atfLoaderEntry64_of_stub hstub]
    exact search_of_pair hpair (Nat.zero_le i) (by omega) fun j _ hj => hfirst j hj

/-- A branch at the reset vector that goes back beyond the end of the address space, and a stub
with a pair right at its target. -/
def stubAtZero : Mem 64 := fun a => (wordBytes [0xEA000003, 0x544F4F42, 0x4947414D, 0x4D554E43,
  0x21524542, 0xE59F6000, 0xE1A06126, 0x43C00010]).getD a.toNat 0

theorem stub_stubAtZero : Stub stubAtZero 0 where
  branch := by decide
  boot := by decide
  magi := by decide
  cnum := by decide
  ber := by decide

theorem ldrPair_stubAtZero :
    LdrPair stubAtZero (branchTarget 0 (word stubAtZero 0 0)) 0 0 where
  ldr := by decide
  lsr := by decide

theorem atf_loader_stubAtZero :
    branchCode 0 (armBranch 0 0xFFFF0000) = 0xFFFF0000 ∧
      atfLoaderEntry64 stubAtZero 0 = 0x43C00010 :=
  ⟨(atf_loader.1 0 0xFFFF0000 (by decide) (by decide) ⟨by decide, by decide⟩).2,
    ((atf_loader.2 stubAtZero 0).pair stub_stubAtZero 0 (by decide) 0 ldrPair_stubAtZero
      fun j hj => absurd hj (Nat.not_lt_zero j)).trans (by decide)⟩

end Gec6818Bl1.AtfLoader
