import Gec6818Bl1.Lib.ByteMem

/-!
# Stacks of doublewords

A stack that grows down in a byte-addressed memory, two words at a time: `push2` makes room for a
pair below the stack pointer, the first word of it lower. `Holds m sp ws` says what is on the
stack, from the top.

* `Holds.push2`, `Holds.tail`: a pair goes on top, and its words come off again.
* `Holds.set`: a store to one slot is a change of one word.
* `Holds.congr`: only the bytes of the slots count, so code that runs meanwhile may use anything
  below.
-/

namespace WordStack

open ByteMem

variable {w : ℕ} {m m' : Mem w} {p q sp : BitVec w} {a b x : BitVec 64} {ws : List (BitVec 64)}

/-! ## Doublewords -/

def leBytes64 (x : BitVec 64) : List Byte :=
  leBytes (x.extractLsb' 0 32) ++ leBytes (x.extractLsb' 32 32)

@[simp] theorem length_leBytes64 (x : BitVec 64) : (leBytes64 x).length = 8 := rfl

def store64 (m : Mem w) (p : BitVec w) (x : BitVec 64) : Mem w := write m p (leBytes64 x)

theorem load64_store64 (hw : 8 ≤ 2 ^ w) : load64 (store64 m p x) p = x := by
  have hsplit : store64 m p x = write (write m p (leBytes (x.extractLsb' 0 32)))
      (p + BitVec.ofNat w 4) (leBytes (x.extractLsb' 32 32)) :=
    (write_append m p (show (leBytes (x.extractLsb' 0 32)).length +
      (leBytes (x.extractLsb' 32 32)).length ≤ 2 ^ w from hw)).symm
  have hdisj : Disjoint (block (p + BitVec.ofNat w 4) 4) (block p 4) := by
    have h := disjoint_block_add p (i := 0) (m := 4) (j := 4) (n := 4) (by decide) hw
    rw [BitVec.add_zero] at h
    exact h.symm
  have hhalves : x.extractLsb' 32 32 ++ x.extractLsb' 0 32 = x := by
    apply BitVec.eq_of_getLsbD_eq
    intro i hi
    rw [BitVec.getLsbD_append, BitVec.getLsbD_extractLsb', BitVec.getLsbD_extractLsb']
    by_cases h : i < 32
    · simp [h]
    · simp [h, show i - 32 < 32 by omega, show 32 + (i - 32) = i by omega]
  rw [hsplit, load64, load32_write_leBytes _ _ _ (by omega), load32_write_of_disjoint _ hdisj,
    load32_write_leBytes _ _ _ (by omega), hhalves]

theorem load64_store64_of_disjoint (h : Disjoint (block p 8) (block q 8)) :
    load64 (store64 m p x) q = load64 m q :=
  load64_congr fun _ ha => write_of_not_mem m (Set.disjoint_right.1 h ha)

/-! ## What is on the stack -/

/-- The words from the stack pointer on. -/
def Holds (m : Mem w) (sp : BitVec w) (ws : List (BitVec 64)) : Prop :=
  ∀ k (hk : k < ws.length), load64 m (sp + BitVec.ofNat w (8 * k)) = ws[k]

theorem holds_nil (m : Mem w) (sp : BitVec w) : Holds m sp [] := by
  intro k hk
  cases hk

theorem Holds.congr (h : Holds m sp ws) (hm : ∀ c ∈ block sp (8 * ws.length), m' c = m c) :
    Holds m' sp ws := by
  intro k hk
  rw [← h k hk]
  exact load64_congr fun c hc => hm c (block_sub sp (by omega) hc)

/-- The store to a slot. -/
theorem Holds.set (h : Holds m sp ws) (hw : 8 * ws.length ≤ 2 ^ w) {k : ℕ} (hk : k < ws.length) :
    Holds (store64 m (sp + BitVec.ofNat w (8 * k)) x) sp (ws.set k x) := by
  intro j hj
  rw [List.length_set] at hj
  rw [List.getElem_set]
  by_cases hjk : k = j
  · subst hjk
    rw [if_pos rfl]
    exact load64_store64 (by omega)
  · rw [if_neg hjk, load64_store64_of_disjoint, h j hj]
    rcases Nat.lt_or_gt_of_ne hjk with hlt | hlt
    · exact disjoint_block_add sp (by omega) (by omega)
    · exact (disjoint_block_add sp (by omega) (by omega)).symm

/-- `a` and `b` below the stack pointer, which moves down. -/
def push2 (m : Mem w) (sp : BitVec w) (a b : BitVec 64) : Mem w × BitVec w :=
  let sp := sp - BitVec.ofNat w 16
  (store64 (store64 m sp a) (sp + BitVec.ofNat w 8) b, sp)

theorem Holds.push2 (h : Holds m sp ws) (hw : 8 * ws.length + 16 ≤ 2 ^ w) :
    Holds (push2 m sp a b).1 (push2 m sp a b).2 (a :: b :: ws) := by
  have hsp : sp = sp - BitVec.ofNat w 16 + BitVec.ofNat w 16 := (BitVec.sub_add_cancel _ _).symm
  show Holds (store64 (store64 m (sp - BitVec.ofNat w 16) a)
    (sp - BitVec.ofNat w 16 + BitVec.ofNat w 8) b) (sp - BitVec.ofNat w 16) (a :: b :: ws)
  generalize sp - BitVec.ofNat w 16 = q at hsp ⊢
  subst hsp
  intro k hk
  rcases k with _ | _ | k
  · have hdisj := disjoint_block_add q (i := 0) (m := 8) (j := 8) (n := 8) (by decide) (by omega)
    have h0 : q + BitVec.ofNat w (8 * 0) = q := BitVec.add_zero q
    rw [BitVec.add_zero] at hdisj
    rw [h0, load64_store64_of_disjoint hdisj.symm, load64_store64 (by omega)]
    rfl
  · rw [show 8 * (0 + 1) = 8 by rfl, load64_store64 (by omega)]
    rfl
  · have hlen : k < ws.length := by simpa using hk
    have hslot : q + BitVec.ofNat w (8 * (k + 1 + 1)) =
        q + BitVec.ofNat w 16 + BitVec.ofNat w (8 * k) := by
      rw [ofNat_add]
      congr 2
      omega
    have hlow := disjoint_block_add q (i := 0) (m := 8) (j := 16 + 8 * k) (n := 8) (by omega)
      (by omega)
    have hhigh := disjoint_block_add q (i := 8) (m := 8) (j := 16 + 8 * k) (n := 8) (by omega)
      (by omega)
    rw [BitVec.add_zero] at hlow
    rw [hslot, ofNat_add, load64_store64_of_disjoint hhigh, load64_store64_of_disjoint hlow,
      ← ofNat_add, h k hlen]
    rfl

theorem Holds.top (h : Holds m sp (a :: ws)) : load64 m sp = a := by
  have h0 : load64 m (sp + 0#w) = a := h 0 (Nat.succ_pos _)
  rwa [BitVec.add_zero] at h0

theorem Holds.tail (h : Holds m sp (a :: ws)) : Holds m (sp + BitVec.ofNat w 8) ws := by
  intro k hk
  have hk1 := h (k + 1) (Nat.succ_lt_succ hk)
  rwa [Nat.mul_add, Nat.mul_one, Nat.add_comm, ← ofNat_add] at hk1

end WordStack
