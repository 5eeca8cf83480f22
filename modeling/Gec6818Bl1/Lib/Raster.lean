import Gec6818Bl1.Lib.Splice
import Mathlib.Data.BitVec
import Mathlib.Data.List.Range
import Mathlib.Tactic.ByContra
import Mathlib.Tactic.SplitIfs

/-!
# Pictures

A picture is a function of the column and the row. `raster` writes it down point by point, row by
row; a piece of a row written over a picture is a picture again (`splice_raster`). In memory a
picture is a word for each point, and what a program has drawn is the list of its stores, where only
the last one to a word counts (`word_draw`).
-/

namespace Raster

open Splice

/-! ## Lists -/

section Lists

variable {α : Type*} {f : ℕ → List α} {m n k : ℕ}

theorem length_flatMap_range (hf : ∀ i, (f i).length = n) :
    ((List.range m).flatMap f).length = m * n := by
  simp [List.length_flatMap, hf]

theorem getD_flatMap_range (hf : ∀ i, (f i).length = n) (d : α) (hk : k < m * n) :
    ((List.range m).flatMap f).getD k d = (f (k / n)).getD (k % n) d := by
  have hn : 0 < n := Nat.pos_of_ne_zero fun h => by simp [h] at hk
  induction m with
  | zero =>
    rw [Nat.zero_mul] at hk
    exact absurd hk (Nat.not_lt_zero k)
  | succ m ih =>
    rw [List.range_succ, List.flatMap_append, List.flatMap_singleton]
    have hlen : ((List.range m).flatMap f).length = m * n := length_flatMap_range hf
    by_cases hlt : k < m * n
    · rw [List.getD_append _ _ _ _ (by rwa [hlen]), ih hlt]
    · rw [Nat.succ_mul] at hk
      have hdiv : k / n = m := Nat.div_eq_of_lt_le (by omega) (by rw [Nat.succ_mul]; omega)
      have hmod : k % n = k - m * n := by
        rw [Nat.mod_eq_sub_div_mul, hdiv]
      rw [List.getD_append_right _ _ _ _ (by omega), hlen, hdiv, hmod]

/-- The points of a picture, each of them `n` entries. -/
def raster (w h : ℕ) (px : ℕ → ℕ → List α) : List α :=
  (List.range h).flatMap fun y => (List.range w).flatMap fun x => px x y

variable {w h : ℕ} {px px' : ℕ → ℕ → List α} {d : α} {x y c : ℕ}

theorem length_raster (hpx : ∀ x y, (px x y).length = n) :
    (raster w h px).length = h * (w * n) :=
  length_flatMap_range fun y => length_flatMap_range fun x => hpx x y

theorem index_lt (hx : x < w) (hy : y < h) (hc : c < n) : (y * w + x) * n + c < h * (w * n) := by
  have hrow : (y + 1) * w ≤ h * w := Nat.mul_le_mul_right w hy
  have hcol : (y * w + x + 1) * n ≤ (h * w) * n :=
    Nat.mul_le_mul_right n (by rw [Nat.succ_mul] at hrow; omega)
  rw [Nat.succ_mul, Nat.mul_assoc h w n] at hcol
  omega

theorem getD_raster (hpx : ∀ x y, (px x y).length = n) (hx : x < w) (hy : y < h) (hc : c < n) :
    (raster w h px).getD ((y * w + x) * n + c) d = (px x y).getD c d := by
  have hpos : 0 < w * n := Nat.mul_pos (Nat.zero_lt_of_lt hx) (Nat.zero_lt_of_lt hc)
  have hin : x * n + c < w * n := by
    have hcol : (x + 1) * n ≤ w * n := Nat.mul_le_mul_right n hx
    rw [Nat.succ_mul] at hcol
    omega
  have hidx : (y * w + x) * n + c = (x * n + c) + w * n * y := by
    rw [Nat.add_mul, Nat.mul_assoc y w n, Nat.mul_comm y (w * n)]
    omega
  have hrow (y : ℕ) : ((List.range w).flatMap fun x => px x y).length = w * n :=
    length_flatMap_range fun x => hpx x y
  rw [raster, getD_flatMap_range hrow d (index_lt hx hy hc), hidx, Nat.add_mul_div_left _ _ hpos,
    Nat.add_mul_mod_self_left, Nat.div_eq_of_lt hin, Nat.mod_eq_of_lt hin, Nat.zero_add,
    getD_flatMap_range (fun x => hpx x y) d hin, Nat.mul_comm x n, Nat.add_comm (n * x) c,
    Nat.add_mul_div_left _ _ (Nat.zero_lt_of_lt hc), Nat.add_mul_mod_self_left,
    Nat.div_eq_of_lt hc, Nat.mod_eq_of_lt hc, Nat.zero_add]

theorem raster_congr (hpx : ∀ x y, x < w → y < h → px x y = px' x y) :
    raster w h px = raster w h px' :=
  List.flatMap_congr fun y hy => List.flatMap_congr fun x hx =>
    hpx x y (List.mem_range.1 hx) (List.mem_range.1 hy)

/-- A list is a picture if it has the picture's points. -/
theorem eq_raster {xs : List α} (hpx : ∀ x y, (px x y).length = n)
    (hlen : xs.length = h * (w * n)) (d : α)
    (hxs : ∀ x y c, x < w → y < h → c < n →
      xs.getD ((y * w + x) * n + c) d = (px x y).getD c d) : xs = raster w h px := by
  apply ext_getD d (hlen.trans (length_raster hpx).symm)
  intro k hk
  rw [hlen] at hk
  have hwn : 0 < w * n := Nat.pos_of_ne_zero fun h0 => by simp [h0] at hk
  have hn : 0 < n := Nat.pos_of_mul_pos_left hwn
  have hy : k / (w * n) < h := Nat.div_lt_of_lt_mul (by rwa [Nat.mul_comm])
  have hx : k % (w * n) / n < w :=
    Nat.div_lt_of_lt_mul (by rw [Nat.mul_comm n w]; exact Nat.mod_lt k hwn)
  have hc : k % (w * n) % n < n := Nat.mod_lt _ hn
  have hidx : (k / (w * n) * w + k % (w * n) / n) * n + k % (w * n) % n = k := by
    have h1 := Nat.div_add_mod (k % (w * n)) n
    have h2 := Nat.div_add_mod k (w * n)
    rw [Nat.add_mul, Nat.mul_assoc, Nat.mul_comm (k / (w * n)) (w * n),
      Nat.mul_comm (k % (w * n) / n) n]
    omega
  have hleft := hxs _ _ _ hx hy hc
  have hright := getD_raster hpx hx hy hc (d := d)
  rw [hidx] at hleft hright
  rw [hleft, hright]

/-- One colour everywhere. -/
theorem flatten_replicate (c : List α) :
    (List.replicate (w * h) c).flatten = raster w h fun _ _ => c := by
  have hrow : ((List.range w).flatMap fun _ => c) = (List.replicate w c).flatten := by
    rw [List.flatMap, List.map_const', List.length_range]
  change _ = (List.range h).flatMap fun _ => (List.range w).flatMap fun _ => c
  rw [hrow]
  induction h with
  | zero => rfl
  | succ h ih =>
    rw [Nat.mul_succ, List.replicate_add, List.flatten_append, ih, List.range_succ,
      List.flatMap_append, List.flatMap_singleton]

theorem mul_le_mul_add_iff {a b : ℕ} (hc : c < n) : a * n ≤ b * n + c ↔ a ≤ b := by
  constructor
  · intro hle
    by_contra hlt
    have hmul : (b + 1) * n ≤ a * n := Nat.mul_le_mul_right n (Nat.not_le.1 hlt)
    rw [Nat.succ_mul] at hmul
    omega
  · intro hle
    exact (Nat.mul_le_mul_right n hle).trans (Nat.le_add_right _ _)

/-- The entries of a piece of a row are those of its points. -/
theorem mem_piece_iff {x₀ y₀ m : ℕ} (hx : x < w) (hm : x₀ + m ≤ w) (hc : c < n) :
    (y₀ * w + x₀) * n ≤ (y * w + x) * n + c ∧
      (y * w + x) * n + c < (y₀ * w + x₀) * n + m * n ↔ y = y₀ ∧ x₀ ≤ x ∧ x < x₀ + m := by
  have hlt : (y * w + x) * n + c < (y₀ * w + x₀) * n + m * n ↔ y * w + x < y₀ * w + x₀ + m := by
    rw [← Nat.add_mul, ← Nat.not_le, ← Nat.not_le, mul_le_mul_add_iff hc]
  rw [mul_le_mul_add_iff hc, hlt]
  constructor
  · intro ⟨hge, hlt⟩
    have hy : y = y₀ := by
      by_contra hne
      rcases Nat.lt_or_gt_of_ne hne with hy | hy
      · have hrow : (y + 1) * w ≤ y₀ * w := Nat.mul_le_mul_right w hy
        rw [Nat.succ_mul] at hrow
        omega
      · have hrow : (y₀ + 1) * w ≤ y * w := Nat.mul_le_mul_right w hy
        rw [Nat.succ_mul] at hrow
        omega
    rw [hy] at hge hlt
    omega
  · intro ⟨hy, hge, hlt⟩
    rw [hy]
    omega

/-- A piece of row `y₀`, from column `x₀` on, written over a picture. -/
theorem splice_raster {x₀ y₀ m : ℕ} {line : ℕ → List α} (hpx : ∀ x y, (px x y).length = n)
    (hline : ∀ i, (line i).length = n) (hm : x₀ + m ≤ w) (hy₀ : y₀ < h) (d : α) :
    splice d (raster w h px) ((y₀ * w + x₀) * n) ((List.range m).flatMap line) =
      raster w h fun x y => if y = y₀ ∧ x₀ ≤ x ∧ x < x₀ + m then line (x - x₀) else px x y := by
  have hlen : ((List.range m).flatMap line).length = m * n := length_flatMap_range hline
  have hpiece : (y₀ * w + x₀) * n + m * n ≤ h * (w * n) := by
    have hrow : (y₀ + 1) * w ≤ h * w := Nat.mul_le_mul_right w hy₀
    rw [← Nat.add_mul, ← Nat.mul_assoc]
    apply Nat.mul_le_mul_right
    rw [Nat.succ_mul] at hrow
    omega
  refine eq_raster (n := n) (fun x y => ?_) ?_ d fun x y c hx hy hc => ?_
  · split_ifs
    · exact hline _
    · exact hpx x y
  · rw [length_splice, length_raster hpx, hlen, Nat.max_eq_left hpiece]
  · rw [getD_splice, hlen]
    by_cases hin : y = y₀ ∧ x₀ ≤ x ∧ x < x₀ + m
    · obtain ⟨rfl, hge, hlt⟩ := hin
      have hidx : (y * w + x) * n + c - (y * w + x₀) * n = c + n * (x - x₀) := by
        obtain ⟨i, rfl⟩ := Nat.exists_eq_add_of_le hge
        rw [← Nat.add_assoc, Nat.add_mul, Nat.add_sub_cancel_left, Nat.mul_comm n]
        omega
      have hin : c + n * (x - x₀) < m * n := by
        have hcol : (x - x₀ + 1) * n ≤ m * n := Nat.mul_le_mul_right n (by omega)
        rw [Nat.succ_mul, Nat.mul_comm] at hcol
        omega
      rw [if_pos ((mem_piece_iff hx hm hc).2 ⟨rfl, hge, hlt⟩), if_pos ⟨rfl, hge, hlt⟩, hidx,
        getD_flatMap_range hline d hin, Nat.add_mul_div_left _ _ (Nat.zero_lt_of_lt hc),
        Nat.add_mul_mod_self_left, Nat.div_eq_of_lt hc, Nat.mod_eq_of_lt hc, Nat.zero_add]
    · rw [if_neg (mt (mem_piece_iff hx hm hc).1 hin), if_neg hin, getD_raster hpx hx hy hc]

end Lists

/-! ## Memory -/

section Memory

abbrev Word := BitVec 32

/-- The little-endian word at `a`. -/
def word (m : ℕ → BitVec 8) (a : ℕ) : Word := m (a + 3) ++ m (a + 2) ++ m (a + 1) ++ m a

def storeWord (m : ℕ → BitVec 8) (a : ℕ) (v : Word) : ℕ → BitVec 8 := fun b =>
  if a ≤ b ∧ b < a + 4 then v.extractLsb' (8 * (b - a)) 8 else m b

/-- The memory after the stores, oldest first. -/
def draw (m : ℕ → BitVec 8) (stores : List (ℕ × Word)) : ℕ → BitVec 8 :=
  stores.foldl (fun m st => storeWord m st.1 st.2) m

variable {m : ℕ → BitVec 8} {a b : ℕ} {v : Word} {stores stores' : List (ℕ × Word)}

theorem draw_append : draw m (stores ++ stores') = draw (draw m stores) stores' :=
  List.foldl_append

@[simp] theorem word_storeWord_self : word (storeWord m a v) a = v := by
  have hbyte {i : ℕ} (hi : i < 4) : storeWord m a v (a + i) = v.extractLsb' (8 * i) 8 := by
    rw [storeWord, if_pos (by omega), Nat.add_sub_cancel_left]
  have h0 : storeWord m a v a = v.extractLsb' 0 8 := hbyte (by decide : 0 < 4)
  rw [word, hbyte (by decide), hbyte (by decide), hbyte (by decide), h0]
  ext i hi
  simp only [BitVec.getElem_append, BitVec.getElem_extractLsb']
  grind

theorem word_storeWord_of_ne (ha : 4 ∣ a) (hb : 4 ∣ b) (h : a ≠ b) :
    word (storeWord m a v) b = word m b := by
  have hbyte {i : ℕ} (hi : i < 4) : storeWord m a v (b + i) = m (b + i) := by
    rw [storeWord, if_neg (by omega)]
  have h0 : storeWord m a v b = m b := hbyte (by decide : 0 < 4)
  rw [word, word, hbyte (by decide), hbyte (by decide), hbyte (by decide), h0]

/-- What no store goes to is as it was. -/
theorem word_draw_of_ne (hal : ∀ st ∈ stores, 4 ∣ st.1) (ha : 4 ∣ a)
    (hne : ∀ st ∈ stores, st.1 ≠ a) : word (draw m stores) a = word m a := by
  induction stores generalizing m with
  | nil => rfl
  | cons st stores ih =>
    obtain ⟨hst, hal⟩ := List.forall_mem_cons.1 hal
    obtain ⟨hne, hnes⟩ := List.forall_mem_cons.1 hne
    exact (ih hal hnes).trans (word_storeWord_of_ne hst ha hne)

/-- Where each store to a word stores the same, that is what it holds. -/
theorem word_draw (hal : ∀ st ∈ stores, 4 ∣ st.1) (hmem : ∃ st ∈ stores, st.1 = a)
    (hval : ∀ st ∈ stores, st.1 = a → st.2 = v) : word (draw m stores) a = v := by
  induction stores generalizing m with
  | nil =>
    obtain ⟨st, hst, -⟩ := hmem
    cases hst
  | cons st stores ih =>
    obtain ⟨hst, hal⟩ := List.forall_mem_cons.1 hal
    obtain ⟨hv, hval⟩ := List.forall_mem_cons.1 hval
    by_cases hlater : ∃ st ∈ stores, st.1 = a
    · exact ih hal hlater hval
    · have hne : ∀ st ∈ stores, st.1 ≠ a := fun st hst ha => hlater ⟨st, hst, ha⟩
      have ha : st.1 = a := by
        obtain ⟨st', hst', ha⟩ := hmem
        rcases List.mem_cons.1 hst' with rfl | hst'
        · exact ha
        · exact absurd ha (hne st' hst')
      have hrest := word_draw_of_ne (m := storeWord m st.1 st.2) hal (ha ▸ hst) hne
      rw [ha, hv ha] at hrest
      change word (draw (storeWord m st.1 st.2) stores) a = v
      rw [ha, hv ha, hrest, word_storeWord_self]

end Memory

end Raster
