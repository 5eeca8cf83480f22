import Mathlib.Data.List.Basic
import Mathlib.Data.List.GetD

/-!
# Overwriting a part of a list

`splice pad xs off ys` stores `ys` in `xs` from position `off` on. A list that is too short is
first made longer with `pad`, as a file is by a write past its end. With `pad` for the entries a
list does not have, one equation says what it holds afterwards (`getD_splice`), and everything
else about the stores of a program follows from it.
-/

namespace Splice

variable {α : Type*} (pad : α) (xs : List α) (off : ℕ) (ys : List α)

def splice : List α :=
  xs.take off ++ List.replicate (off - xs.length) pad ++ ys ++ xs.drop (off + ys.length)

theorem length_splice : (splice pad xs off ys).length = max xs.length (off + ys.length) := by
  simp only [splice, List.length_append, List.length_take, List.length_replicate, List.length_drop]
  omega

/-- Inside a list that is long enough, no entry comes or goes. -/
theorem length_splice_of_le {xs : List α} {off : ℕ} {ys : List α}
    (h : off + ys.length ≤ xs.length) : (splice pad xs off ys).length = xs.length := by
  rw [length_splice, Nat.max_eq_left h]

theorem getD_splice (k : ℕ) :
    (splice pad xs off ys).getD k pad =
      if off ≤ k ∧ k < off + ys.length then ys.getD (k - off) pad else xs.getD k pad := by
  have hfront : (xs.take off ++ List.replicate (off - xs.length) pad).length = off := by
    simp only [List.length_append, List.length_take, List.length_replicate]
    omega
  have hmid : (xs.take off ++ List.replicate (off - xs.length) pad ++ ys).length =
      off + ys.length := by
    rw [List.length_append, hfront]
  unfold splice
  rcases Nat.lt_or_ge k off with hlt | hge
  · rw [if_neg (by omega), List.append_assoc, List.getD_append _ _ _ _ (by omega)]
    rcases Nat.lt_or_ge k xs.length with hin | hout
    · rw [List.getD_append _ _ _ _ (by rw [List.length_take]; omega)]
      simp only [List.getD_eq_getElem?_getD, List.getElem?_take, hlt, if_true]
    · rw [List.getD_append_right _ _ _ _ (by rw [List.length_take]; omega),
        List.getD_eq_default xs _ hout, List.getD_replicate pad]
      rw [List.length_take]
      omega
  · rcases Nat.lt_or_ge k (off + ys.length) with hin | hout
    · rw [if_pos ⟨hge, hin⟩, List.getD_append _ _ _ _ (by omega),
        List.getD_append_right _ _ _ _ (by omega), hfront]
    · rw [if_neg (by omega), List.getD_append_right _ _ _ _ (by omega), hmid]
      simp only [List.getD_eq_getElem?_getD, List.getElem?_drop]
      congr 2
      omega

/-- A list is its length and what it holds. -/
theorem ext_getD {xs ys : List α} (hlen : xs.length = ys.length)
    (h : ∀ k < xs.length, xs.getD k pad = ys.getD k pad) : xs = ys := by
  refine List.ext_getElem hlen fun k hx hy => ?_
  have hk := h k hx
  rwa [List.getD_eq_getElem _ _ hx, List.getD_eq_getElem _ _ hy] at hk

variable {pad xs off ys}

/-- Nothing else is changed. -/
theorem getD_splice_of_not {k : ℕ} (h : ¬ (off ≤ k ∧ k < off + ys.length)) :
    (splice pad xs off ys).getD k pad = xs.getD k pad := by
  rw [getD_splice, if_neg h]

theorem getElem?_splice_of_le (pad : α) (h : off + ys.length ≤ xs.length) (k : ℕ) :
    (splice pad xs off ys)[k]? =
      if off ≤ k ∧ k < off + ys.length then ys[k - off]? else xs[k]? := by
  have hlen := length_splice_of_le pad h
  rcases Nat.lt_or_ge k xs.length with hlt | hge
  · have hget := getD_splice pad xs off ys k
    rw [List.getD_eq_getElem _ _ (by omega), List.getD_eq_getElem xs _ hlt] at hget
    rw [List.getElem?_eq_getElem (by omega), hget, List.getElem?_eq_getElem hlt]
    split
    · rw [List.getElem?_eq_getElem (by omega), List.getD_eq_getElem]
    · rfl
  · rw [List.getElem?_eq_none (by omega), if_neg (by omega), List.getElem?_eq_none hge]

/-- Two pieces stored one behind the other are one piece. -/
theorem splice_append (zs : List α) :
    splice pad (splice pad xs off ys) (off + ys.length) zs = splice pad xs off (ys ++ zs) := by
  apply ext_getD pad
  · simp only [length_splice, List.length_append]
    omega
  · intro k _
    rw [getD_splice, getD_splice, getD_splice, List.length_append]
    rcases Nat.lt_or_ge k (off + ys.length) with hlt | hge
    · rw [if_neg (by omega)]
      by_cases hk : off ≤ k
      · rw [if_pos ⟨hk, hlt⟩, if_pos (by omega), List.getD_append _ _ _ _ (by omega)]
      · rw [if_neg (by omega), if_neg (by omega)]
    · by_cases hk : k < off + ys.length + zs.length
      · rw [if_pos ⟨hge, hk⟩, if_pos (by omega), List.getD_append_right _ _ _ _ (by omega)]
        congr 1
        omega
      · rw [if_neg (by omega), if_neg (by omega), if_neg (by omega)]

end Splice
