import Mathlib.Data.List.Range

/-!
# Counted loops

`for (i = lo; i < hi; i++)`, with a body that does not change `i`. An invariant that depends on the
counter and that a turn keeps holds at the end with the counter at `hi`.
-/

namespace Loops

variable {α : Type*}

/-- `for (i = lo; i < hi; i++)`. -/
@[irreducible] def forLoop (lo hi : ℕ) (body : ℕ → α → α) (s : α) : α :=
  (List.range' lo (hi - lo)).foldl (fun s i => body i s) s

variable {lo hi : ℕ} {body : ℕ → α → α} {s : α}

theorem forLoop_of_le (h : hi ≤ lo) : forLoop lo hi body s = s := by
  rw [forLoop, Nat.sub_eq_zero_of_le h]
  rfl

theorem forLoop_succ (h : lo ≤ hi) :
    forLoop lo (hi + 1) body s = body hi (forLoop lo hi body s) := by
  unfold forLoop
  rw [Nat.succ_sub h, List.range'_concat, List.foldl_append, Nat.one_mul,
    Nat.add_sub_cancel' h]
  rfl

/-- **The rule of the loop.** -/
theorem forLoop_induction {P : ℕ → α → Prop} (h : lo ≤ hi) (hstart : P lo s)
    (hstep : ∀ i s, lo ≤ i → i < hi → P i s → P (i + 1) (body i s)) :
    P hi (forLoop lo hi body s) := by
  induction hi, h using Nat.le_induction with
  | base =>
    rw [forLoop_of_le (Nat.le_refl lo)]
    exact hstart
  | succ n hn ih =>
    rw [forLoop_succ hn]
    exact hstep n _ hn (Nat.lt_succ_self n)
      (ih fun i s hlo hhi => hstep i s hlo (Nat.lt_succ_of_lt hhi))

end Loops
