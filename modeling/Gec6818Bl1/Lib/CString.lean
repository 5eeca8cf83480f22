import Gec6818Bl1.Lib.Polling
import Mathlib.Logic.Function.Basic

/-!
# Strings with a terminator

A memory holds an entry at every place, and a place may be any integer: a pointer that has run
out of its array is still a place. `Holds nul mem p cs` says that the string `cs` begins at `p`,
with the terminator `nul` behind it and none inside.

`scanWhile` is the loop over the entries that a test holds for, and `scan` the one over a whole
string, `for (; *p; ++p)`. On a string that the memory holds each is a fold (`run_scanWhile`,
`run_scan`). A string grows at its front by stores below it (`Holds.push`).
-/

namespace CString

open Polling

variable {α S : Type*}

/-- The string `cs` stands at `p`. -/
def Holds (nul : α) (mem : ℤ → α) : ℤ → List α → Prop
  | p, [] => mem p = nul
  | p, c :: cs => mem p = c ∧ c ≠ nul ∧ Holds nul mem (p + 1) cs

/-- `for (; *p; ++p)`, with `f` for what is done at each entry. -/
def scan [DecidableEq α] (nul : α) (mem : ℤ → α) (f : S → α → S) (s : ℤ × S) : ℤ × S ⊕ S :=
  if mem s.1 = nul then .inr s.2 else .inl (s.1 + 1, f s.2 (mem s.1))

/-- `for (; p(*a); ++a)`, which leaves `a` behind the last of these entries. -/
def scanWhile (p : α → Prop) [DecidablePred p] (mem : ℤ → α) (f : S → α → S) (s : ℤ × S) :
    ℤ × S ⊕ ℤ × S :=
  if p (mem s.1) then .inl (s.1 + 1, f s.2 (mem s.1)) else .inr s

variable {nul : α} {mem : ℤ → α} {p : ℤ} {cs : List α}

theorem Holds.eq_headD (h : Holds nul mem p cs) : mem p = cs.headD nul := by
  cases cs with
  | nil => exact h
  | cons c cs => exact h.1

theorem run_scan [DecidableEq α] (h : Holds nul mem p cs) (f : S → α → S) (s : S) {fuel : ℕ}
    (hfuel : cs.length < fuel) : run (scan nul mem f) fuel (p, s) = some (cs.foldl f s) := by
  induction cs generalizing p s fuel with
  | nil => exact run_first hfuel (if_pos h)
  | cons c cs ih =>
    obtain ⟨rfl, hc, htail⟩ := h
    cases fuel with
    | zero => cases hfuel
    | succ fuel =>
      have hround : scan nul mem f (p, s) = .inl (p + 1, f s (mem p)) := if_neg hc
      rw [run_of_inl hround]
      exact ih htail _ (Nat.lt_of_succ_lt_succ hfuel)

/-- `ds` is what the loop stops at: nothing, or a string whose first entry fails the test. -/
theorem run_scanWhile {p : α → Prop} [DecidablePred p] {a : ℤ} {cs ds : List α}
    (h : Holds nul mem a (cs ++ ds)) (hcs : ∀ c ∈ cs, p c) (hds : ¬ p (ds.headD nul))
    (f : S → α → S) (s : S) {fuel : ℕ} (hfuel : cs.length < fuel) :
    run (scanWhile p mem f) fuel (a, s) = some (a + cs.length, cs.foldl f s) ∧
      Holds nul mem (a + cs.length) ds := by
  induction cs generalizing a s fuel with
  | nil =>
    have hstop : ¬ p (mem a) := by
      rwa [h.eq_headD]
    rw [List.length_nil, Int.natCast_zero, Int.add_zero]
    exact ⟨run_first hfuel (if_neg hstop), h⟩
  | cons c cs ih =>
    obtain ⟨rfl, hc, htail⟩ := h
    cases fuel with
    | zero => cases hfuel
    | succ fuel =>
      have hround : scanWhile p mem f (a, s) = .inl (a + 1, f s (mem a)) :=
        if_pos (hcs _ List.mem_cons_self)
      have hlen : a + (mem a :: cs).length = a + 1 + cs.length := by
        rw [List.length_cons]
        omega
      rw [run_of_inl hround, hlen]
      exact ih htail (fun c hc => hcs c (List.mem_cons_of_mem _ hc)) _
        (Nat.lt_of_succ_lt_succ hfuel)

/-- A store below the string does not touch it. -/
theorem Holds.update_of_lt (h : Holds nul mem p cs) {a : ℤ} (ha : a < p) (c : α) :
    Holds nul (Function.update mem a c) p cs := by
  induction cs generalizing p with
  | nil =>
    show Function.update mem a c p = nul
    rwa [Function.update_of_ne (Int.ne_of_gt ha)]
  | cons d cs ih =>
    obtain ⟨hd, hne, htail⟩ := h
    refine ⟨?_, hne, ih htail (Int.lt_add_one_of_le (Int.le_of_lt ha))⟩
    rwa [Function.update_of_ne (Int.ne_of_gt ha)]

/-- `*--p = c`. -/
theorem Holds.push (h : Holds nul mem p cs) {c : α} (hc : c ≠ nul) :
    Holds nul (Function.update mem (p - 1) c) (p - 1) (c :: cs) := by
  have htail := h.update_of_lt (Int.sub_one_lt_of_le (Int.le_refl p)) c
  refine ⟨Function.update_self .., hc, ?_⟩
  rwa [Int.sub_add_cancel]

end CString
