import Mathlib.Data.Nat.Init
import Mathlib.Tactic.ByContra
import Mathlib.Tactic.SplitIfs

/-!
# The first long enough run

A search goes up from `lo` through points of which some pass. It counts passes until it has seen
`need` of them in a row, and starts again at a failure before that. From then on it waits for a
failure, which ends the run.

* `Window`: `need` or more passing points in a row, followed by a failing one below `hi`.
* **Search.** The run that the search ends with is the first window there is, and a search that
  goes up to `hi` without an end has passed none (`Inv.first`, `Inv.none`).
-/

namespace WindowSearch

variable {p : ℕ → Prop} {lo hi need c l r : ℕ}

/-- The points from `l` to `r` pass, the next one fails. -/
structure Window (p : ℕ → Prop) (lo hi need l r : ℕ) : Prop where
  lo_le : lo ≤ l
  long : l + need ≤ r + 1
  passes : ∀ i, l ≤ i → i ≤ r → p i
  fails : ¬ p (r + 1)
  lt_hi : r + 1 < hi

/-- The window that begins first. -/
def First (p : ℕ → Prop) (lo hi need l r : ℕ) : Prop :=
  Window p lo hi need l r ∧ ∀ l' r', Window p lo hi need l' r' → l ≤ l'

theorem Window.of_lt_hi (h : Window p lo hi need l r) {hi' : ℕ} (hhi : r + 1 < hi') :
    Window p lo hi' need l r :=
  { h with lt_hi := hhi }

/-- The middle of a window passes. -/
theorem Window.middle (h : Window p lo hi need l r) (hneed : 0 < need) : p ((l + r) / 2) := by
  have := h.long
  exact h.passes _ (by omega) (by omega)

/-- The passes that count, and the first of them. -/
structure State where
  found : ℕ
  left : ℕ

/-- Where the passes up to `c` begin. -/
def State.start (s : State) (c : ℕ) : ℕ := if s.found = 0 then c else s.left

/-- The point `c` is tested; a result is the run that it ends. -/
def next (need c : ℕ) (pass : Bool) (s : State) : State ⊕ (ℕ × ℕ) :=
  if s.found < need then .inl (if pass then ⟨s.found + 1, s.start c⟩ else ⟨0, s.left⟩)
  else if pass then .inl s
  else .inr (s.left, c - 1)

theorem next_of_lt {s : State} (h : s.found < need) (pass : Bool) : next need c pass s =
    .inl (if pass then ⟨s.found + 1, s.start c⟩ else ⟨0, s.left⟩) := if_pos h

theorem next_of_le {s : State} (h : need ≤ s.found) (pass : Bool) : next need c pass s =
    if pass then .inl s else .inr (s.left, c - 1) := if_neg (Nat.not_lt.2 h)

/-- The points below `c` have been tested, and no window has ended among them. -/
structure Inv (p : ℕ → Prop) (lo need c : ℕ) (s : State) : Prop where
  lo_le : lo ≤ s.start c
  passes : ∀ i, s.start c ≤ i → i < c → p i
  maximal : lo < s.start c → ¬ p (s.start c - 1)
  found_le : s.start c + s.found ≤ c
  counted : s.found < need → s.start c + s.found = c
  bounded : s.found ≤ need
  none : ∀ l r, ¬ Window p lo c need l r

theorem inv_start (p : ℕ → Prop) (lo : ℕ) (hneed : 0 < need) (left : ℕ) :
    Inv p lo need lo ⟨0, left⟩ where
  lo_le := Nat.le_refl lo
  passes i hi hlt := absurd hlt (Nat.not_lt.2 hi)
  maximal h := absurd h (Nat.lt_irrefl lo)
  found_le := Nat.le_refl lo
  counted _ := rfl
  bounded := Nat.zero_le need
  none l r h := by
    have := h.lo_le
    have := h.lt_hi
    have := h.long
    omega

/-- A window that ends at `c` begins where the passes do, or later. -/
theorem Inv.start_le {s : State} (hs : Inv p lo need c s) (h : Window p lo hi need l r)
    (hc : c ≤ r + 1) : s.start c ≤ l := by
  by_contra hlt
  have hlong := h.long
  have hstart := hs.found_le
  have hfail := hs.maximal (by have := h.lo_le; omega)
  exact hfail (h.passes _ (by omega) (by omega))

/-- What ends below `c + 1` ends at `c`. -/
theorem Inv.eq_of_window {s : State} (hs : Inv p lo need c s)
    (h : Window p lo (c + 1) need l r) : r + 1 = c := by
  by_contra hne
  have hlt := h.lt_hi
  exact hs.none l r (h.of_lt_hi (by omega))

/-- A pass. -/
theorem Inv.pass {s s' : State} (hs : Inv p lo need c s) (hneed : 0 < need) (hp : p c)
    (h : next need c true s = .inl s') : Inv p lo need (c + 1) s' := by
  have hnone (l r : ℕ) : ¬ Window p lo (c + 1) need l r := by
    intro hwindow
    have hfails := hwindow.fails
    rw [hs.eq_of_window hwindow] at hfails
    exact hfails hp
  obtain ⟨hstart, hfound⟩ : s'.start (c + 1) = s.start c ∧
      (s.found < need ∧ s'.found = s.found + 1 ∨ need ≤ s.found ∧ s'.found = s.found) := by
    rcases Nat.lt_or_ge s.found need with hlt | hge
    · rw [next_of_lt hlt] at h
      obtain rfl := Sum.inl.inj h
      exact ⟨rfl, Or.inl ⟨hlt, rfl⟩⟩
    · rw [next_of_le hge] at h
      obtain rfl := Sum.inl.inj h
      have hne : s.found ≠ 0 := by omega
      refine ⟨?_, Or.inr ⟨hge, rfl⟩⟩
      rw [State.start, if_neg hne, State.start, if_neg hne]
  have hle := hs.found_le
  have hbounded := hs.bounded
  refine ⟨hstart ▸ hs.lo_le, ?_, ?_, ?_, ?_, ?_, hnone⟩
  · intro i hi hlt
    rw [hstart] at hi
    rcases Nat.lt_succ_iff_lt_or_eq.1 hlt with hlt | rfl
    · exact hs.passes i hi hlt
    · exact hp
  · rw [hstart]
    exact hs.maximal
  · rw [hstart]
    omega
  · intro hlt
    have hcounted := hs.counted (by omega)
    rw [hstart]
    omega
  · omega

/-- A failure before `need` passes. -/
theorem Inv.fail {s s' : State} (hs : Inv p lo need c s) (hp : ¬ p c)
    (h : next need c false s = .inl s') : Inv p lo need (c + 1) s' := by
  have hlt : s.found < need := by
    by_contra hge
    rw [next_of_le (Nat.le_of_not_lt hge)] at h
    cases h
  rw [next_of_lt hlt] at h
  obtain rfl := Sum.inl.inj h
  have hlo := hs.lo_le
  have hle := hs.found_le
  refine ⟨?_, ?_, ?_, Nat.le_refl _, fun _ => rfl, Nat.zero_le _, ?_⟩
  · show lo ≤ c + 1
    omega
  · intro i hi hlt
    exact absurd hlt (Nat.not_lt.2 hi)
  · exact fun _ => hp
  · intro l r hwindow
    have heq := hs.eq_of_window hwindow
    have hstart := hs.start_le hwindow (Nat.le_of_eq heq.symm)
    have hcounted := hs.counted hlt
    have hlong := hwindow.long
    omega

/-- A test that does not end the search. -/
theorem Inv.next {s s' : State} (hs : Inv p lo need c s) (hneed : 0 < need) {pass : Bool}
    (hp : pass = true ↔ p c) (h : next need c pass s = .inl s') : Inv p lo need (c + 1) s' := by
  cases pass with
  | true => exact hs.pass hneed (hp.1 rfl) h
  | false => exact hs.fail (fun hc => Bool.noConfusion (hp.2 hc)) h

/-- A failure after `need` passes ends the first window. -/
theorem Inv.first {s : State} (hs : Inv p lo need c s) (hneed : 0 < need) {pass : Bool}
    (hp : pass = true ↔ p c) (hc : c < hi) (h : WindowSearch.next need c pass s = .inr (l, r)) :
    First p lo hi need l r := by
  have hge : need ≤ s.found := by
    by_contra hlt
    rw [next_of_lt (Nat.lt_of_not_le hlt)] at h
    cases h
  rw [next_of_le hge] at h
  cases pass with
  | true => cases h
  | false =>
    obtain ⟨rfl, rfl⟩ := Prod.mk.inj (Sum.inr.inj h)
    have hfail : ¬ p c := fun hc => Bool.noConfusion (hp.2 hc)
    have hstart : s.start c = s.left := if_neg (by omega)
    have hle := hs.found_le
    have hend : c - 1 + 1 = c := by omega
    refine ⟨⟨hstart ▸ hs.lo_le, by omega, ?_, hend.symm ▸ hfail, by omega⟩, ?_⟩
    · intro i hi hlt
      exact hs.passes i (hstart.symm ▸ hi) (by omega)
    · intro l' r' hwindow
      by_contra hlt'
      have hbefore : c ≤ r' + 1 := by
        by_contra hlt''
        exact hs.none l' r' (hwindow.of_lt_hi (by omega))
      have := hs.start_le hwindow hbefore
      omega

end WindowSearch
