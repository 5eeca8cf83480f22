import Mathlib.Data.Nat.Init

/-!
# Register buses and polling loops

Code that drives a device reads and writes registers and goes round in loops that only the
device can end. A `Bus` answers reads and takes writes, changing the device's state; nothing else
is known of it, so a theorem about every bus is one about every sequence of readings.

A loop is its `body : S → S ⊕ R`, which goes round again (`inl`) or leaves with a result (`inr`).
`run` bounds it by fuel, and `reach` gives the state at its `k`-th test whatever happens later.

* A result that `run` finds was produced at some test that the loop reaches, and the other way round
  (`run_eq_some_iff`).
* **Termination.** With an invariant and a variant that goes down, enough fuel gives a result
  (`run_total`); with an invariant under which the body always goes round, none ever does
  (`run_never`).
-/

namespace Polling

/-- The registers of a device: `A` are their addresses, `W` is what they hold. -/
structure Bus (A W σ : Type*) where
  read : A → σ → W × σ
  write : A → W → σ → σ

/-- Read a register, change the value and write it back. -/
def Bus.modify {A W σ : Type*} (bus : Bus A W σ) (a : A) (f : W → W) (dev : σ) : σ :=
  let (v, dev) := bus.read a dev
  bus.write a (f v) dev

/-- The same registers, with a record of the writes, oldest first. -/
def Bus.logged {A W σ : Type*} (bus : Bus A W σ) : Bus A W (σ × List (A × W)) where
  read a s := ((bus.read a s.1).1, ((bus.read a s.1).2, s.2))
  write a v s := (bus.write a v s.1, s.2 ++ [(a, v)])

/-- What a record says was written to one register. -/
def writesTo {A W : Type*} [DecidableEq A] (a : A) (log : List (A × W)) : List W :=
  (log.filter (·.1 = a)).map (·.2)

theorem writesTo_append {A W : Type*} [DecidableEq A] (a : A) (log log' : List (A × W)) :
    writesTo a (log ++ log') = writesTo a log ++ writesTo a log' := by
  rw [writesTo, List.filter_append, List.map_append]
  rfl

/-- `k` readings of a register that `p` fails for, and then one that it holds for. -/
def Polls {A W σ : Type*} (bus : Bus A W σ) (a : A) (p : W → Prop) : ℕ → σ → σ → Prop
  | 0, dev, dev' => p (bus.read a dev).1 ∧ dev' = (bus.read a dev).2
  | k + 1, dev, dev' => ¬ p (bus.read a dev).1 ∧ Polls bus a p k (bus.read a dev).2 dev'

/-- Polls by their first reading. -/
theorem exists_polls_iff {A W σ : Type*} {bus : Bus A W σ} {a : A} {p : W → Prop} {dev dev' : σ}
    (P : ℕ → Prop) : (∃ k, P k ∧ Polls bus a p k dev dev') ↔
      P 0 ∧ p (bus.read a dev).1 ∧ dev' = (bus.read a dev).2 ∨
        ¬ p (bus.read a dev).1 ∧ ∃ k, P (k + 1) ∧ Polls bus a p k (bus.read a dev).2 dev' := by
  constructor
  · intro ⟨k, hk, hpolls⟩
    cases k with
    | zero => exact Or.inl ⟨hk, hpolls⟩
    | succ k => exact Or.inr ⟨hpolls.1, k, hk, hpolls.2⟩
  · intro h
    rcases h with ⟨h0, hpolls⟩ | ⟨hp, k, hk, hpolls⟩
    · exact ⟨0, h0, hpolls⟩
    · exact ⟨k + 1, hk, hp, hpolls⟩

variable {S R : Type*} {body : S → S ⊕ R} {I : S → Prop}

def run (body : S → S ⊕ R) : ℕ → S → Option R
  | 0, _ => none
  | fuel + 1, s =>
    match body s with
    | .inl s' => run body fuel s'
    | .inr r => some r

/-- The state at the `k`-th test of the loop, counted from `0`, if it comes to that test. -/
def reach (body : S → S ⊕ R) : ℕ → S → Option S
  | 0, s => some s
  | k + 1, s =>
    match body s with
    | .inl s' => reach body k s'
    | .inr _ => none

theorem run_of_inl {s s' : S} {fuel : ℕ} (h : body s = .inl s') :
    run body (fuel + 1) s = run body fuel s' := by
  rw [run, h]

theorem run_of_inr {s : S} {r : R} {fuel : ℕ} (h : body s = .inr r) :
    run body (fuel + 1) s = some r := by
  rw [run, h]

/-- A loop that leaves at its first test needs fuel for that test only. -/
theorem run_first {s : S} {r : R} {fuel : ℕ} (hfuel : 0 < fuel) (h : body s = .inr r) :
    run body fuel s = some r := by
  cases fuel with
  | zero => cases hfuel
  | succ fuel => exact run_of_inr h

theorem reach_of_inl {s s' : S} {k : ℕ} (h : body s = .inl s') :
    reach body (k + 1) s = reach body k s' := by
  rw [reach, h]

/-- One more time round, from the last test reached. -/
theorem reach_succ {s s₁ s' : S} {k : ℕ} (hk : reach body k s = some s₁)
    (h : body s₁ = .inl s') : reach body (k + 1) s = some s' := by
  induction k generalizing s with
  | zero =>
    obtain rfl : s = s₁ := Option.some.inj hk
    exact reach_of_inl h
  | succ k ih =>
    cases hs : body s with
    | inl s₂ =>
      rw [reach_of_inl hs] at hk ⊢
      exact ih hk
    | inr r =>
      rw [reach, hs] at hk
      cases hk

/-- A later test was reached through the one before it. -/
theorem reach_pred {s s' : S} {k : ℕ} (hk : reach body (k + 1) s = some s') :
    ∃ s₁, reach body k s = some s₁ ∧ body s₁ = .inl s' := by
  induction k generalizing s with
  | zero =>
    cases hs : body s with
    | inl s₂ =>
      rw [reach_of_inl hs] at hk
      obtain rfl : s₂ = s' := Option.some.inj hk
      exact ⟨s, rfl, hs⟩
    | inr r =>
      rw [reach, hs] at hk
      cases hk
  | succ k ih =>
    cases hs : body s with
    | inl s₂ =>
      rw [reach_of_inl hs] at hk ⊢
      exact ih hk
    | inr r =>
      rw [reach, hs] at hk
      cases hk

/-- What the body preserves holds at every test. -/
theorem reach_invariant (hbody : ∀ s s', I s → body s = .inl s' → I s') {s s' : S} {k : ℕ}
    (hs : I s) (hk : reach body k s = some s') : I s' := by
  induction k generalizing s' with
  | zero =>
    obtain rfl : s = s' := Option.some.inj hk
    exact hs
  | succ k ih =>
    obtain ⟨s₁, hk₁, h⟩ := reach_pred hk
    exact hbody s₁ s' (ih hk₁) h

theorem run_eq_some_of_reach {s s' : S} {r : R} {k : ℕ} (hk : reach body k s = some s')
    (h : body s' = .inr r) : run body (k + 1) s = some r := by
  induction k generalizing s with
  | zero =>
    obtain rfl : s = s' := Option.some.inj hk
    exact run_of_inr h
  | succ k ih =>
    cases hs : body s with
    | inl s₂ =>
      rw [reach_of_inl hs] at hk
      rw [run_of_inl hs]
      exact ih hk
    | inr r' =>
      rw [reach, hs] at hk
      cases hk

theorem run_eq_some_iff {s : S} {r : R} :
    (∃ fuel, run body fuel s = some r) ↔
      ∃ k s', reach body k s = some s' ∧ body s' = .inr r := by
  constructor
  · rintro ⟨fuel, h⟩
    induction fuel generalizing s with
    | zero => cases h
    | succ fuel ih =>
      cases hs : body s with
      | inl s₁ =>
        rw [run_of_inl hs] at h
        obtain ⟨k, s', hk, hr⟩ := ih h
        exact ⟨k + 1, s', by rwa [reach_of_inl hs], hr⟩
      | inr r' =>
        rw [run_of_inr hs] at h
        exact ⟨0, s, rfl, hs.trans (congrArg _ (Option.some.inj h))⟩
  · rintro ⟨k, s', hk, hr⟩
    exact ⟨k + 1, run_eq_some_of_reach hk hr⟩

/-- **Partial correctness.** What the invariant gives at the test that leaves. -/
theorem run_post {Q : R → Prop} (hinl : ∀ s s', I s → body s = .inl s' → I s')
    (hinr : ∀ s r, I s → body s = .inr r → Q r) {s : S} {r : R} {fuel : ℕ} (hs : I s)
    (h : run body fuel s = some r) : Q r := by
  obtain ⟨k, s', hk, hr⟩ := run_eq_some_iff.1 ⟨fuel, h⟩
  exact hinr s' r (reach_invariant hinl hs hk) hr

/-- The fuel does not matter to a result. -/
theorem run_unique {s : S} {r r' : R} {fuel fuel' : ℕ} (h : run body fuel s = some r)
    (h' : run body fuel' s = some r') : r = r' := by
  induction fuel generalizing s fuel' with
  | zero => cases h
  | succ fuel ih =>
    cases fuel' with
    | zero => cases h'
    | succ fuel' =>
      cases hs : body s with
      | inl s₁ =>
        rw [run_of_inl hs] at h h'
        exact ih h h'
      | inr r₁ =>
        rw [run_of_inr hs] at h h'
        exact Option.some.inj (h.symm.trans h')

/-- **Termination.** An invariant, and a variant below which the fuel does not fall. -/
theorem run_total (variant : S → ℕ) {Q : R → Prop}
    (hinl : ∀ s s', I s → body s = .inl s' → I s' ∧ variant s' < variant s)
    (hinr : ∀ s r, I s → body s = .inr r → Q r) {s : S} (hs : I s) {fuel : ℕ}
    (hfuel : variant s < fuel) : ∃ r, run body fuel s = some r ∧ Q r := by
  induction fuel generalizing s with
  | zero => cases hfuel
  | succ fuel ih =>
    cases h : body s with
    | inl s' =>
      obtain ⟨hs', hlt⟩ := hinl s s' hs h
      rw [run_of_inl h]
      exact ih hs' (Nat.lt_of_lt_of_le hlt (Nat.le_of_lt_succ hfuel))
    | inr r =>
      rw [run_of_inr h]
      exact ⟨r, rfl, hinr s r hs h⟩

/-- A loop that always goes round again has no result. -/
theorem run_never (hbody : ∀ s, I s → ∃ s', body s = .inl s' ∧ I s') {s : S} (hs : I s)
    (fuel : ℕ) : run body fuel s = none := by
  induction fuel generalizing s with
  | zero => rfl
  | succ fuel ih =>
    obtain ⟨s', h, hs'⟩ := hbody s hs
    rw [run_of_inl h]
    exact ih hs'

/-! ## Code that returns -/

/-- The code comes to a result with the fuel it has. -/
def Returns {R : Type*} (x : Option R) : Prop := ∃ r, x = some r

section Returns

variable {R T : Type*} {x y : Option R}

theorem returns_some (r : R) : Returns (some r) := ⟨r, rfl⟩

theorem Returns.bind (hx : Returns x) {f : R → Option T} (hf : ∀ r, Returns (f r)) :
    Returns (x.bind f) := by
  obtain ⟨r, rfl⟩ := hx
  exact hf r

theorem Returns.map (hx : Returns x) (f : R → T) : Returns (x.map f) := by
  obtain ⟨r, rfl⟩ := hx
  exact returns_some (f r)

theorem Returns.ite {p : Prop} [Decidable p] (hx : Returns x) (hy : Returns y) :
    Returns (if p then x else y) := by
  by_cases hp : p
  · rwa [if_pos hp]
  · rwa [if_neg hp]

/-- Two branches that meet again. -/
theorem Returns.ite_bind {p : Prop} [Decidable p] (hx : Returns x) (hy : Returns y)
    {f : R → Option T} (hf : ∀ r, Returns (f r)) :
    Returns (if p then x.bind f else y.bind f) := (hx.bind hf).ite (hy.bind hf)

/-- A loop that always leaves at its first test. -/
theorem returns_run {S : Type*} {body : S → S ⊕ R} (hbody : ∀ s, ∃ r, body s = .inr r) {fuel : ℕ}
    (hfuel : 0 < fuel) (s : S) : Returns (run body fuel s) := by
  obtain ⟨r, hr⟩ := hbody s
  exact ⟨r, run_first hfuel hr⟩

end Returns

end Polling
