import Mathlib.Logic.Basic

/-!
# Runs of a partial step function

A concurrent system is a step function `step : S → A → Option S`: an action is whose turn it is,
and `none` says that this party cannot move. A run is a list of actions, so that every theorem
about "every interleaving" is a theorem about every list.

* `Always step P s as`: `P` holds in every state the run visits, the last one included.
* `Guarded step G s as`: every step the run takes satisfies `G` in the state it is taken from.

**Safety.** An invariant that the initial state satisfies and that every guarded step preserves
holds throughout every guarded run (`always_of_invariant`). Without a guard this is
`run_invariant`, for the last state of a run.
-/

namespace Lts

variable {S A : Type*} {step : S → A → Option S} {P Q : S → Prop} {G : S → A → Prop}

/-- The state after a run, if every action could be taken. -/
def run (step : S → A → Option S) (s : S) : List A → Option S
  | [] => some s
  | a :: as => (step s a).bind fun s' => run step s' as

/-- `P` holds in every state the run visits. -/
def Always (step : S → A → Option S) (P : S → Prop) (s : S) : List A → Prop
  | [] => P s
  | a :: as => P s ∧ ∀ s', step s a = some s' → Always step P s' as

/-- Every step of the run is taken in a state that satisfies the guard. -/
def Guarded (step : S → A → Option S) (G : S → A → Prop) (s : S) : List A → Prop
  | [] => True
  | a :: as => ∀ s', step s a = some s' → G s a ∧ Guarded step G s' as

theorem run_cons {s s' : S} {a : A} {as : List A} (h : run step s (a :: as) = some s') :
    ∃ s₁, step s a = some s₁ ∧ run step s₁ as = some s' :=
  Option.bind_eq_some_iff.1 h

/-- A run goes on from where another one ended. -/
theorem run_append {s s₁ : S} {as : List A} (h : run step s as = some s₁) (bs : List A) :
    run step s (as ++ bs) = run step s₁ bs := by
  induction as generalizing s with
  | nil =>
    obtain rfl : s = s₁ := Option.some.inj h
    rfl
  | cons a as ih =>
    obtain ⟨s₂, hstep, hrun⟩ := run_cons h
    rw [List.cons_append, run, hstep]
    exact ih hrun

/-- What every step preserves, every run preserves. -/
theorem run_invariant (hstep : ∀ s a s', P s → step s a = some s' → P s') {s s' : S}
    {as : List A} (hs : P s) (h : run step s as = some s') : P s' := by
  induction as generalizing s with
  | nil =>
    obtain rfl : s = s' := Option.some.inj h
    exact hs
  | cons a as ih =>
    obtain ⟨s₁, hs₁, hrun⟩ := run_cons h
    exact ih (hstep s a s₁ hs hs₁) hrun

/-- What every guarded step preserves holds throughout every guarded run. -/
theorem always_of_invariant (hstep : ∀ s a s', P s → G s a → step s a = some s' → P s')
    {s : S} {as : List A} (hs : P s) (hguard : Guarded step G s as) : Always step P s as := by
  induction as generalizing s with
  | nil => exact hs
  | cons a as ih =>
    refine ⟨hs, fun s' h => ?_⟩
    obtain ⟨hg, hrest⟩ := hguard s' h
    exact ih (hstep s a s' hs hg h) hrest

/-- The same without a guard. -/
theorem always_of_preserved (hstep : ∀ s a s', P s → step s a = some s' → P s') {s : S}
    (hs : P s) (as : List A) : Always step P s as := by
  induction as generalizing s with
  | nil => exact hs
  | cons a as ih => exact ⟨hs, fun s' h => ih (hstep s a s' hs h)⟩

/-- A condition on the actions alone joins the guard. -/
theorem Guarded.and_actions {R : A → Prop} {s : S} {as : List A} (h : Guarded step G s as)
    (hR : ∀ a ∈ as, R a) : Guarded step (fun s a => R a ∧ G s a) s as := by
  induction as generalizing s with
  | nil => trivial
  | cons a as ih =>
    intro s' hs'
    obtain ⟨hg, hrest⟩ := h s' hs'
    obtain ⟨ha, has⟩ := List.forall_mem_cons.1 hR
    exact ⟨⟨ha, hg⟩, ih hrest has⟩

theorem Guarded.mono {H : S → A → Prop} (hGH : ∀ s a, G s a → H s a) {s : S} {as : List A}
    (h : Guarded step G s as) : Guarded step H s as := by
  induction as generalizing s with
  | nil => trivial
  | cons a as ih =>
    intro s' hs'
    obtain ⟨hg, hrest⟩ := h s' hs'
    exact ⟨hGH s a hg, ih hrest⟩

theorem guarded_cons_some {s s' : S} {a : A} {as : List A} (h : step s a = some s') :
    Guarded step G s (a :: as) ↔ G s a ∧ Guarded step G s' as := by
  constructor
  · exact fun hg => hg s' h
  · intro hg s'' h'
    obtain rfl : s' = s'' := Option.some.inj (h.symm.trans h')
    exact hg

theorem guarded_cons_none {s : S} {a : A} {as : List A} (h : step s a = none) :
    Guarded step G s (a :: as) := by
  intro s' h'
  rw [h] at h'
  cases h'

instance Guarded.decidable [∀ s a, Decidable (G s a)] :
    ∀ (as : List A) (s : S), Decidable (Guarded step G s as)
  | [], _ => .isTrue trivial
  | a :: as, s =>
    match h : step s a with
    | none => .isTrue (guarded_cons_none h)
    | some s' =>
      have := Guarded.decidable as s'
      decidable_of_iff _ (guarded_cons_some h).symm

theorem Always.mono (hPQ : ∀ s, P s → Q s) {s : S} {as : List A} (h : Always step P s as) :
    Always step Q s as := by
  induction as generalizing s with
  | nil => exact hPQ s h
  | cons a as ih => exact ⟨hPQ s h.1, fun s' hs' => ih (h.2 s' hs')⟩

theorem Always.head {s : S} {as : List A} (h : Always step P s as) : P s := by
  cases as with
  | nil => exact h
  | cons a as => exact h.1

/-- The converse of `always_of_invariant`: when an unguarded step always leaves `Q`, a run that
stays in `Q` is guarded. -/
theorem guarded_of_always (hinv : ∀ s a s', P s → G s a → step s a = some s' → P s')
    (hbreak : ∀ s a s', P s → step s a = some s' → Q s' → G s a) {s : S} {as : List A}
    (hs : P s) (h : Always step Q s as) : Guarded step G s as := by
  induction as generalizing s with
  | nil => trivial
  | cons a as ih =>
    intro s' hs'
    have hg := hbreak s a s' hs hs' (h.2 s' hs').head
    exact ⟨hg, ih (hinv s a s' hs hg hs') (h.2 s' hs')⟩

/-- Two guards that agree, in the states a run can be in, on the steps it takes there. -/
theorem guarded_iff_guarded {H : S → A → Prop}
    (hinv : ∀ s a s', P s → H s a → step s a = some s' → P s')
    (hiff : ∀ s a s', P s → step s a = some s' → (G s a ↔ H s a)) {s : S} {as : List A}
    (hs : P s) : Guarded step G s as ↔ Guarded step H s as := by
  induction as generalizing s with
  | nil => exact Iff.rfl
  | cons a as ih =>
    refine forall_congr' fun s' => forall_congr' fun h => ?_
    rw [hiff s a s' hs h]
    exact and_congr_right fun hH => ih (hinv s a s' hs hH h)

/-- A guard that says, for the states a run can be in, exactly which steps lead into `Q`. -/
theorem always_iff_guarded (hinv : ∀ s a s', P s → step s a = some s' → P s')
    (hguard : ∀ s a s', P s → step s a = some s' → (Q s' ↔ G s a)) {s : S} {as : List A}
    (hs : P s) (hQ : Q s) : Always step Q s as ↔ Guarded step G s as := by
  constructor
  · refine guarded_of_always (fun s a s' hs _ h => hinv s a s' hs h) ?_ hs
    exact fun s a s' hs h hQ' => (hguard s a s' hs h).1 hQ'
  · intro hg
    refine (always_of_invariant (P := fun s => P s ∧ Q s) ?_ ⟨hs, hQ⟩ hg).mono fun _ h => h.2
    exact fun s a s' hs hga h => ⟨hinv s a s' hs.1 h, (hguard s a s' hs.1 h).2 hga⟩

end Lts
