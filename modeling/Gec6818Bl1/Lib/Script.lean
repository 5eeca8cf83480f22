import Mathlib.Data.List.Basic

/-!
# Scripts of actions that can be refused

A `script` is a list of actions on a state. Each changes the state and says whether it was taken;
`run` stops at the first that was not, and keeps the state that one left behind.

Which action it was is `Refused act as s k`: the first `k` actions are taken and the next is not.
So a run fails when some action is refused (`run_eq_false_iff`), it is one action only
(`Refused.unique`), and the refusals of two scripts in a row are those of the first and, once it has
been gone through, those of the second (`refused_append`).
-/

namespace Script

variable {A S : Type*}

/-- `f`, and then `g` unless `f` has failed. -/
def andThen (f g : S → Bool × S) (s : S) : Bool × S :=
  match f s with
  | (false, s) => (false, s)
  | (true, s) => g s

theorem andThen_of_true {f g : S → Bool × S} {s : S} (h : (f s).1 = true) :
    andThen f g s = g (f s).2 := by
  rw [andThen]
  revert h
  rcases f s with ⟨result, s'⟩
  rintro rfl
  rfl

theorem andThen_of_false {f g : S → Bool × S} {s : S} (h : (f s).1 = false) :
    andThen f g s = (false, (f s).2) := by
  rw [andThen]
  revert h
  rcases f s with ⟨result, s'⟩
  rintro rfl
  rfl

theorem andThen_assoc (f g h : S → Bool × S) :
    andThen (andThen f g) h = andThen f (andThen g h) := by
  funext s
  cases hf : (f s).1 with
  | false =>
    have hfg : (andThen f g s).1 = false := by rw [andThen_of_false hf]
    rw [andThen_of_false hfg, andThen_of_false hf, andThen_of_false hf]
  | true => rw [andThen, andThen_of_true hf, andThen_of_true hf, andThen]

theorem andThen_done (f : S → Bool × S) : andThen f (fun s => (true, s)) = f := by
  funext s
  rw [andThen]
  rcases f s with ⟨_ | _, s'⟩ <;> rfl

variable (act : A → S → Bool × S)

def run : List A → S → Bool × S
  | [], s => (true, s)
  | a :: as, s => andThen (act a) (run as) s

/-- The action at index `k` is the first that is not taken. -/
def Refused : List A → S → ℕ → Prop
  | [], _, _ => False
  | a :: _, s, 0 => (act a s).1 = false
  | a :: as, s, k + 1 => (act a s).1 = true ∧ Refused as (act a s).2 k

variable {act} {as bs : List A} {s : S} {j k : ℕ}

theorem run_cons (a : A) (as : List A) : run act (a :: as) = andThen (act a) (run act as) := rfl

theorem run_singleton (a : A) : run act [a] = act a := andThen_done (act a)

theorem run_append (as bs : List A) :
    run act (as ++ bs) = andThen (run act as) (run act bs) := by
  induction as with
  | nil => rfl
  | cons a as ih => rw [List.cons_append, run_cons, ih, run_cons, andThen_assoc]

/-! ## Where a run fails -/

theorem refused_cons_of_true {a : A} (h : (act a s).1 = true) :
    Refused act (a :: as) s k ↔ ∃ j, k = j + 1 ∧ Refused act as (act a s).2 j := by
  cases k with
  | zero => simp [Refused, h]
  | succ k => simp [Refused, h]

theorem refused_cons_of_false {a : A} (h : (act a s).1 = false) :
    Refused act (a :: as) s k ↔ k = 0 := by
  cases k with
  | zero => simp [Refused, h]
  | succ k => simp [Refused, h]

theorem Refused.lt_length (h : Refused act as s k) : k < as.length := by
  induction as generalizing s k with
  | nil => exact h.elim
  | cons a as ih =>
    cases k with
    | zero => exact Nat.succ_pos _
    | succ k => exact Nat.succ_lt_succ (ih h.2)

theorem Refused.unique (hj : Refused act as s j) (hk : Refused act as s k) : j = k := by
  induction as generalizing s j k with
  | nil => exact hj.elim
  | cons a as ih =>
    cases h : (act a s).1 with
    | false =>
      rw [refused_cons_of_false h] at hj hk
      exact hj.trans hk.symm
    | true =>
      rw [refused_cons_of_true h] at hj hk
      obtain ⟨j, rfl, hj⟩ := hj
      obtain ⟨k, rfl, hk⟩ := hk
      exact congrArg (· + 1) (ih hj hk)

theorem run_eq_false_iff : (run act as s).1 = false ↔ ∃ k, Refused act as s k := by
  induction as generalizing s with
  | nil => simp [run, Refused]
  | cons a as ih =>
    cases h : (act a s).1 with
    | false =>
      rw [run_cons, andThen_of_false h]
      exact ⟨fun _ => ⟨0, h⟩, fun _ => rfl⟩
    | true =>
      rw [run_cons, andThen_of_true h, ih]
      simp only [refused_cons_of_true h]
      constructor
      · intro ⟨k, hk⟩
        exact ⟨k + 1, k, rfl, hk⟩
      · intro ⟨_, k, _, hk⟩
        exact ⟨k, hk⟩

theorem Refused.run_eq (h : Refused act as s k) : (run act as s).1 = false :=
  run_eq_false_iff.mpr ⟨k, h⟩

/-- The second of two scripts is begun only when the first has been gone through. -/
theorem refused_append : Refused act (as ++ bs) s k ↔ Refused act as s k ∨
    (run act as s).1 = true ∧
      ∃ j, k = as.length + j ∧ Refused act bs (run act as s).2 j := by
  induction as generalizing s k with
  | nil => simp [run, Refused]
  | cons a as ih =>
    rw [List.cons_append, run_cons]
    cases h : (act a s).1 with
    | false => simp [refused_cons_of_false h, andThen_of_false h]
    | true =>
      simp only [refused_cons_of_true h, andThen_of_true h, ih, List.length_cons]
      constructor
      · rintro ⟨j, rfl, hj | ⟨hrun, i, rfl, hi⟩⟩
        · exact .inl ⟨j, rfl, hj⟩
        · exact .inr ⟨hrun, i, by omega, hi⟩
      · rintro (⟨j, rfl, hj⟩ | ⟨hrun, i, rfl, hi⟩)
        · exact ⟨j, rfl, .inl hj⟩
        · exact ⟨as.length + i, by omega, .inr ⟨hrun, i, rfl, hi⟩⟩

/-! ## The state that a run leaves -/

theorem Refused.run_append (h : Refused act as s k) (bs : List A) :
    (run act (as ++ bs) s).2 = (run act as s).2 := by
  rw [Script.run_append, andThen_of_false h.run_eq]

theorem run_append_of_true (h : (run act as s).1 = true) (bs : List A) :
    run act (as ++ bs) s = run act bs (run act as s).2 := by
  rw [run_append, andThen_of_true h]

/-- What every action of a script keeps holds wherever its run stops. -/
theorem run_invariant {I : S → Prop} (keep : ∀ a ∈ as, ∀ s, I s → I (act a s).2) (h : I s) :
    I (run act as s).2 := by
  induction as generalizing s with
  | nil => exact h
  | cons a as ih =>
    have hact : I (act a s).2 := keep a List.mem_cons_self s h
    rw [run_cons]
    cases hresult : (act a s).1 with
    | false =>
      rw [andThen_of_false hresult]
      exact hact
    | true =>
      rw [andThen_of_true hresult]
      exact ih (fun b hb => keep b (List.mem_cons_of_mem _ hb)) hact

end Script
