import Mathlib.Tactic.SplitIfs
import Gec6818Bl1.Lib.Polling

/-!
# Register code and the accesses it leaves behind

Code that programs a device is mostly straight: it reads, writes and modifies registers one after
another. Such a piece is a list of `Op`s, and what has happened on the bus so far is a list of
`Access`es. Nothing is assumed of the device: `rd` is the value of each reading, whatever it is, and
a reading is told from the others by where in the code it is made (`Q`). A register that is read by
straight code or by a loop that only the device can end is read at `site`, at the time given by the
number of accesses before.

* `exec`, `poll` (a loop with a bounded number of tests) and `waitFor` (one without) only ever
  append to the history.
* What they write to a register that is only written is a matter of the code alone (`writes_exec`,
  `writes_poll`, `writes_waitFor`).
* What was last written to a register is found by going back to the operation that wrote it
  (`lastWrite_exec_write`, `lastWrite_exec_of_spares`).
* A bounded loop is broken off at the first test that succeeds (`poll_eq_true_iff`), and that test
  is the last thing it leaves (`poll_trace`).
-/

namespace RegTrace

/-- One step of straight code on the registers `A` of words `W`. -/
inductive Op (A W : Type*) where
  | read (a : A)
  | write (a : A) (w : W)
  | modify (a : A) (f : W → W)

/-- What the bus sees. A reading is known by its place in the code. -/
inductive Access (Q A W : Type*) where
  | read (q : Q)
  | write (a : A) (w : W)
deriving DecidableEq

variable {Q A W : Type*} (rd : Q → W) (site : A → ℕ → Q)

def Op.accesses (time : ℕ) : Op A W → List (Access Q A W)
  | .read a => [.read (site a time)]
  | .write a w => [.write a w]
  | .modify a f => [.read (site a time), .write a (f (rd (site a time)))]

def exec (ops : List (Op A W)) (log : List (Access Q A W)) : List (Access Q A W) :=
  ops.foldl (fun log op => log ++ op.accesses rd site log.length) log

/-- A loop of at most `left` tests, the first of them with the number `k`: a test reads its `sites`
and breaks the loop off if it likes the values. The result says whether one did. -/
def poll (sites : ℕ → List Q) (ok : List W → Bool) :
    ℕ → ℕ → List (Access Q A W) → Bool × List (Access Q A W)
  | 0, _, log => (false, log)
  | left + 1, k, log =>
    let log := log ++ (sites k).map .read
    if ok ((sites k).map rd) then (true, log) else poll sites ok left (k + 1) log

def waitBody (a : A) (ok : W → Bool) (log : List (Access Q A W)) :
    List (Access Q A W) ⊕ W × List (Access Q A W) :=
  let q := site a log.length
  if ok (rd q) then .inr (rd q, log ++ [.read q]) else .inl (log ++ [.read q])

/-- Read a register until its value is `ok`. -/
def waitFor (a : A) (ok : W → Bool) (fuel : ℕ) (log : List (Access Q A W)) :
    Option (W × List (Access Q A W)) :=
  Polling.run (waitBody rd site a ok) fuel log

/-! ## The history grows -/

variable {rd site} {ops : List (Op A W)} {log log' : List (Access Q A W)}

theorem exec_cons (op : Op A W) : exec rd site (op :: ops) log =
    exec rd site ops (log ++ op.accesses rd site log.length) := rfl

theorem exec_append (ops ops' : List (Op A W)) :
    exec rd site (ops ++ ops') log = exec rd site ops' (exec rd site ops log) :=
  List.foldl_append

theorem prefix_exec : log <+: exec rd site ops log := by
  induction ops generalizing log with
  | nil => exact List.prefix_rfl
  | cons op ops ih => exact (List.prefix_append _ _).trans ih

section Poll

variable {sites : ℕ → List Q} {ok : List W → Bool} {left k : ℕ}

theorem prefix_poll : log <+: (poll rd sites ok left k log).2 := by
  induction left generalizing k log with
  | zero => exact List.prefix_rfl
  | succ left ih =>
    simp only [poll]
    split_ifs
    · exact List.prefix_append _ _
    · exact (List.prefix_append _ _).trans ih

theorem poll_eq_true_iff : (poll (A := A) rd sites ok left k log).1 = true ↔
    ∃ j, k ≤ j ∧ j < k + left ∧ ok ((sites j).map rd) = true := by
  induction left generalizing k log with
  | zero =>
    constructor
    · intro h
      cases h
    · rintro ⟨j, hk, hj, -⟩
      omega
  | succ left ih =>
    simp only [poll]
    split_ifs with hok
    · simp only [true_iff]
      exact ⟨k, Nat.le_refl _, by omega, hok⟩
    · rw [ih]
      constructor
      · rintro ⟨j, hk, hj, h⟩
        exact ⟨j, by omega, by omega, h⟩
      · rintro ⟨j, hk, hj, h⟩
        have hne : k ≠ j := fun heq => hok (heq ▸ h)
        exact ⟨j, by omega, by omega, h⟩

/-- The test that breaks the loop off is the last thing on the bus. -/
theorem poll_trace (h : (poll rd sites ok left k log).1 = true) : ∃ j before,
    k ≤ j ∧ j < k + left ∧ ok ((sites j).map rd) = true ∧ log <+: before ∧
      (poll rd sites ok left k log).2 = before ++ (sites j).map .read := by
  induction left generalizing k log with
  | zero => cases h
  | succ left ih =>
    simp only [poll] at h ⊢
    split_ifs at h ⊢ with hok
    · exact ⟨k, log, Nat.le_refl _, by omega, hok, List.prefix_rfl, rfl⟩
    · obtain ⟨j, before, hk, hj, hj', hbefore, heq⟩ := ih h
      exact ⟨j, before, by omega, by omega, hj', (List.prefix_append _ _).trans hbefore, heq⟩

end Poll

section Wait

variable {a : A} {ok : W → Bool} {fuel : ℕ} {v : W}

/-- What holds whenever the register has been read once more holds after the wait, and the last
value read was the one waited for. -/
theorem waitFor_induction {I : List (Access Q A W) → Prop}
    (hread : ∀ log q, I log → I (log ++ [.read q])) (hlog : I log)
    (h : waitFor rd site a ok fuel log = some (v, log')) : I log' ∧ ok v = true := by
  obtain ⟨k, log₁, hk, hbody⟩ := Polling.run_eq_some_iff.1 ⟨fuel, h⟩
  have hinv : I log₁ := by
    refine Polling.reach_invariant (fun s s' hs hs' => ?_) hlog hk
    simp only [waitBody] at hs'
    split_ifs at hs'
    obtain rfl := Sum.inl.inj hs'
    exact hread s _ hs
  simp only [waitBody] at hbody
  split_ifs at hbody with hok
  obtain ⟨rfl, rfl⟩ := Prod.mk.inj (Sum.inr.inj hbody)
  exact ⟨hread log₁ _ hinv, hok⟩

theorem prefix_waitFor (h : waitFor rd site a ok fuel log = some (v, log')) : log <+: log' :=
  (waitFor_induction (fun _ _ hpre => hpre.trans (List.prefix_append _ _)) List.prefix_rfl h).1

end Wait

/-! ## What is written to one register -/

section Writes

variable [DecidableEq A] (a : A)

def Access.written : Access Q A W → Option W
  | .read _ => none
  | .write b w => if b = a then some w else none

def Op.written : Op A W → Option W
  | .write b w => if b = a then some w else none
  | .read _ => none
  | .modify _ _ => none

def Op.Modifies : Op A W → Prop
  | .modify b _ => b = a
  | .read _ => False
  | .write _ _ => False

/-- The words written to `a`, in order. -/
def writes (log : List (Access Q A W)) : List W := log.filterMap (Access.written a)

variable {a}

@[simp] theorem writes_append (log log' : List (Access Q A W)) :
    writes a (log ++ log') = writes a log ++ writes a log' := List.filterMap_append

@[simp] theorem writes_reads (qs : List Q) : writes (W := W) a (qs.map .read) = [] := by
  simp [writes, List.filterMap_map, Function.comp_def, Access.written]

theorem writes_accesses {op : Op A W} (hop : ¬op.Modifies a) (time : ℕ) :
    writes a (op.accesses rd site time) = [op].filterMap (Op.written a) := by
  cases op with
  | read b => rfl
  | write b w => rfl
  | modify b f =>
    have hb : b ≠ a := hop
    simp only [writes, Op.accesses, List.filterMap_cons, List.filterMap_nil, Access.written,
      Op.written, if_neg hb]

theorem writes_exec (hops : ∀ op ∈ ops, ¬op.Modifies a) :
    writes a (exec rd site ops log) = writes a log ++ ops.filterMap (Op.written a) := by
  induction ops generalizing log with
  | nil => simp [exec]
  | cons op ops ih =>
    obtain ⟨hop, hops⟩ := List.forall_mem_cons.1 hops
    rw [exec_cons, ih hops, writes_append, writes_accesses hop, List.append_assoc,
      ← List.filterMap_append, List.singleton_append]

theorem writes_poll {sites : ℕ → List Q} {ok : List W → Bool} {left k : ℕ} :
    writes a (poll rd sites ok left k log).2 = writes a log := by
  induction left generalizing k log with
  | zero => rfl
  | succ left ih =>
    simp only [poll]
    split_ifs
    · rw [writes_append, writes_reads, List.append_nil]
    · rw [ih, writes_append, writes_reads, List.append_nil]

theorem writes_waitFor {b : A} {ok : W → Bool} {fuel : ℕ} {v : W}
    (h : waitFor rd site b ok fuel log = some (v, log')) : writes a log' = writes a log := by
  refine (waitFor_induction (I := fun l => writes a l = writes a log) ?_ rfl h).1
  intro l q hl
  rw [writes_append, hl]
  exact List.append_nil _

/-! ### The last word written -/

/-- The register that an operation writes to. -/
def Op.target : Op A W → Option A
  | .read _ => none
  | .write b _ => some b
  | .modify b _ => some b

variable (a) in
/-- Straight code that does not write to `a`. -/
def Spares (ops : List (Op A W)) : Prop := ∀ op ∈ ops, op.target ≠ some a

instance : Decidable (Spares a ops) := inferInstanceAs (Decidable (∀ op ∈ ops, _))

omit [DecidableEq A] in
@[simp] theorem Op.target_modify (b : A) (f : W → W) : (Op.modify b f).target = some b := rfl

omit [DecidableEq A] in
@[simp] theorem spares_nil : Spares (W := W) a [] := List.forall_mem_nil _

omit [DecidableEq A] in
@[simp] theorem spares_cons {op : Op A W} :
    Spares a (op :: ops) ↔ op.target ≠ some a ∧ Spares a ops := List.forall_mem_cons

variable (a) in
/-- What was last written to `a`. -/
def lastWrite (log : List (Access Q A W)) : Option W := (writes a log).getLast?

variable {ops' : List (Op A W)} {w : W} {f : W → W}

theorem lastWrite_congr (h : writes a log' = writes a log) : lastWrite a log' = lastWrite a log :=
  congrArg List.getLast? h

theorem lastWrite_read (q : Q) : lastWrite a (log ++ [.read q]) = lastWrite a log :=
  lastWrite_congr ((writes_append _ _).trans (List.append_nil _))

theorem lastWrite_exec_of_spares (h : Spares a ops) :
    lastWrite a (exec rd site ops log) = lastWrite a log := by
  have hmod : ∀ op ∈ ops, ¬op.Modifies a := by
    intro op hop hmod
    cases op with
    | modify b f => exact h _ hop (congrArg some hmod)
    | read b => exact hmod
    | write b w => exact hmod
  have hnone : ops.filterMap (Op.written a) = [] := by
    refine List.filterMap_eq_nil_iff.2 fun op hop => ?_
    cases op with
    | modify b f => rfl
    | read b => rfl
    | write b w => exact if_neg fun hb => h _ hop (congrArg some hb)
  exact lastWrite_congr (by rw [writes_exec hmod, hnone, List.append_nil])

theorem lastWrite_exec_write (ops : List (Op A W)) (h : Spares a ops') :
    lastWrite a (exec rd site (ops ++ .write a w :: ops') log) = some w := by
  rw [exec_append, exec_cons, lastWrite_exec_of_spares h, lastWrite, writes_append]
  simp [writes, Op.accesses, Access.written]

theorem lastWrite_exec_modify (ops : List (Op A W)) (h : Spares a ops') : ∃ time,
    lastWrite a (exec rd site (ops ++ .modify a f :: ops') log) = some (f (rd (site a time))) := by
  refine ⟨(exec rd site ops log).length, ?_⟩
  rw [exec_append, exec_cons, lastWrite_exec_of_spares h, lastWrite, writes_append]
  simp [writes, Op.accesses, Access.written]

end Writes

end RegTrace
