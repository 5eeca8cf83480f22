import Gec6818Bl1.Lib.Board
import Gec6818Bl1.Lib.RegTrace

/-!
# Register code on a bus

The straight code and the loops of `RegTrace`, run on the registers of a device. `traceBus` is the
device that only remembers: it answers from a table of readings and takes down every access. On it
register code leaves the history that `RegTrace` speaks of (`perform_traceBus`, `pollReg_traceBus`,
`waitReg_traceBus`), so what is proved of the history holds of the code.

The other way round a history acts on a device (`after`). If the device has answered the readings,
straight code has done to it what it does on the device itself (`after_exec`), and there are always
such readings (`AnsweredBy.exec_deviceAt`).
-/

namespace RegTrace

open Polling

variable {A W σ : Type*} (bus : Bus A W σ)

def Op.perform : Op A W → σ → σ
  | .read a, dev => (bus.read a dev).2
  | .write a w, dev => bus.write a w dev
  | .modify a f, dev => bus.modify a f dev

def perform (ops : List (Op A W)) (dev : σ) : σ := ops.foldl (fun dev op => op.perform bus dev) dev

/-- A loop of at most `left` tests of one register. -/
def pollReg (a : A) (ok : W → Bool) : ℕ → σ → Bool × σ
  | 0, dev => (false, dev)
  | left + 1, dev =>
    let (v, dev) := bus.read a dev
    if ok v then (true, dev) else pollReg a ok left dev

/-- A test of a loop that only the device ends. -/
def waitRegBody (a : A) (ok : W → Bool) (dev : σ) : σ ⊕ W × σ :=
  let (v, dev) := bus.read a dev
  if ok v then .inr (v, dev) else .inl dev

def waitReg (a : A) (ok : W → Bool) (fuel : ℕ) (dev : σ) : Option (W × σ) :=
  run (waitRegBody bus a ok) fuel dev

/-- A device that answers from a table and remembers. -/
def traceBus (rd : A × ℕ → W) : Bus A W (List (Access (A × ℕ) A W)) where
  read a log := (rd (a, log.length), log ++ [.read (a, log.length)])
  write a w log := log ++ [.write a w]

variable {bus} {rd : A × ℕ → W} {ops : List (Op A W)} {log : List (Access (A × ℕ) A W)} {a : A}
  {ok : W → Bool}

theorem perform_cons (op : Op A W) (dev : σ) :
    perform bus (op :: ops) dev = perform bus ops (op.perform bus dev) := rfl

theorem perform_append (ops ops' : List (Op A W)) (dev : σ) :
    perform bus (ops ++ ops') dev = perform bus ops' (perform bus ops dev) := List.foldl_append

/-- What every step preserves, straight code preserves. -/
theorem perform_invariant {I : σ → Prop}
    (hops : ∀ op ∈ ops, ∀ dev, I dev → I (op.perform bus dev)) {dev : σ} (h : I dev) :
    I (perform bus ops dev) := by
  induction ops generalizing dev with
  | nil => exact h
  | cons op ops ih =>
    rw [perform_cons]
    exact ih (fun op hop => hops op (List.mem_cons_of_mem _ hop))
      (hops op List.mem_cons_self dev h)

theorem perform_traceBus : perform (traceBus rd) ops log = exec rd Prod.mk ops log := by
  induction ops generalizing log with
  | nil => rfl
  | cons op ops ih =>
    rw [perform_cons, exec_cons, ih]
    cases op with
    | read a => rfl
    | write a w => rfl
    | modify a f =>
      refine congrArg (exec rd Prod.mk ops) ?_
      exact List.append_assoc _ _ _

theorem pollReg_traceBus {n : ℕ} (left k : ℕ) (hlen : log.length = n + k) :
    pollReg (traceBus rd) a ok left log =
      poll rd (fun k => [(a, n + k)]) (·.all ok) left k log := by
  induction left generalizing k log with
  | zero => rfl
  | succ left ih =>
    have hnext : (log ++ [Access.read (A := A) (W := W) (a, n + k)]).length = n + (k + 1) := by
      rw [List.length_append, hlen]
      rfl
    simp only [pollReg, poll, traceBus, hlen, List.map_cons, List.map_nil, List.all_cons,
      List.all_nil, Bool.and_true]
    by_cases hok : ok (rd (a, n + k)) = true
    · rw [if_pos hok, if_pos hok]
    · rw [if_neg hok, if_neg hok]
      exact ih (k + 1) hnext

theorem waitReg_traceBus (fuel : ℕ) :
    waitReg (traceBus rd) a ok fuel log = waitFor rd Prod.mk a ok fuel log := rfl

/-! ## What a history does to a device -/

section After

variable (bus : Bus A W σ)

/-- The register of an operation. -/
def Op.register : Op A W → A
  | .read a => a
  | .write a _ => a
  | .modify a _ => a

def Access.apply (dev : σ) : Access (A × ℕ) A W → σ
  | .read q => (bus.read q.1 dev).2
  | .write a w => bus.write a w dev

/-- The device that was `dev` before the history. -/
def after (dev : σ) (log : List (Access (A × ℕ) A W)) : σ := log.foldl (Access.apply bus) dev

/-- The readings of the registers `P` are the device's. -/
def AnsweredBy (P : A → Prop) (dev : σ) (rd : A × ℕ → W)
    (log : List (Access (A × ℕ) A W)) : Prop :=
  ∀ n a, log[n]? = some (.read (a, n)) → P a →
    rd (a, n) = (bus.read a (after bus dev (log.take n))).1

variable {bus} {P : A → Prop} {dev : σ} {log' : List (Access (A × ℕ) A W)}

@[simp] theorem after_append :
    after bus dev (log ++ log') = after bus (after bus dev log) log' := List.foldl_append

theorem AnsweredBy.of_prefix (h : AnsweredBy bus P dev rd log') (hlog : log <+: log') :
    AnsweredBy bus P dev rd log := by
  obtain ⟨news, rfl⟩ := hlog
  intro n a hread ha
  have hn : n < log.length := (List.getElem?_eq_some_iff.1 hread).1
  rw [h n a (by rwa [List.getElem?_append_left hn]) ha,
    List.take_append_of_le_length (Nat.le_of_lt hn)]

theorem AnsweredBy.read {n : ℕ} {news : List (Access (A × ℕ) A W)}
    (h : AnsweredBy bus P dev rd (log ++ .read (a, n) :: news)) (hn : n = log.length) (ha : P a) :
    rd (a, n) = (bus.read a (after bus dev log)).1 := by
  subst hn
  have hread := h log.length a
    (by rw [List.getElem?_append_right (Nat.le_refl _), Nat.sub_self]; rfl) ha
  rwa [List.take_left] at hread

/-- On answers of the device, straight code does to it what it does on the device itself. -/
theorem after_exec (hops : ∀ op ∈ ops, P op.register)
    (h : AnsweredBy bus P dev rd (exec rd Prod.mk ops log)) :
    after bus dev (exec rd Prod.mk ops log) = perform bus ops (after bus dev log) := by
  induction ops generalizing log with
  | nil => rfl
  | cons op ops ih =>
    obtain ⟨hop, hops⟩ := List.forall_mem_cons.1 hops
    rw [exec_cons] at h ⊢
    rw [ih hops h, perform_cons, after_append]
    have hanswer := h.of_prefix prefix_exec
    cases op with
    | read a => rfl
    | write a w => rfl
    | modify a f =>
      have hread := hanswer.read rfl hop
      simp only [Op.accesses, after, List.foldl_cons, List.foldl_nil, Access.apply, Op.perform,
        Polling.Bus.modify] at hread ⊢
      rw [hread]

/-- A reading of another register needs no answer. -/
theorem AnsweredBy.append (h : AnsweredBy bus P dev rd log)
    (hnews : ∀ q, .read q ∈ log' → ¬P q.1) : AnsweredBy bus P dev rd (log ++ log') := by
  intro n a hread ha
  by_cases hn : n < log.length
  · rw [List.getElem?_append_left hn] at hread
    rw [h n a hread ha, List.take_append_of_le_length (Nat.le_of_lt hn)]
  · rw [List.getElem?_append_right (Nat.not_lt.1 hn)] at hread
    exact absurd ha (hnews _ (List.mem_of_getElem? hread))

theorem AnsweredBy.exec (h : AnsweredBy bus P dev rd log) (hops : ∀ op ∈ ops, ¬P op.register) :
    AnsweredBy bus P dev rd (exec rd Prod.mk ops log) := by
  induction ops generalizing log with
  | nil => exact h
  | cons op ops ih =>
    obtain ⟨hop, hops⟩ := List.forall_mem_cons.1 hops
    rw [exec_cons]
    refine ih (h.append fun q hq => ?_) hops
    cases op with
    | read a =>
      obtain rfl := Access.read.inj (List.mem_singleton.1 hq)
      exact hop
    | write a w => cases List.mem_singleton.1 hq
    | modify a f =>
      rcases List.mem_cons.1 hq with hq | hq
      · obtain rfl := Access.read.inj hq
        exact hop
      · cases List.mem_singleton.1 hq

/-- How many accesses an operation is. -/
def Op.count : Op A W → ℕ
  | .read _ => 1
  | .write _ _ => 1
  | .modify _ _ => 2

theorem length_accesses (op : Op A W) (time : ℕ) :
    (op.accesses rd Prod.mk time).length = op.count := by
  cases op <;> rfl

variable (bus) in
/-- The device when straight code has made `n` accesses. -/
def deviceAt : List (Op A W) → σ → ℕ → σ
  | [], dev, _ => dev
  | op :: ops, dev, n =>
    if n < op.count then dev else deviceAt ops (op.perform bus dev) (n - op.count)

/-- Readings taken from the device itself. -/
theorem AnsweredBy.exec_deviceAt {dev₁ : σ} (hdev : after bus dev log = dev₁)
    (hrd : ∀ a n, rd (a, log.length + n) = (bus.read a (deviceAt bus ops dev₁ n)).1)
    (h : AnsweredBy bus P dev rd log) :
    AnsweredBy bus P dev rd (RegTrace.exec rd Prod.mk ops log) := by
  induction ops generalizing log dev₁ with
  | nil => exact h
  | cons op ops ih =>
    have hpos : 0 < op.count := by
      cases op <;> exact Nat.succ_pos _
    have hnow (a : A) : rd (a, log.length) = (bus.read a dev₁).1 := by
      have hread := hrd a 0
      rwa [deviceAt, if_pos hpos] at hread
    have hstep : after bus dev (log ++ op.accesses rd Prod.mk log.length) =
        op.perform bus dev₁ := by
      rw [after_append, hdev]
      cases op with
      | read a => rfl
      | write a w => rfl
      | modify a f =>
        simp only [Op.accesses, after, List.foldl_cons, List.foldl_nil, Access.apply, hnow a]
        rfl
    rw [exec_cons]
    refine ih hstep ?_ ?_
    · intro a n
      have hread := hrd a (op.count + n)
      rw [deviceAt, if_neg (by omega), Nat.add_sub_cancel_left, ← Nat.add_assoc] at hread
      rwa [List.length_append, length_accesses]
    · intro n a hread ha
      by_cases hn : n < log.length
      · rw [List.getElem?_append_left hn] at hread
        rw [h n a hread ha, List.take_append_of_le_length (Nat.le_of_lt hn)]
      · rw [List.getElem?_append_right (Nat.not_lt.1 hn)] at hread
        have hmem := List.mem_of_getElem? hread
        have heq : n = log.length := by
          cases op with
          | read b => exact congrArg Prod.snd (Access.read.inj (List.mem_singleton.1 hmem))
          | write b w => cases List.mem_singleton.1 hmem
          | modify b f =>
            rcases List.mem_cons.1 hmem with hmem | hmem
            · exact congrArg Prod.snd (Access.read.inj hmem)
            · cases List.mem_singleton.1 hmem
        rw [heq, List.take_left, hdev]
        exact hnow a

/-- Code on other registers leaves the device alone. -/
theorem after_exec_of_idle (hops : ∀ op ∈ ops, ∀ dev : σ, (bus.read op.register dev).2 = dev ∧
      ∀ w, bus.write op.register w dev = dev) :
    after bus dev (exec rd Prod.mk ops log) = after bus dev log := by
  induction ops generalizing log with
  | nil => rfl
  | cons op ops ih =>
    obtain ⟨hop, hops⟩ := List.forall_mem_cons.1 hops
    rw [exec_cons, ih hops, after_append]
    generalize after bus dev log = dev₁
    cases op with
    | read a => exact (hop dev₁).1
    | write a w => exact (hop dev₁).2 w
    | modify a f =>
      have hread : (bus.read a dev₁).2 = dev₁ := (hop dev₁).1
      simp only [Op.accesses, after, List.foldl_cons, List.foldl_nil, Access.apply, hread]
      exact (hop dev₁).2 _

end After

/-! ## Registers that hold what was written to them -/

section Store

variable [DecidableEq A] {s : A → W} {ops' : List (Op A W)} {w : W} {f : W → W}

theorem perform_store_of_spares (h : Spares a ops) : perform Bus.store ops s a = s a := by
  induction ops generalizing s with
  | nil => rfl
  | cons op ops ih =>
    obtain ⟨hop, hops⟩ := spares_cons.1 h
    rw [perform_cons, ih hops]
    cases op with
    | read b => rfl
    | write b w => exact Function.update_of_ne (fun hab => hop (congrArg some hab.symm)) _ _
    | modify b f => exact Function.update_of_ne (fun hab => hop (congrArg some hab.symm)) _ _

theorem perform_store_write (ops : List (Op A W)) (h : Spares a ops') :
    perform Bus.store (ops ++ .write a w :: ops') s a = w := by
  rw [perform_append, perform_cons, perform_store_of_spares h]
  exact Function.update_self _ _ _

/-- A device whose registers, as far as the code goes, only hold what was written to them. -/
theorem perform_eq_store {bus : Bus A W (A → W)}
    (hops : ∀ op ∈ ops, ∀ s, bus.read op.register s = (s op.register, s) ∧
      ∀ w, bus.write op.register w s = Function.update s op.register w) :
    perform bus ops s = perform Bus.store ops s := by
  induction ops generalizing s with
  | nil => rfl
  | cons op ops ih =>
    obtain ⟨hop, hops⟩ := List.forall_mem_cons.1 hops
    obtain ⟨hread, hwrite⟩ := hop s
    rw [perform_cons, perform_cons, ih hops]
    cases op with
    | read b =>
      refine congrArg (perform Bus.store ops) ?_
      exact congrArg Prod.snd hread
    | write b w => exact congrArg (perform Bus.store ops) (hwrite w)
    | modify b f =>
      simp only [Op.register] at hread hwrite
      simp only [Op.perform, Bus.modify, hread, hwrite]
      rfl

end Store

end RegTrace
