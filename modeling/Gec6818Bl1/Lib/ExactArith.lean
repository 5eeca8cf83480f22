import Mathlib.Data.Nat.Init
import Mathlib.Algebra.Group.Nat.Defs

/-!
# Unsigned arithmetic that keeps a record

C's unsigned operations never fail: a sum or a product that does not fit loses its upper bits, a
difference below zero comes back from the other end. Whether that happens in a run is a fact about
the operands the run meets, so a run leaves them in a list, oldest first. An operation is `Exact`
if its result is the one of the natural numbers, and a division also has to have a divisor.

A function that is written with `Op.perform` cannot leave another operation in its list than the one
whose result it goes on with.
-/

namespace ExactArith

variable {w : ℕ}

inductive Op (w : ℕ) where
  | add (x y : BitVec w)
  | sub (x y : BitVec w)
  | mul (x y : BitVec w)
  | div (x y : BitVec w)
deriving DecidableEq, Repr

namespace Op

def eval : Op w → BitVec w
  | add x y => x + y
  | sub x y => x - y
  | mul x y => x * y
  | div x y => x / y

/-- No wrap, and no division by zero. -/
def Exact : Op w → Prop
  | add x y => x.toNat + y.toNat < 2 ^ w
  | sub x y => y ≤ x
  | mul x y => x.toNat * y.toNat < 2 ^ w
  | div _ y => y ≠ 0#w

instance : DecidablePred (Exact : Op w → Prop)
  | add x y => inferInstanceAs (Decidable (x.toNat + y.toNat < 2 ^ w))
  | sub x y => inferInstanceAs (Decidable (y ≤ x))
  | mul x y => inferInstanceAs (Decidable (x.toNat * y.toNat < 2 ^ w))
  | div _ y => inferInstanceAs (Decidable (y ≠ 0#w))

/-- The result of an operation, and the record with the operation in it. -/
def perform (op : Op w) (ops : List (Op w)) : BitVec w × List (Op w) := (op.eval, ops ++ [op])

variable {x y : BitVec w}

theorem Exact.toNat_add (h : (add x y).Exact) : (add x y).eval.toNat = x.toNat + y.toNat :=
  BitVec.toNat_add_of_lt h

theorem Exact.toNat_sub (h : (sub x y).Exact) : (sub x y).eval.toNat = x.toNat - y.toNat :=
  BitVec.toNat_sub_of_le h

theorem Exact.toNat_mul (h : (mul x y).Exact) : (mul x y).eval.toNat = x.toNat * y.toNat :=
  BitVec.toNat_mul_of_lt h

end Op

/-- Every operation of the record came out exactly. -/
def AllExact (ops : List (Op w)) : Prop := ∀ op ∈ ops, op.Exact

variable {ops ops' : List (Op w)} {op : Op w}

theorem allExact_nil : AllExact ([] : List (Op w)) := List.forall_mem_nil _

theorem allExact_cons : AllExact (op :: ops) ↔ op.Exact ∧ AllExact ops := List.forall_mem_cons

theorem allExact_append : AllExact (ops ++ ops') ↔ AllExact ops ∧ AllExact ops' :=
  List.forall_mem_append

theorem AllExact.snoc (h : AllExact ops) (hop : op.Exact) : AllExact (ops ++ [op]) :=
  allExact_append.2 ⟨h, List.forall_mem_singleton.2 hop⟩

end ExactArith
