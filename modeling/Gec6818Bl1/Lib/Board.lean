import Mathlib.Logic.Function.Basic
import Gec6818Bl1.Lib.Polling

/-!
# Devices side by side

A board holds several devices, and code that drives one of them leaves the others alone. `Bus.fst`
and `Bus.snd` are the registers of one of two devices, on a board with both. What a driver does on
such a bus is what it does on the device alone, with the other device carried along; a loop carries
it along if its body does (`run_map`).
-/

namespace Polling

section Side

variable {A W σ τ : Type*}

/-- The registers of the first of two devices. -/
def Bus.fst (bus : Bus A W σ) : Bus A W (σ × τ) where
  read a dev := ((bus.read a dev.1).1, ((bus.read a dev.1).2, dev.2))
  write a v dev := (bus.write a v dev.1, dev.2)

/-- The registers of the second of two devices. -/
def Bus.snd (bus : Bus A W τ) : Bus A W (σ × τ) where
  read a dev := ((bus.read a dev.2).1, (dev.1, (bus.read a dev.2).2))
  write a v dev := (dev.1, bus.write a v dev.2)

@[simp] theorem Bus.fst_read (bus : Bus A W σ) (a : A) (dev : σ) (rest : τ) :
    bus.fst.read a (dev, rest) = ((bus.read a dev).1, ((bus.read a dev).2, rest)) := rfl

@[simp] theorem Bus.fst_write (bus : Bus A W σ) (a : A) (v : W) (dev : σ) (rest : τ) :
    bus.fst.write a v (dev, rest) = (bus.write a v dev, rest) := rfl

@[simp] theorem Bus.snd_read (bus : Bus A W τ) (a : A) (dev : σ) (rest : τ) :
    bus.snd.read a (dev, rest) = ((bus.read a rest).1, (dev, (bus.read a rest).2)) := rfl

@[simp] theorem Bus.snd_write (bus : Bus A W τ) (a : A) (v : W) (dev : σ) (rest : τ) :
    bus.snd.write a v (dev, rest) = (dev, bus.write a v rest) := rfl

/-- Registers that hold what was written to them. -/
def Bus.store [DecidableEq A] : Bus A W (A → W) where
  read a s := (s a, s)
  write a v s := Function.update s a v

end Side

/-- A loop on a part of the state. -/
theorem run_map {S S' R R' : Type*} {body : S → S ⊕ R} {body' : S' → S' ⊕ R'} {g : S → S'}
    {h : R → R'} (hbody : ∀ s, body' (g s) = Sum.map g h (body s)) (fuel : ℕ) (s : S) :
    run body' fuel (g s) = (run body fuel s).map h := by
  induction fuel generalizing s with
  | zero => rfl
  | succ fuel ih =>
    have hs := hbody s
    cases hb : body s with
    | inl s' =>
      rw [hb] at hs
      rw [run_of_inl hb, run_of_inl hs, ih]
    | inr r =>
      rw [hb] at hs
      rw [run_of_inr hb, run_of_inr hs]
      rfl

end Polling
