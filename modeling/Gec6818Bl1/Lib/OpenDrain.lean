import Mathlib.Data.Bool.Basic

/-!
# Two open-drain lines

A clock and a data line with pull-ups. The master lets go of a line or pulls it down, the device
can hold the data line down as well, and a line is high if nobody pulls it. The device watches the
levels: data that changes while the clock is high is a start or a stop condition, and otherwise it
acts on the edges of the clock.

`Wires.drive` is one change of what the master does. The lemmas give the changes that a master puts
a transfer together from: data set up while the clock is low, an edge of the clock, a condition.
-/

namespace OpenDrain

variable {δ : Type*}

/-- A device: what it does at a condition and at an edge, and whether it holds the data line. -/
structure Device (δ : Type*) where
  start : δ → δ
  stop : δ → δ
  rise : Bool → δ → δ
  fall : δ → δ
  low : δ → Bool

inductive Condition where
  | start
  | stop
  deriving DecidableEq, Repr

/-- The lines the master lets go of, the device, and the conditions it has seen. -/
structure Wires (δ : Type*) where
  scl : Bool
  sda : Bool
  device : δ
  seen : List Condition

namespace Wires

variable (d : Device δ)

/-- The level of the data line. -/
def line (w : Wires δ) : Bool := w.sda && !d.low w.device

/-- The master lets go of the lines `scl` and `sda`. -/
def drive (scl sda : Bool) (w : Wires δ) : Wires δ :=
  let line := sda && !d.low w.device
  if scl && w.scl && (line != w.line d) then
    if line then ⟨scl, sda, d.stop w.device, w.seen ++ [.stop]⟩
    else ⟨scl, sda, d.start w.device, w.seen ++ [.start]⟩
  else if scl && !w.scl then ⟨scl, sda, d.rise line w.device, w.seen⟩
  else if w.scl && !scl then ⟨scl, sda, d.fall w.device, w.seen⟩
  else ⟨scl, sda, w.device, w.seen⟩

variable {d} {b c : Bool} {s : δ} {seen : List Condition}

/-- Nothing happens while the clock is low. -/
theorem drive_low : drive d false b ⟨false, c, s, seen⟩ = ⟨false, b, s, seen⟩ := by
  simp [drive]

theorem drive_raise : drive d true b ⟨false, c, s, seen⟩ =
    ⟨true, b, d.rise (b && !d.low s) s, seen⟩ := by
  simp [drive]

theorem drive_lower : drive d false b ⟨true, c, s, seen⟩ = ⟨false, b, d.fall s, seen⟩ := by
  simp [drive]

theorem drive_same : drive d c b ⟨c, b, s, seen⟩ = ⟨c, b, s, seen⟩ := by
  cases c <;> simp [drive, line]

theorem drive_start (h : d.low s = false) : drive d true false ⟨true, true, s, seen⟩ =
    ⟨true, false, d.start s, seen ++ [.start]⟩ := by
  simp [drive, line, h]

theorem drive_stop (h : d.low s = false) : drive d true true ⟨true, false, s, seen⟩ =
    ⟨true, true, d.stop s, seen ++ [.stop]⟩ := by
  simp [drive, line, h]

end Wires

end OpenDrain
