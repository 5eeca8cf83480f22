import Gec6818Bl1.Boot.Division
import Gec6818Bl1.Lib.ByteMem
import Gec6818Bl1.Lib.CString
import Gec6818Bl1.Lib.Splice
import Mathlib.Data.Nat.Digits.Lemmas
import Mathlib.Tactic.SplitIfs

/-!
# Numbers as text

`printi` and `printl` of `printf.c` write the digits of a number backwards into a buffer on the
stack and print what stands there. They differ in the width of the number and in how they divide;
`printNumber` is what they share.

* **The digits** are those of `Nat.digits`, last one first, and the string in the buffer grows by
  each of them at its front (`run_digits`). There are 20 at most, so a sign and the terminator have
  a place too.
* **The sign** stands in front of the digits, unless zeros go between the two. Then it is sent by
  itself.
* What is sent depends on the number alone, not on its width, the division or what was on the stack
  (`printNumber_eq`).
-/

namespace Gec6818Bl1.Printf

open ByteMem CString Polling

abbrev U32 := BitVec 32

abbrev U64 := BitVec 64

/-- A character constant. -/
def char (c : Char) : Byte := BitVec.ofNat 8 c.toNat

def padRight : U32 := 1

def padZero : U32 := 2

def printBufLen : ℤ := 22

/-! ## Where the characters go -/

/-- What `str` stands for: the console if it is null, and otherwise a place in memory. -/
inductive Str where
  | console (sent : List Byte)
  | memory (mem : ℤ → Byte) (pos : ℤ)

/-- `printchar`. -/
def printchar : Str → Byte → Str
  | .console sent, c => .console (sent ++ [c])
  | .memory mem pos, c => .memory (Function.update mem pos c) (pos + 1)

/-- `out` and the count `pc`. -/
structure Output where
  out : Str
  pc : U32

/-- `printchar(out, c); ++pc;`. -/
def Output.printchar (o : Output) (c : Byte) : Output :=
  { out := Printf.printchar o.out c, pc := o.pc + 1 }

/-! ## Strings -/

/-- The first `if` of `prints`: how many characters are missing, and which one stands for them. -/
def padding (fuel : ℕ) (string : ℤ) (mem : ℤ → Byte) (width pad : U32) : Option (U32 × Byte) :=
  if 0 < width.toInt then do
    let len ← run (scan 0 mem fun (len : U32) _ => len + 1) fuel (string, 0)
    pure (if width.toInt ≤ len.toInt then 0 else width - len,
      if pad &&& padZero ≠ 0 then char '0' else char ' ')
  else pure (width, char ' ')

/-- `for (; width > 0; --width)`. -/
def padBody (padchar : Byte) (s : U32 × Output) : U32 × Output ⊕ U32 × Output :=
  if 0 < s.1.toInt then .inl (s.1 - 1, s.2.printchar padchar) else .inr s

/-- `prints`. -/
def prints (fuel : ℕ) (out : Str) (string : ℤ) (mem : ℤ → Byte) (width pad : U32) :
    Option Output := do
  let (width, padchar) ← padding fuel string mem width pad
  let (width, o) ←
    if pad &&& padRight = 0 then run (padBody padchar) fuel (width, ⟨out, 0⟩)
    else pure (width, ⟨out, 0⟩)
  let o ← run (scan 0 mem Output.printchar) fuel (string, o)
  let (_, o) ← run (padBody padchar) fuel (width, o)
  pure o

/-! ## Numbers -/

/-- `print_buf` and the pointer `s` into it, with the places of the stores so far. The places count
from the start of the buffer, and a store outside it is one in memory that is not its own. -/
structure PrintBuf where
  mem : ℤ → Byte
  s : ℤ
  stores : List ℤ

/-- `print_buf[a] = c`. -/
def PrintBuf.store (q : PrintBuf) (a : ℤ) (c : Byte) : PrintBuf :=
  { q with mem := Function.update q.mem a c, stores := q.stores ++ [a] }

/-- `s = print_buf + PRINT_BUF_LEN - 1; *s = '\0';`. -/
def PrintBuf.terminate (q : PrintBuf) : PrintBuf :=
  { q.store (printBufLen - 1) 0 with s := printBufLen - 1 }

/-- `*--s = c`. -/
def PrintBuf.push (q : PrintBuf) (c : Byte) : PrintBuf :=
  { q.store (q.s - 1) c with s := q.s - 1 }

/-- The digit for `t`. -/
def digit (letbase t : U32) : Byte :=
  ((if 10 ≤ t.toInt then t + (letbase - 48 - 10) else t) + 48).setWidth 8

/-- `while (u)`, with `rem` and `quo` for the division by the base. -/
def digitsBody {w : ℕ} (rem : BitVec w → Option U32) (quo : BitVec w → Option (BitVec w))
    (letbase : U32) (s : BitVec w × PrintBuf) : BitVec w × PrintBuf ⊕ Option PrintBuf :=
  if s.1 = 0 then .inr (some s.2)
  else
    match rem s.1, quo s.1 with
    | some t, some u => .inl (u, s.2.push (digit letbase t))
    | _, _ => .inr none

/-- The condition on which `neg` is set. -/
def Neg {w : ℕ} (i : BitVec w) (b sg : U32) : Prop := sg ≠ 0 ∧ b = 10 ∧ i.toInt < 0

instance {w : ℕ} (i : BitVec w) (b sg : U32) : Decidable (Neg i b sg) :=
  inferInstanceAs (Decidable (_ ∧ _ ∧ _))

/-- `if (neg)`: the sign goes in front of the padding or of the digits. -/
def placeSign (neg : Bool) (out : Str) (q : PrintBuf) (width pad : U32) :
    Output × PrintBuf × U32 :=
  if neg then
    if width ≠ 0 ∧ pad &&& padZero ≠ 0 then
      (Output.printchar ⟨out, 0⟩ (char '-'), q, width - 1)
    else (⟨out, 0⟩, q.push (char '-'), width)
  else (⟨out, 0⟩, q, width)

/-- What a call leaves behind. -/
structure Printed where
  out : Str
  ret : U32
  stores : List ℤ

/-- What `printi` and `printl` share. `mem` is what is on the stack before the call. -/
def printNumber {w : ℕ} (rem : BitVec w → Option U32) (quo : BitVec w → Option (BitVec w))
    (fuel : ℕ) (mem : ℤ → Byte) (out : Str) (i : BitVec w) (b sg width pad letbase : U32) :
    Option Printed :=
  let q : PrintBuf := { mem, s := 0, stores := [] }
  if i = 0 then do
    let q := (q.store 0 (char '0')).store 1 0
    let o ← prints fuel out 0 q.mem width pad
    pure ⟨o.out, o.pc, q.stores⟩
  else do
    let u := if Neg i b sg then -i else i
    let q ← (run (digitsBody rem quo letbase) fuel (u, q.terminate)).join
    let (o, q, width) := placeSign (Neg i b sg) out q width pad
    let o' ← prints fuel o.out q.s q.mem width pad
    pure ⟨o'.out, o.pc + o'.pc, q.stores⟩

/-- `printi`. -/
def printi (mode : OpMode) (fuel : ℕ) (mem : ℤ → Byte) (out : Str)
    (i b sg width pad letbase : U32) : Option Printed :=
  printNumber (fun u => getremainder mode fuel u b) (fun u => getquotient mode fuel u b)
    fuel mem out i b sg width pad letbase

/-- `printl`, which the aarch64 build has. -/
def printl (fuel : ℕ) (mem : ℤ → Byte) (out : Str) (i : U64) (b sg width pad letbase : U32) :
    Option Printed :=
  printNumber (fun u => some ((u % b.signExtend 64).setWidth 32))
    (fun u => some (u / b.signExtend 64)) fuel mem out i b sg width pad letbase

/-! ## What a number looks like -/

/-- All of `cs`, one after another. -/
def emit (out : Str) (cs : List Byte) : Str := cs.foldl printchar out

/-- The padding of `n` characters, none if they fill the width. -/
def fill (width : ℤ) (pad : U32) (n : ℕ) : List Byte :=
  List.replicate (width - n).toNat (if pad &&& padZero ≠ 0 then char '0' else char ' ')

/-- Sign and digits in a field: zeros in front go between the two, and zeros may stand behind. -/
def layout (width : ℤ) (pad : U32) (sign digits : List Byte) : List Byte :=
  let filler := fill width pad (sign ++ digits).length
  if pad &&& padRight ≠ 0 then sign ++ digits ++ filler
  else if pad &&& padZero ≠ 0 then sign ++ filler ++ digits
  else filler ++ sign ++ digits

/-- The number that `i` stands for in a conversion. -/
def value {w : ℕ} (i : BitVec w) (b sg : U32) : ℤ :=
  if sg ≠ 0 ∧ b = 10 then i.toInt else i.toNat

def sign (v : ℤ) : List Byte := if v < 0 then [char '-'] else []

def digitChar (letbase : U32) (d : ℕ) : Byte :=
  if d < 10 then BitVec.ofNat 8 (48 + d) else BitVec.ofNat 8 (letbase.toNat + (d - 10))

/-- The digits of `n`, the most significant one first. -/
def numeral (b letbase : U32) (n : ℕ) : List Byte :=
  if n = 0 then [char '0'] else ((Nat.digits b.toNat n).map (digitChar letbase)).reverse

/-- The padding that a number can have: zeros behind it would be digits of it. -/
def textPad (pad : U32) : U32 := if pad &&& padRight ≠ 0 then padRight else pad

/-- What a number is printed as. -/
def text (v : ℤ) (b width pad letbase : U32) : List Byte :=
  layout width.toInt (textPad pad) (sign v) (numeral b letbase v.natAbs)

/-! ## What is sent -/

theorem emit_console (sent cs : List Byte) : emit (.console sent) cs = .console (sent ++ cs) := by
  induction cs generalizing sent with
  | nil => exact congrArg Str.console (List.append_nil sent).symm
  | cons c cs ih => exact (ih _).trans (congrArg Str.console (List.append_assoc ..))

theorem emit_memory (mem : ℤ → Byte) (pos : ℤ) (cs : List Byte) :
    ∃ mem', emit (.memory mem pos) cs = .memory mem' (pos + cs.length) ∧
      (∀ a < pos, mem' a = mem a) ∧ ∀ k < cs.length, mem' (pos + k) = cs.getD k 0 := by
  induction cs generalizing mem pos with
  | nil => exact ⟨mem, by simp [emit], fun _ _ => rfl, fun k hk => absurd hk (Nat.not_lt_zero k)⟩
  | cons c cs ih =>
    obtain ⟨mem', hemit, hbelow, hcs⟩ := ih (Function.update mem pos c) (pos + 1)
    refine ⟨mem', ?_, ?_, ?_⟩
    · rw [List.length_cons, Nat.cast_succ, Int.add_comm _ 1, ← Int.add_assoc]
      exact hemit
    · intro a ha
      rw [hbelow a (by omega), Function.update_of_ne (Int.ne_of_lt ha)]
    · intro k hk
      cases k with
      | zero =>
        have hpos := hbelow pos (by omega)
        rw [Function.update_self] at hpos
        simpa using hpos
      | succ k =>
        rw [Nat.cast_succ, Int.add_comm _ 1, ← Int.add_assoc, hcs k (Nat.lt_of_succ_lt_succ hk)]
        rfl

/-- **What was sent** can be read off what is left behind. -/
theorem emit_injective (out : Str) : Function.Injective (emit out) := by
  intro cs ds h
  cases out with
  | console sent =>
    rw [emit_console, emit_console] at h
    exact List.append_cancel_left (Str.console.inj h)
  | memory mem pos =>
    obtain ⟨mem₁, hcs, -, hcs'⟩ := emit_memory mem pos cs
    obtain ⟨mem₂, hds, -, hds'⟩ := emit_memory mem pos ds
    rw [hcs, hds] at h
    obtain ⟨rfl, hlen⟩ := Str.memory.inj h
    have hlen' : cs.length = ds.length := by omega
    exact Splice.ext_getD 0 hlen' fun k hk => (hcs' k hk).symm.trans (hds' k (hlen' ▸ hk))

/-! ## The loops of `prints` -/

theorem foldl_printchar (o : Output) (cs : List Byte) :
    cs.foldl Output.printchar o = ⟨emit o.out cs, o.pc + BitVec.ofNat 32 cs.length⟩ := by
  induction cs generalizing o with
  | nil => simp [emit]
  | cons c cs ih =>
    rw [List.foldl_cons, ih]
    simp only [Output.printchar, emit, List.foldl_cons, List.length_cons, BitVec.ofNat_add,
      Output.mk.injEq, true_and]
    rw [BitVec.add_assoc, BitVec.add_comm 1]
    rfl

theorem foldl_count (len : U32) (cs : List Byte) :
    cs.foldl (fun len _ => len + 1) len = len + BitVec.ofNat 32 cs.length := by
  induction cs generalizing len with
  | nil => simp
  | cons c cs ih =>
    rw [List.foldl_cons, ih, List.length_cons, BitVec.ofNat_add, BitVec.add_assoc,
      BitVec.add_comm 1]
    rfl

theorem toInt_sub_one {width : U32} (h : -2 ^ 31 < width.toInt) :
    (width - 1).toInt = width.toInt - 1 := by
  have hlt := width.isLt
  simp only [BitVec.toInt_eq_toNat_cond, BitVec.toNat_sub, BitVec.ofNat_eq_ofNat,
    BitVec.toNat_ofNat] at h ⊢
  split_ifs at h ⊢ <;> omega

/-- A loop of `prints` that pads, and a width that no other loop pads for. -/
theorem run_padBody (padchar : Byte) (width : U32) (o : Output) {fuel : ℕ}
    (hfuel : width.toInt.toNat < fuel) :
    ∃ width', run (padBody padchar) fuel (width, o) =
      some (width', (List.replicate width.toInt.toNat padchar).foldl Output.printchar o) ∧
        width'.toInt ≤ 0 := by
  induction hn : width.toInt.toNat generalizing width o fuel with
  | zero =>
    have hle : ¬ 0 < width.toInt := by omega
    exact ⟨width, run_first (by omega) (if_neg hle), by omega⟩
  | succ n ih =>
    have hlt : 0 < width.toInt := by omega
    have hsub : (width - 1).toInt = width.toInt - 1 := toInt_sub_one (by omega)
    have hround : padBody padchar (width, o) = .inl (width - 1, o.printchar padchar) := if_pos hlt
    cases fuel with
    | zero => omega
    | succ fuel =>
      rw [run_of_inl hround]
      exact ih _ _ (by omega) (by omega)

section Strings

variable {mem : ℤ → Byte} {string : ℤ} {cs : List Byte} {fuel : ℕ}

theorem run_strlen (hcs : Holds 0 mem string cs) (hfuel : cs.length < fuel) :
    run (scan 0 mem fun (len : U32) _ => len + 1) fuel (string, 0) =
      some (BitVec.ofNat 32 cs.length) := by
  rw [run_scan hcs _ _ hfuel, foldl_count]
  exact congrArg some (BitVec.zero_add _)

theorem padding_eq (width pad : U32) (hcs : Holds 0 mem string cs) (hlen : cs.length < 2 ^ 31)
    (hfuel : cs.length < fuel) :
    ∃ width' padchar, padding fuel string mem width pad = some (width', padchar) ∧
      width'.toInt ≤ width.toInt ∧
        List.replicate width'.toInt.toNat padchar = fill width.toInt pad cs.length := by
  rw [padding]
  by_cases hpos : 0 < width.toInt
  · have hstrlen : (BitVec.ofNat 32 cs.length).toInt = cs.length := by
      rw [BitVec.toInt_ofNat']
      exact Int.bmod_eq_of_le (by omega) (by omega)
    rw [if_pos hpos, run_strlen hcs hfuel]
    refine ⟨_, _, rfl, ?_⟩
    rw [fill]
    by_cases hle : width.toInt ≤ cs.length
    · rw [if_pos (hstrlen.symm ▸ hle), Int.toNat_of_nonpos (by omega : width.toInt - _ ≤ 0)]
      exact ⟨Int.le_of_lt hpos, rfl⟩
    · have hsub : (width - BitVec.ofNat 32 cs.length).toInt = width.toInt - cs.length := by
        have hmax := width.toInt_lt
        rw [BitVec.toInt_sub, hstrlen]
        exact Int.bmod_eq_of_le (by omega) (by omega)
      rw [if_neg (hstrlen.symm ▸ hle), hsub]
      exact ⟨by omega, rfl⟩
  · rw [if_neg hpos]
    refine ⟨_, _, rfl, Int.le_refl _, ?_⟩
    rw [fill, Int.toNat_of_nonpos (by omega), Int.toNat_of_nonpos (by omega)]
    rfl

theorem layout_nil (width : ℤ) (pad : U32) (cs : List Byte) : layout width pad [] cs =
    if pad &&& padRight = 0 then fill width pad cs.length ++ cs
    else cs ++ fill width pad cs.length := by
  unfold layout
  by_cases hright : pad &&& padRight = 0
  · rw [if_neg (not_not.2 hright), if_pos hright]
    by_cases hzero : pad &&& padZero ≠ 0
    · rw [if_pos hzero]
      rfl
    · rw [if_neg hzero, List.append_nil]
      rfl
  · rw [if_pos hright, if_neg hright]
    rfl

/-- **`prints`** sends the string with its padding, and counts what it sends. -/
theorem prints_eq (out : Str) (width pad : U32) (hcs : Holds 0 mem string cs)
    (hlen : cs.length < 2 ^ 31) (hfuel : 2 ^ 31 ≤ fuel) :
    prints fuel out string mem width pad =
      some ⟨emit out (layout width.toInt pad [] cs),
        BitVec.ofNat 32 (layout width.toInt pad [] cs).length⟩ := by
  obtain ⟨width₁, padchar, hpadding, hle, hfill⟩ :=
    padding_eq width pad hcs hlen (Nat.lt_of_lt_of_le hlen hfuel)
  have hmax : width.toInt < 2 ^ 31 := width.toInt_lt
  have hpadfuel : width₁.toInt.toNat < fuel := by omega
  have hcopy (o : Output) := run_scan hcs Output.printchar o (Nat.lt_of_lt_of_le hlen hfuel)
  have hdone {w : U32} (o : Output) (hw : w.toInt ≤ 0) :
      run (padBody padchar) fuel (w, o) = some (w, o) :=
    run_first (by omega) (if_neg (Int.not_lt.2 hw))
  have hall : prints fuel out string mem width pad =
      some ((layout width.toInt pad [] cs).foldl Output.printchar ⟨out, 0⟩) := by
    by_cases hright : pad &&& padRight = 0
    · obtain ⟨width₂, hpad, hle₂⟩ := run_padBody padchar width₁ ⟨out, 0⟩ hpadfuel
      rw [prints, hpadding]
      simp only [Option.bind_eq_bind, Option.bind_some, if_pos hright, hpad, hcopy, hdone _ hle₂,
        hfill, Option.pure_def]
      rw [layout_nil, if_pos hright, List.foldl_append]
    · obtain ⟨width₂, hpad, -⟩ := run_padBody padchar width₁
        (cs.foldl Output.printchar ⟨out, 0⟩) hpadfuel
      rw [prints, hpadding]
      simp only [Option.bind_eq_bind, Option.bind_some, if_neg hright, Option.pure_def, hcopy, hpad,
        hfill]
      rw [layout_nil, if_neg hright, List.foldl_append]
  rw [hall, foldl_printchar]
  exact congrArg (some <| Output.mk _ ·) (BitVec.zero_add _)

end Strings

/-! ## The digits -/

/-- Base 10, or base 16 in either case. -/
def Supported (b letbase : U32) : Prop :=
  b = 10 ∨ b = 16 ∧ (letbase.toNat = 'a'.toNat ∨ letbase.toNat = 'A'.toNat)

/-- `rem` and `quo` divide by `b`. -/
structure Divides {w : ℕ} (rem : BitVec w → Option U32) (quo : BitVec w → Option (BitVec w))
    (b : ℕ) : Prop where
  rem : ∀ u, rem u = some (BitVec.ofNat 32 (u.toNat % b))
  quo : ∀ u, ∃ u', quo u = some u' ∧ u'.toNat = u.toNat / b

/-- From `q` to `q'` the string in the buffer has grown by `ds` at its front. -/
structure Prepends (ds : List Byte) (q q' : PrintBuf) : Prop where
  holds : ∀ cs, Holds 0 q.mem q.s cs → Holds 0 q'.mem q'.s (ds ++ cs)
  s : q'.s = q.s - ds.length
  stores : ∀ a ∈ q'.stores, a ∈ q.stores ∨ q'.s ≤ a ∧ a < q.s

section Digits

variable {w : ℕ} {rem : BitVec w → Option U32} {quo : BitVec w → Option (BitVec w)}
  {b letbase : U32} {q q₁ q₂ : PrintBuf} {ds es : List Byte} {c : Byte} {d n : ℕ}

theorem Prepends.refl (q : PrintBuf) : Prepends [] q q where
  holds _ h := h
  s := (Int.sub_zero _).symm
  stores _ h := .inl h

theorem Prepends.push (hc : c ≠ 0) : Prepends [c] q (q.push c) where
  holds _ h := h.push hc
  s := rfl
  stores a ha := by
    rcases List.mem_append.1 ha with ha | ha
    · exact .inl ha
    · have haeq : a = q.s - 1 := List.mem_singleton.1 ha
      have hs : (q.push c).s = q.s - 1 := rfl
      exact .inr (by omega)

theorem Prepends.trans (h₁ : Prepends ds q q₁) (h₂ : Prepends es q₁ q₂) :
    Prepends (es ++ ds) q q₂ where
  holds cs h := by
    rw [List.append_assoc]
    exact h₂.holds _ (h₁.holds cs h)
  s := by
    rw [h₂.s, h₁.s, List.length_append]
    omega
  stores a ha := by
    have hs₁ := h₁.s
    have hs₂ := h₂.s
    rcases h₂.stores a ha with ha₁ | ha₁
    · rcases h₁.stores a ha₁ with ha | ha
      · exact .inl ha
      · exact .inr (by omega)
    · exact .inr (by omega)

theorem Supported.one_lt (h : Supported b letbase) : 1 < b.toNat := by
  rcases h with rfl | ⟨rfl, -⟩ <;> decide

theorem Supported.le (h : Supported b letbase) : b.toNat ≤ 16 := by
  rcases h with rfl | ⟨rfl, -⟩ <;> decide

/-- No digit is the terminator or a sign. -/
theorem Supported.le_digitChar (h : Supported b letbase) (hd : d < b.toNat) :
    '0'.toNat ≤ (digitChar letbase d).toNat := by
  have h0 : '0'.toNat = 48 := rfl
  have ha : 'a'.toNat = 97 := rfl
  have hA : 'A'.toNat = 65 := rfl
  have hle := h.le
  rw [digitChar]
  by_cases h10 : d < 10
  · rw [if_pos h10, BitVec.toNat_ofNat]
    omega
  · rw [if_neg h10, BitVec.toNat_ofNat]
    rcases h with rfl | ⟨-, hl⟩
    · exact absurd hd h10
    · omega

/-- What is stored for a digit is its character: the terms that cancel do so in 8 bits too. -/
theorem digit_ofNat (letbase : U32) (hd : d ≤ 16) :
    digit letbase (BitVec.ofNat 32 d) = digitChar letbase d := by
  have ht : (BitVec.ofNat 32 d).toInt = d := by
    rw [BitVec.toInt_ofNat']
    exact Int.bmod_eq_of_le (by omega) (by omega)
  apply BitVec.eq_of_toNat_eq
  rw [digit, digitChar, ht, BitVec.toNat_setWidth]
  by_cases h10 : d < 10
  · rw [if_pos h10, if_neg (by omega), BitVec.toNat_add]
    simp only [BitVec.toNat_ofNat, BitVec.ofNat_eq_ofNat]
    omega
  · rw [if_neg h10, if_pos (by omega)]
    simp only [BitVec.toNat_add, BitVec.toNat_sub, BitVec.toNat_ofNat, BitVec.ofNat_eq_ofNat]
    omega

/-- **The digits** stand in front of what the buffer held. -/
theorem run_digits (hdiv : Divides rem quo b.toNat) (h : Supported b letbase) (u : BitVec w)
    (q : PrintBuf) {fuel : ℕ} (hfuel : (Nat.digits b.toNat u.toNat).length < fuel) :
    ∃ q', run (digitsBody rem quo letbase) fuel (u, q) = some (some q') ∧
      Prepends ((Nat.digits b.toNat u.toNat).map (digitChar letbase)).reverse q q' := by
  induction fuel generalizing u q with
  | zero => cases hfuel
  | succ fuel ih =>
    by_cases hu : u = 0
    · subst hu
      have hdigits : Nat.digits b.toNat (0 : BitVec w).toNat = [] := by simp
      rw [hdigits]
      exact ⟨q, run_of_inr (if_pos rfl), .refl q⟩
    · have hpos : 0 < u.toNat := Nat.pos_of_ne_zero fun h0 => hu (BitVec.eq_of_toNat_eq h0)
      have hlt : u.toNat % b.toNat < b.toNat := Nat.mod_lt _ (by have := h.one_lt; omega)
      obtain ⟨u', hquo, hu'⟩ := hdiv.quo u
      have hround : digitsBody rem quo letbase (u, q) =
          .inl (u', q.push (digitChar letbase (u.toNat % b.toNat))) := by
        rw [digitsBody, if_neg hu, hdiv.rem, hquo, ← digit_ofNat letbase (hlt.le.trans h.le)]
      have hdigits := Nat.digits_def' h.one_lt hpos
      rw [← hu'] at hdigits
      rw [hdigits, List.length_cons] at hfuel
      obtain ⟨q', hrun, hq'⟩ := ih u' (q.push _) (Nat.lt_of_succ_lt_succ hfuel)
      refine ⟨q', (run_of_inl hround).trans hrun, ?_⟩
      rw [hdigits, List.map_cons, List.reverse_cons]
      refine Prepends.trans (.push fun h0 => ?_) hq'
      have hchar := h.le_digitChar hlt
      rw [h0] at hchar
      exact absurd hchar (by decide)

/-- A number of 64 bits has 20 digits at most. -/
theorem length_numeral (h : Supported b letbase) (hn : n < 2 ^ 64) :
    (numeral b letbase n).length ≤ 20 := by
  rw [numeral]
  by_cases h0 : n = 0
  · rw [if_pos h0]
    decide
  · rw [if_neg h0, List.length_reverse, List.length_map, Nat.digits_length_le_iff h.one_lt]
    have hb : 10 ≤ b.toNat := by
      rcases h with rfl | ⟨rfl, -⟩ <;> decide
    have hpow : 2 ^ 64 ≤ 10 ^ 20 := by norm_num
    exact hn.trans_le (hpow.trans (Nat.pow_le_pow_left hb 20))

end Digits

/-! ## The sign -/

section Sign

variable {w : ℕ} {i : BitVec w} {b sg : U32}

theorem value_neg_iff : value i b sg < 0 ↔ Neg i b sg := by
  rw [value, Neg]
  by_cases h : sg ≠ 0 ∧ b = 10
  · rw [if_pos h]
    exact ⟨fun hi => ⟨h.1, h.2, hi⟩, fun hneg => hneg.2.2⟩
  · rw [if_neg h]
    simp only [not_lt.2 (Int.natCast_nonneg _), false_iff]
    exact fun h' => h ⟨h'.1, h'.2.1⟩

theorem toNat_neg_of_toInt_neg (hi : i.toInt < 0) : (-i).toNat = i.toInt.natAbs := by
  have hlt := i.isLt
  rw [BitVec.toInt_eq_toNat_cond] at hi ⊢
  by_cases h : 2 * i.toNat < 2 ^ w
  · rw [if_pos h] at hi
    omega
  · rw [if_neg h, BitVec.toNat_neg, Nat.mod_eq_of_lt (by omega)]
    omega

/-- **The magnitude.** `-i` is right for the least number too, as an unsigned one. -/
theorem toNat_magnitude :
    (if Neg i b sg then -i else i).toNat = (value i b sg).natAbs := by
  by_cases hneg : Neg i b sg
  · rw [if_pos hneg, toNat_neg_of_toInt_neg hneg.2.2, value, if_pos ⟨hneg.1, hneg.2.1⟩]
  · rw [if_neg hneg]
    have hpos := Int.not_lt.1 (mt value_neg_iff.1 hneg)
    rw [value] at hpos ⊢
    by_cases h : sg ≠ 0 ∧ b = 10
    · rw [if_pos h] at hpos ⊢
      have hmsb : i.msb = false := by
        rw [BitVec.msb_eq_toInt]
        exact decide_eq_false (Int.not_lt.2 hpos)
      rw [BitVec.toInt_eq_toNat_of_msb hmsb, Int.natAbs_natCast]
    · rw [if_neg h, Int.natAbs_natCast]

theorem natAbs_value_lt (i : BitVec w) (b sg : U32) : (value i b sg).natAbs < 2 ^ w :=
  toNat_magnitude ▸ BitVec.isLt (if Neg i b sg then -i else i)

theorem value_zero : value (0 : BitVec w) b sg = 0 := by
  rw [value]
  split_ifs <;> simp

theorem value_ne_zero (hi : i ≠ 0) : (value i b sg).natAbs ≠ 0 := by
  rw [← toNat_magnitude]
  intro h0
  have hzero := BitVec.eq_of_toNat_eq (h0.trans BitVec.toNat_zero.symm)
  split_ifs at hzero
  · exact hi (BitVec.neg_eq_zero_iff.1 hzero)
  · exact hi hzero

end Sign

/-! ## One number -/

/-- What the code sends for the number `v`. In front of zeros the sign is sent by itself, and they
then go into one place less. -/
def printed (v : ℤ) (b width pad letbase : U32) : List Byte :=
  let digits := numeral b letbase v.natAbs
  if v < 0 ∧ width ≠ 0 ∧ pad &&& padZero ≠ 0 then
    char '-' :: layout (width - 1).toInt pad [] digits
  else layout width.toInt pad [] (sign v ++ digits)

/-- The places of `print_buf`. -/
def InPrintBuf (stores : List ℤ) : Prop := ∀ a ∈ stores, 0 ≤ a ∧ a < printBufLen

section Number

variable {w : ℕ} {rem : BitVec w → Option U32} {quo : BitVec w → Option (BitVec w)}
  {b letbase : U32} {mem : ℤ → Byte} {cs : List Byte} {q : PrintBuf} {fuel n : ℕ}

theorem Prepends.inPrintBuf (h : Prepends cs (PrintBuf.terminate ⟨mem, 0, []⟩) q)
    (hlen : cs.length ≤ 21) : InPrintBuf q.stores := by
  intro a ha
  have hs : q.s = 21 - cs.length := h.s
  have hend : printBufLen = 22 := rfl
  rcases h.stores a ha with ha | ha
  · have haeq : a = 21 := List.mem_singleton.1 ha
    omega
  · have hlt : a < 21 := ha.2
    omega

theorem Prepends.prints_eq (h : Prepends cs (PrintBuf.terminate ⟨mem, 0, []⟩) q) (out : Str)
    (width pad : U32) (hlen : cs.length ≤ 21) (hfuel : 2 ^ 31 ≤ fuel) :
    prints fuel out q.s q.mem width pad =
      some ⟨emit out (layout width.toInt pad [] cs),
        BitVec.ofNat 32 (layout width.toInt pad [] cs).length⟩ := by
  have hend : (PrintBuf.terminate ⟨mem, 0, []⟩).mem 21 = 0 := rfl
  have hcs := h.holds [] hend
  rw [List.append_nil] at hcs
  exact Printf.prints_eq out width pad hcs (by omega) hfuel

/-- The sign and the padding behind the digits, in the three ways that `if (neg)` goes. -/
theorem Prepends.placeSign (h : Prepends (numeral b letbase n) (PrintBuf.terminate ⟨mem, 0, []⟩) q)
    (out : Str) (width pad : U32) (hlen : (numeral b letbase n).length ≤ 20) (hfuel : 2 ^ 31 ≤ fuel)
    (v : ℤ) (hn : v.natAbs = n) : ∃ o q' width' o',
      Printf.placeSign (v < 0) out q width pad = (o, q', width') ∧
      prints fuel o.out q'.s q'.mem width' pad = some o' ∧
      o'.out = emit out (printed v b width pad letbase) ∧
      o.pc + o'.pc = BitVec.ofNat 32 (printed v b width pad letbase).length ∧
      InPrintBuf q'.stores := by
  subst hn
  unfold Printf.placeSign printed
  by_cases hv : v < 0
  · by_cases hz : width ≠ 0 ∧ pad &&& padZero ≠ 0
    · refine ⟨Output.printchar ⟨out, 0⟩ (char '-'), q, width - 1, _, ?_,
        h.prints_eq _ _ _ (Nat.le_succ_of_le hlen) hfuel, ?_, ?_,
        h.inPrintBuf (Nat.le_succ_of_le hlen)⟩
      · rw [decide_eq_true hv, if_pos rfl, if_pos hz]
      · rw [if_pos ⟨hv, hz⟩]
        rfl
      · rw [if_pos ⟨hv, hz⟩, List.length_cons, BitVec.ofNat_add, BitVec.add_comm]
        rfl
    · have hq := h.trans (.push (by decide : char '-' ≠ 0))
      have hsign : sign v = [char '-'] := if_pos hv
      refine ⟨⟨out, 0⟩, q.push (char '-'), width, _, ?_,
        hq.prints_eq _ _ _ (Nat.succ_le_succ hlen) hfuel, ?_, ?_,
        hq.inPrintBuf (Nat.succ_le_succ hlen)⟩
      · rw [decide_eq_true hv, if_pos rfl, if_neg hz]
      · rw [if_neg (fun hall => hz hall.2), hsign]
      · rw [if_neg (fun hall => hz hall.2), hsign]
        exact BitVec.zero_add _
  · have hsign : sign v = [] := if_neg hv
    refine ⟨⟨out, 0⟩, q, width, _, ?_, h.prints_eq _ _ _ (Nat.le_succ_of_le hlen) hfuel, ?_, ?_,
      h.inPrintBuf (Nat.le_succ_of_le hlen)⟩
    · rw [decide_eq_false hv, if_neg Bool.false_ne_true]
    · rw [if_neg (fun hall => hv hall.1), hsign, List.nil_append]
    · rw [if_neg (fun hall => hv hall.1), hsign, List.nil_append]
      exact BitVec.zero_add _

/-- What a call sends, returns and stores for the number `v`. -/
def Sends (r : Option Printed) (out : Str) (v : ℤ) (b width pad letbase : U32) : Prop :=
  ∃ stores, r = some ⟨emit out (printed v b width pad letbase),
    BitVec.ofNat 32 (printed v b width pad letbase).length, stores⟩ ∧ InPrintBuf stores

theorem printNumber_zero (rem : BitVec w → Option U32) (quo : BitVec w → Option (BitVec w))
    (hfuel : 2 ^ 31 ≤ fuel) (mem : ℤ → Byte) (out : Str) (b sg width pad letbase : U32) :
    Sends (printNumber rem quo fuel mem out 0 b sg width pad letbase) out 0 b width pad
      letbase := by
  have hcs : Holds 0 (((PrintBuf.mk mem 0 []).store 0 (char '0')).store 1 0).mem 0 [char '0'] :=
    ⟨rfl, by decide, rfl⟩
  have hprints := Printf.prints_eq out width pad hcs (by decide) hfuel
  refine ⟨[0, 1], ?_, ?_⟩
  · rw [printNumber, if_pos rfl]
    simp only [hprints, Option.bind_eq_bind, Option.bind_some]
    rfl
  · have hend : printBufLen = 22 := rfl
    intro a ha
    rcases List.mem_cons.1 ha with rfl | ha
    · omega
    · obtain rfl := List.mem_singleton.1 ha
      omega

/-- **What is sent** depends on the number alone, not on its width, the division or the stack. -/
theorem printNumber_eq (hdiv : Divides rem quo b.toNat) (h : Supported b letbase) (hw : w ≤ 64)
    (hfuel : 2 ^ 31 ≤ fuel) (mem : ℤ → Byte) (out : Str) (i : BitVec w) (sg width pad : U32) :
    Sends (printNumber rem quo fuel mem out i b sg width pad letbase) out (value i b sg) b width pad
      letbase := by
  by_cases hi : i = 0
  · subst hi
    rw [value_zero]
    exact printNumber_zero rem quo hfuel mem out b sg width pad letbase
  have hdigits : numeral b letbase (value i b sg).natAbs =
      ((Nat.digits b.toNat (value i b sg).natAbs).map (digitChar letbase)).reverse :=
    if_neg (value_ne_zero hi)
  have hlen := length_numeral h
    ((natAbs_value_lt i b sg).trans_le (Nat.pow_le_pow_right (by decide) hw))
  have hrounds : (Nat.digits b.toNat (if Neg i b sg then -i else i).toNat).length < fuel := by
    rw [hdigits, List.length_reverse, List.length_map] at hlen
    rw [toNat_magnitude]
    omega
  obtain ⟨q, hrun, hq⟩ := run_digits hdiv h _ (PrintBuf.terminate ⟨mem, 0, []⟩) hrounds
  rw [toNat_magnitude, ← hdigits] at hq
  obtain ⟨o, q', width', o', hsign, hprints, hout, hpc, hstores⟩ :=
    hq.placeSign out width pad hlen hfuel _ rfl
  simp only [value_neg_iff] at hsign
  refine ⟨q'.stores, ?_, hstores⟩
  rw [printNumber, if_neg hi]
  simp only [hrun, Option.join_some, Option.bind_eq_bind, Option.bind_some, hsign, hprints, hout,
    hpc]
  rfl

end Number

end Gec6818Bl1.Printf
