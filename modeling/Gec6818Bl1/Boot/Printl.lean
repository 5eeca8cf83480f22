import Gec6818Bl1.Boot.Printf
import Mathlib.Tactic.ByContra

/-!
# Printing numbers of 64 bits

`text` is what a number should look like in a field: sign, digits and padding, which is no part of
the number. Zeros behind it would be, so there it is spaces.

* **The field.** Where zeros go between the sign and the digits, the code sends the sign and makes
  the field one place smaller, which comes to the same (`layout_cons`).
* **The two functions** send what the number, not the word, calls for, so `printl` and `printi`
  agree on every number that both can hold (`printl_eq`, `printi_eq`).
* **Widths.** `print` adds up the digits of a width in an `int` and passes on what it has, with both
  flags if the format has both (`directive_field`). The width of a format is not negative, as long
  as the sum is an `int`.

**Headline** (`printl_correct_iff`): the only calls that go wrong pad with zeros on the right. What
they send has the digits of another number.
-/

namespace Gec6818Bl1.Printf

open ByteMem CString Polling

/-! ## The field -/

section Field

variable {width : ℤ} {pad : U32} {sgn digits : List Byte} {c : Byte}

theorem length_layout (width : ℤ) (pad : U32) (sgn digits : List Byte) :
    (layout width pad sgn digits).length = max (sgn ++ digits).length width.toNat := by
  unfold layout fill
  split_ifs <;> simp only [List.length_append, List.length_replicate] <;> omega

theorem count_layout (c : Byte) (width : ℤ) (pad : U32) (sgn digits : List Byte) :
    (layout width pad sgn digits).count c =
      sgn.count c + digits.count c + (fill width pad (sgn ++ digits).length).count c := by
  unfold layout
  split_ifs <;> simp only [List.count_append] <;> omega

theorem fill_of_le {n : ℕ} (h : width ≤ n) : fill width pad n = [] := by
  rw [fill, Int.toNat_of_nonpos (by omega)]
  rfl

/-- Without zeros in front the sign is a character like the others. -/
theorem layout_append (h : pad &&& padZero = 0 ∨ width ≤ (sgn ++ digits).length ∨ sgn = []) :
    layout width pad [] (sgn ++ digits) = layout width pad sgn digits := by
  rw [layout_nil, layout]
  by_cases hright : pad &&& padRight = 0
  · rw [if_pos hright, if_neg (not_not.2 hright)]
    by_cases hzero : pad &&& padZero = 0
    · rw [if_neg (not_not.2 hzero), List.append_assoc]
    · rw [if_pos hzero]
      rcases h with h | h | rfl
      · exact absurd h hzero
      · rw [fill_of_le h, List.append_nil, List.nil_append]
      · rfl
  · rw [if_neg hright, if_pos hright]

/-- With zeros in front, the sign takes one place of the field. -/
theorem layout_cons (h : pad &&& padZero ≠ 0) :
    c :: layout (width - 1) pad [] digits = layout width pad [c] digits := by
  have hfill : fill (width - 1) pad digits.length = fill width pad ([c] ++ digits).length := by
    rw [fill, fill, List.length_append]
    congr 1
    simp only [List.length_singleton]
    omega
  rw [layout_nil, layout, hfill, if_pos h]
  by_cases hright : pad &&& padRight = 0
  · rw [if_pos hright, if_neg (not_not.2 hright)]
    rfl
  · rw [if_neg hright, if_pos hright]
    rfl

end Field

/-! ## Widths -/

/-- `*format >= '0' && *format <= '9'`. -/
def IsDigit (c : Byte) : Prop := char '0' ≤ c ∧ c ≤ char '9'

instance (c : Byte) : Decidable (IsDigit c) := inferInstanceAs (Decidable (_ ∧ _))

/-- What a digit makes of the width in front of it. -/
def addDigit (width : U32) (c : Byte) : U32 := width * 10 + (c.setWidth 32 - 48)

/-- `print` behind a `%`, up to the width: the rest of the format, `width` and `pad`. -/
def directive (fuel : ℕ) (mem : ℤ → Byte) (format : ℤ) : Option (ℤ × U32 × U32) := do
  let (format, pad) := if mem format = char '-' then (format + 1, padRight) else (format, 0)
  let (format, pad) ←
    run (scanWhile (· = char '0') mem fun pad _ => pad ||| padZero) fuel (format, pad)
  let (format, width) ← run (scanWhile IsDigit mem addDigit) fuel (format, 0)
  pure (format, width, pad)

/-- The digits of a width. -/
def widthDigits (width : U32) : List Byte :=
  if width = 0 then [] else numeral 10 0x61 width.toNat

/-- The flag for padding on the right. -/
def minusFlag (right : Bool) : List Byte := if right then [char '-'] else []

/-- The flag for padding with zeros. -/
def zeroFlag (zero : Bool) : List Byte := if zero then [char '0'] else []

/-- Flags and width as a format has them. -/
def field (right zero : Bool) (width : U32) : List Byte :=
  minusFlag right ++ (zeroFlag zero ++ widthDigits width)

section Directive

variable {d n : ℕ} {letbase width : U32} {c : Byte} {rest : List Byte}

theorem toNat_digitChar (letbase : U32) (hd : d < 10) : (digitChar letbase d).toNat = 48 + d := by
  rw [digitChar, if_pos hd, BitVec.toNat_ofNat]
  omega

theorem isDigit_digitChar (hd : d < 10) : IsDigit (digitChar letbase d) := by
  have hchar := toNat_digitChar letbase hd
  have h0 : (char '0').toNat = 48 := rfl
  have h9 : (char '9').toNat = 57 := rfl
  exact ⟨BitVec.le_def.2 (by omega), BitVec.le_def.2 (by omega)⟩

theorem addDigit_digitChar (hd : d < 10) (m : ℕ) :
    addDigit (BitVec.ofNat 32 m) (digitChar letbase d) = BitVec.ofNat 32 (d + 10 * m) := by
  apply BitVec.eq_of_toNat_eq
  rw [addDigit, BitVec.toNat_add, BitVec.toNat_mul, BitVec.toNat_sub, BitVec.toNat_setWidth,
    toNat_digitChar letbase hd]
  simp only [BitVec.toNat_ofNat, BitVec.ofNat_eq_ofNat]
  omega

/-- **The width** of some digits is their number, as far as an `int` holds it. -/
theorem foldr_addDigit (ds : List ℕ) (hds : ∀ d ∈ ds, d < 10) :
    ds.foldr (fun d width => addDigit width (digitChar letbase d)) 0 =
      BitVec.ofNat 32 (Nat.ofDigits 10 ds) := by
  induction ds with
  | nil => rfl
  | cons d ds ih =>
    rw [List.foldr_cons, ih fun d hd => hds d (List.mem_cons_of_mem _ hd),
      addDigit_digitChar (hds d List.mem_cons_self), Nat.ofDigits_cons]

theorem widthDigits_of_ne (hw : width ≠ 0) : widthDigits width =
    ((Nat.digits 10 width.toNat).map (digitChar 0x61)).reverse := by
  rw [widthDigits, if_neg hw]
  exact if_neg fun h0 => hw (BitVec.eq_of_toNat_eq h0)

theorem foldl_widthDigits (width : U32) : (widthDigits width).foldl addDigit 0 = width := by
  by_cases hw : width = 0
  · rw [widthDigits, if_pos hw, hw]
    rfl
  · rw [widthDigits_of_ne hw, List.foldl_reverse, List.foldr_map,
      foldr_addDigit _ fun d hd => Nat.digits_lt_base (by decide) hd, Nat.ofDigits_digits,
      BitVec.ofNat_toNat, BitVec.setWidth_eq]

theorem isDigit_of_mem_widthDigits (hc : c ∈ widthDigits width) : IsDigit c := by
  by_cases hw : width = 0
  · rw [widthDigits, if_pos hw] at hc
    cases hc
  · rw [widthDigits_of_ne hw, List.mem_reverse] at hc
    obtain ⟨d, hd, rfl⟩ := List.mem_map.1 hc
    exact isDigit_digitChar (Nat.digits_lt_base (by decide) hd)

theorem length_widthDigits (width : U32) : (widthDigits width).length ≤ 20 := by
  by_cases hw : width = 0
  · rw [widthDigits, if_pos hw]
    exact Nat.zero_le 20
  · rw [widthDigits, if_neg hw]
    exact length_numeral (.inl rfl) (width.isLt.trans (by decide))

/-- No zero stands in front, which would be a flag. -/
theorem headD_widthDigits (hrest : char '9' < rest.headD 0) :
    (widthDigits width ++ rest).headD 0 ≠ char '0' := by
  by_cases hw : width = 0
  · rw [widthDigits, if_pos hw]
    intro hzero
    rw [List.nil_append] at hzero
    rw [hzero] at hrest
    exact absurd hrest (by decide)
  · have hn : width.toNat ≠ 0 := fun h0 => hw (BitVec.eq_of_toNat_eq h0)
    have hne : Nat.digits 10 width.toNat ≠ [] := Nat.digits_ne_nil_iff_ne_zero.2 hn
    have hlast := Nat.getLast_digit_ne_zero 10 hn
    have hlt : (Nat.digits 10 width.toNat).getLast hne < 10 :=
      Nat.digits_lt_base (by decide) (List.getLast_mem hne)
    rw [widthDigits_of_ne hw, ← List.dropLast_append_getLast hne, List.map_append,
      List.reverse_append]
    intro hzero
    have heq : digitChar 0x61 ((Nat.digits 10 width.toNat).getLast hne) = char '0' := hzero
    have hchar := toNat_digitChar 0x61 hlt
    have h0 : (char '0').toNat = 48 := rfl
    rw [heq] at hchar
    omega

/-- Digits and a letter behind them do not begin with a minus sign. -/
theorem headD_ne_minus {cs : List Byte} (hcs : ∀ c ∈ cs, IsDigit c)
    (hrest : char '9' < rest.headD 0) : (cs ++ rest).headD 0 ≠ char '-' := by
  intro hminus
  cases cs with
  | nil =>
    rw [List.nil_append] at hminus
    rw [hminus] at hrest
    exact absurd hrest (by decide)
  | cons c cs =>
    have heq : c = char '-' := hminus
    have hc := (hcs c List.mem_cons_self).1
    rw [heq] at hc
    exact absurd hc (by decide)

theorem eq_of_mem_zeroFlag {zero : Bool} (hc : c ∈ zeroFlag zero) : c = char '0' := by
  cases zero with
  | false => cases hc
  | true => exact List.mem_singleton.1 hc

theorem foldl_zeroFlag (zero : Bool) (pad : U32) :
    (zeroFlag zero).foldl (fun pad _ => pad ||| padZero) pad =
      pad ||| if zero then padZero else 0 := by
  cases zero with
  | false => exact BitVec.or_zero.symm
  | true => rfl

/-- Behind the minus sign, if there is one. -/
theorem holds_minusFlag {mem : ℤ → Byte} {format : ℤ} {cs : List Byte} (right : Bool)
    (h : Holds 0 mem format (minusFlag right ++ cs)) (hcs : cs.headD 0 ≠ char '-') :
    ∃ a : ℤ, a = format + (minusFlag right).length ∧ Holds 0 mem a cs ∧
      (if mem format = char '-' then (format + 1, padRight) else (format, 0)) =
        (a, if right then padRight else 0) := by
  cases right with
  | false =>
    have hne : mem format ≠ char '-' := by
      rw [h.eq_headD]
      exact hcs
    exact ⟨format, (Int.add_zero _).symm, h, if_neg hne⟩
  | true => exact ⟨format + 1, rfl, h.2.2, if_pos h.1⟩

/-- **Widths.** `print` passes on the width of a format, with and without each of the flags. -/
theorem directive_field (right zero : Bool) (width : U32) {mem : ℤ → Byte} {format : ℤ}
    (h : Holds 0 mem format (field right zero width ++ rest)) (hrest : char '9' < rest.headD 0)
    {fuel : ℕ} (hfuel : 32 ≤ fuel) :
    directive fuel mem format = some (format + (field right zero width).length, width,
      (if right then padRight else 0) ||| if zero then padZero else 0) := by
  have hdigits : ∀ c ∈ zeroFlag zero ++ widthDigits width, IsDigit c := by
    intro c hc
    rcases List.mem_append.1 hc with hc | hc
    · rw [eq_of_mem_zeroFlag hc]
      decide
    · exact isDigit_of_mem_widthDigits hc
  have hletter : ¬ IsDigit (rest.headD 0) := fun hdigit => BitVec.not_lt.2 hdigit.2 hrest
  have hzero : (zeroFlag zero).length < fuel := by
    cases zero <;> exact Nat.lt_of_lt_of_le (by decide) hfuel
  have hwidth : (widthDigits width).length < fuel :=
    Nat.lt_of_le_of_lt (length_widthDigits width) (Nat.lt_of_lt_of_le (by decide) hfuel)
  rw [field, List.append_assoc] at h
  obtain ⟨a, ha, hflags, hstart⟩ := holds_minusFlag right h (headD_ne_minus hdigits hrest)
  rw [List.append_assoc] at hflags
  obtain ⟨hrun, hwidths⟩ := run_scanWhile hflags (fun c => eq_of_mem_zeroFlag)
    (headD_widthDigits hrest) (fun pad _ => pad ||| padZero) (if right then padRight else 0) hzero
  obtain ⟨hrun', -⟩ := run_scanWhile hwidths (fun c => isDigit_of_mem_widthDigits) hletter
    addDigit 0 hwidth
  rw [directive, hstart]
  simp only [hrun, hrun', foldl_zeroFlag, foldl_widthDigits, Option.bind_eq_bind,
    Option.bind_some]
  rw [ha, field, List.length_append, List.length_append]
  simp only [Int.natCast_add, Int.add_assoc]
  rfl

end Directive

/-! ## `printl` and `printi` -/

section Printl

variable {i : U64} {b sg width pad letbase : U32} {fuel : ℕ}

theorem Supported.ne_zero (h : Supported b letbase) : b ≠ 0 := by
  rcases h with rfl | ⟨rfl, -⟩ <;> decide

theorem Supported.toNat_signExtend (h : Supported b letbase) :
    (b.signExtend 64).toNat = b.toNat := by
  rcases h with rfl | ⟨rfl, -⟩ <;> decide

theorem divides_printl (h : Supported b letbase) :
    Divides (fun u : U64 => some ((u % b.signExtend 64).setWidth 32))
      (fun u => some (u / b.signExtend 64)) b.toNat where
  rem u := by
    rw [← h.toNat_signExtend, ← BitVec.toNat_umod, BitVec.ofNat_toNat]
  quo u := ⟨_, rfl, by rw [BitVec.toNat_udiv, h.toNat_signExtend]⟩

theorem divides_printi (h : Supported b letbase) (mode : OpMode) (hfuel : 33 ≤ fuel) :
    Divides (fun u => getremainder mode fuel u b) (fun u => getquotient mode fuel u b)
      b.toNat where
  rem u := by
    rw [getremainder_eq mode h.ne_zero hfuel, ← BitVec.toNat_umod, BitVec.ofNat_toNat,
      BitVec.setWidth_eq]
  quo u := ⟨_, getquotient_eq mode h.ne_zero hfuel, BitVec.toNat_udiv⟩

/-- `i` is in the range of the 32-bit type that the conversion prints. -/
def Fits (i : U64) (b sg : U32) : Prop :=
  if sg ≠ 0 ∧ b = 10 then -2 ^ 31 ≤ i.toInt ∧ i.toInt < 2 ^ 31 else i.toNat < 2 ^ 32

/-- `PAD_RIGHT` and `PAD_ZERO` together, and the number does not fill its width. -/
def ZerosBehind (i : U64) (b sg width pad letbase : U32) : Prop :=
  pad &&& padRight ≠ 0 ∧ pad &&& padZero ≠ 0 ∧
    (sign (value i b sg) ++ numeral b letbase (value i b sg).natAbs).length < width.toInt

/-- What is asked of a call that prints `i`: the text of the number with one sign at most, stores
inside the buffer, the count as the result, and the same characters from `printi` if `i` fits. -/
structure PrintsNumber (i : U64) (b sg width pad letbase : U32) (fuel : ℕ) (out : Str)
    (r : Printed) : Prop where
  sent : r.out = emit out (text (value i b sg) b width pad letbase)
  sign : (text (value i b sg) b width pad letbase).count (char '-') ≤ 1
  inside : InPrintBuf r.stores
  count : r.ret.toInt = (text (value i b sg) b width pad letbase).length
  agrees : Fits i b sg → ∀ mode mem', ∃ r',
    printi mode fuel mem' out (i.setWidth 32) b sg width pad letbase = some r' ∧
      r'.out = r.out ∧ r'.ret = r.ret

/-- Whatever the stack holds and wherever the characters go. -/
def Correct (i : U64) (b sg width pad letbase : U32) : Prop :=
  ∀ fuel, 2 ^ 31 ≤ fuel → ∀ mem out, ∃ r,
    printl fuel mem out i b sg width pad letbase = some r ∧
      PrintsNumber i b sg width pad letbase fuel out r

theorem value_setWidth (h : Fits i b sg) : value (i.setWidth 32) b sg = value i b sg := by
  rw [Fits] at h
  rw [value, value]
  by_cases hsg : sg ≠ 0 ∧ b = 10
  · rw [if_pos hsg] at h ⊢
    have hlt := i.isLt
    rw [if_pos hsg, BitVec.toInt_setWidth, Int.bmod_def]
    rw [BitVec.toInt_eq_toNat_cond] at h ⊢
    split_ifs at h ⊢ <;> omega
  · rw [if_neg hsg] at h ⊢
    rw [if_neg hsg, BitVec.toNat_setWidth, Nat.mod_eq_of_lt h]

theorem printl_eq (h : Supported b letbase) (hfuel : 2 ^ 31 ≤ fuel) (mem : ℤ → Byte) (out : Str)
    (i : U64) (sg width pad : U32) :
    Sends (printl fuel mem out i b sg width pad letbase) out (value i b sg) b width pad letbase :=
  printNumber_eq (divides_printl h) h (Nat.le_refl 64) hfuel mem out i sg width pad

theorem printi_eq (h : Supported b letbase) (hfits : Fits i b sg) (mode : OpMode)
    (hfuel : 2 ^ 31 ≤ fuel) (mem : ℤ → Byte) (out : Str) (width pad : U32) :
    Sends (printi mode fuel mem out (i.setWidth 32) b sg width pad letbase) out (value i b sg) b
      width pad letbase := by
  have hdivides := divides_printi h mode (Nat.le_trans (by decide) hfuel : 33 ≤ fuel)
  have hprinti := printNumber_eq hdivides h (by decide) hfuel mem out (i.setWidth 32) sg width pad
  rwa [value_setWidth hfits] at hprinti

/-- The code sends the sign and the digits, with the padding that it is asked for. -/
theorem printed_eq_layout (hwidth : -2 ^ 31 < width.toInt) (v : ℤ) :
    printed v b width pad letbase =
      layout width.toInt pad (sign v) (numeral b letbase v.natAbs) := by
  rw [printed]
  by_cases hv : v < 0 ∧ width ≠ 0 ∧ pad &&& padZero ≠ 0
  · rw [if_pos hv, toInt_sub_one hwidth, layout_cons hv.2.2, sign, if_pos hv.1]
  · rw [if_neg hv]
    refine layout_append ?_
    by_cases hzero : pad &&& padZero = 0
    · exact .inl hzero
    · by_cases hneg : v < 0
      · have hw : width = 0 := by
          by_contra hw
          exact hv ⟨hneg, hw, hzero⟩
        subst hw
        exact .inr (.inl (Int.natCast_nonneg _))
      · exact .inr (.inr (if_neg hneg))

/-- It is the text, unless zeros go behind the digits. -/
theorem layout_textPad_iff (sgn digits : List Byte) :
    layout width.toInt pad sgn digits = layout width.toInt (textPad pad) sgn digits ↔
      ¬ (pad &&& padRight ≠ 0 ∧ pad &&& padZero ≠ 0 ∧ (sgn ++ digits).length < width.toInt) := by
  have hright : padRight &&& padRight ≠ 0 := by decide
  have hspaces : ¬ padRight &&& padZero ≠ 0 := by decide
  rw [textPad]
  by_cases hr : pad &&& padRight ≠ 0
  · rw [if_pos hr, layout, layout, if_pos hr, if_pos hright, List.append_cancel_left_eq, fill, fill,
      if_neg hspaces, List.replicate_inj]
    by_cases hz : pad &&& padZero ≠ 0
    · have hne : char '0' ≠ char ' ' := by decide
      simp only [hr, hz, hne, ne_eq, not_false_eq_true, if_true, true_and, or_false]
      omega
    · simp only [hz, if_false, or_true, false_and, and_false, and_self, not_false_eq_true]
  · rw [if_neg hr]
    simp only [hr, false_and, not_false_eq_true]

theorem length_text_lt (hb : Supported b letbase) (i : U64) (sg width pad : U32) :
    (text (value i b sg) b width pad letbase).length < 2 ^ 31 := by
  have hlen := length_numeral hb (natAbs_value_lt i b sg)
  have hmax : width.toInt < 2 ^ 31 := width.toInt_lt
  have hsign : (sign (value i b sg)).length ≤ 1 := by
    rw [sign]
    split_ifs <;> decide
  rw [text, length_layout, List.length_append]
  omega

theorem count_numeral (hb : Supported b letbase) (n : ℕ) :
    (numeral b letbase n).count (char '-') = 0 := by
  rw [List.count_eq_zero]
  intro hmem
  rw [numeral] at hmem
  by_cases h0 : n = 0
  · rw [if_pos h0] at hmem
    exact absurd (List.mem_singleton.1 hmem) (by decide)
  · rw [if_neg h0, List.mem_reverse] at hmem
    obtain ⟨d, hd, hchar⟩ := List.mem_map.1 hmem
    have hle := hb.le_digitChar (Nat.digits_lt_base hb.one_lt hd)
    rw [hchar] at hle
    exact absurd hle (by decide)

theorem count_fill (width : ℤ) (pad : U32) (n : ℕ) : (fill width pad n).count (char '-') = 0 := by
  rw [List.count_eq_zero, fill]
  intro hmem
  have hchar := List.eq_of_mem_replicate hmem
  split_ifs at hchar
  · exact absurd hchar (by decide)
  · exact absurd hchar (by decide)

/-- The only minus sign is the sign. -/
theorem count_text_le (hb : Supported b letbase) (v : ℤ) :
    (text v b width pad letbase).count (char '-') ≤ 1 := by
  rw [text, count_layout, count_numeral hb, count_fill, sign]
  split_ifs <;> decide

theorem printed_eq_text_iff (hwidth : -2 ^ 31 < width.toInt) :
    printed (value i b sg) b width pad letbase = text (value i b sg) b width pad letbase ↔
      ¬ ZerosBehind i b sg width pad letbase := by
  rw [printed_eq_layout hwidth]
  exact layout_textPad_iff _ _

/-- A call that is right has sent the text. -/
theorem Correct.printed_eq_text (hb : Supported b letbase) (h : Correct i b sg width pad letbase) :
    printed (value i b sg) b width pad letbase =
      text (value i b sg) b width pad letbase := by
  obtain ⟨stores, hprintl, -⟩ := printl_eq hb (Nat.le_refl (2 ^ 31)) (fun _ => 0) (.console []) i
    sg width pad
  obtain ⟨r, hr, hprints⟩ := h (2 ^ 31) (Nat.le_refl _) (fun _ => 0) (.console [])
  rw [hprintl] at hr
  obtain rfl := Option.some.inj hr
  exact emit_injective _ hprints.sent

/-- **64-bit printing.** `printl` prints every number as it should, in every field, unless it is
asked for zeros behind a number that does not fill its width. The least `int`, which it could not
take one place from, is no width that `print` has. -/
theorem printl_correct_iff (i : U64) (b sg width pad letbase : U32) (hb : Supported b letbase)
    (hwidth : -2 ^ 31 < width.toInt) :
    Correct i b sg width pad letbase ↔ ¬ ZerosBehind i b sg width pad letbase := by
  rw [← printed_eq_text_iff hwidth]
  refine ⟨fun h => h.printed_eq_text hb, fun h fuel hfuel mem out => ?_⟩
  obtain ⟨stores, hprintl, hstores⟩ := printl_eq hb hfuel mem out i sg width pad
  refine ⟨_, hprintl, ?_, count_text_le hb _, hstores, ?_, ?_⟩
  · exact congrArg (emit out) h
  · have hlt := length_text_lt hb i sg width pad
    rw [h, BitVec.toInt_ofNat']
    exact Int.bmod_eq_of_le (by omega) (by omega)
  · intro hfits mode mem'
    obtain ⟨stores', hprinti, -⟩ := printi_eq hb hfits mode hfuel mem' out width pad
    exact ⟨_, hprinti, rfl, rfl⟩

example : text (value (BitVec.intMin 64) 10 1) 10 30 padZero 0x61 =
    "-00000000009223372036854775808".toList.map char := by decide

/-- The least number in a field of 30 places, with zeros in front. -/
theorem printl_correct_intMin : Supported 10 0x61 ∧
    Correct (BitVec.intMin 64) 10 1 30 padZero 0x61 :=
  ⟨.inl rfl, (printl_correct_iff _ _ _ _ _ _ (.inl rfl) (by decide)).2 fun h =>
    absurd h.1 (by decide)⟩

/-- `"%-04ld"`, behind the `%`. -/
def leftZeroFormat (a : ℤ) : Byte := ("-04ld".toList.map char).getD a.toNat 0

/-- `"%-04ld"` of `5`: `print` passes on both flags, and `printl` prints `5000`. -/
theorem not_correct_five :
    (∃ format, directive 32 leftZeroFormat 0 = some (format, 4, padRight ||| padZero)) ∧
      printed (value (5 : U64) 10 1) 10 4 (padRight ||| padZero) 0x61 =
        "5000".toList.map char ∧
      ¬ Correct 5 10 1 4 (padRight ||| padZero) 0x61 := by
  have hholds : Holds 0 leftZeroFormat 0 (field true true 4 ++ [char 'l', char 'd']) := by
    have hfield : field true true 4 = [char '-', char '0', char '4'] := by decide
    rw [hfield]
    exact ⟨rfl, by decide, rfl, by decide, rfl, by decide, rfl, by decide, rfl, by decide, rfl⟩
  refine ⟨⟨_, directive_field true true 4 hholds (by decide) le_rfl⟩, by decide, fun h => ?_⟩
  have hzeros : ZerosBehind 5 10 1 4 (padRight ||| padZero) 0x61 :=
    ⟨by decide, by decide, by decide⟩
  exact (printed_eq_text_iff (by decide)).1 (h.printed_eq_text (.inl rfl)) hzeros

end Printl

end Gec6818Bl1.Printf
