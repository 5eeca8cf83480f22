import Gec6818Bl1.Tools.MkBl1Image

/-!
# The text of a header

What `parse_nsih_txt` of `mk_bl1_image.py` accepts, against the format in its docstring: a word of
eight hexadecimal digits on each line, comments behind `//`, and lines with nothing else.

* **A line** has a word for the tool exactly if it has one in the format (`lineWord_eq_some_iff`),
  and the lines that the format passes over have none (`lineWord_of_passed`).
* **A malformed line** has none either, so it is passed over, too. The count is all that remains.

**Headline** (`parseNsihTxt_iff`): the format decides what is accepted unless there are 128 words
and a malformed line besides.
-/

namespace Gec6818Bl1.Tools.HeaderText

open ByteMem PyText Tools

abbrev Line := List Char

/-! ## The format -/

/-- From here on the line is a comment. -/
def IsComment (cs : Line) : Prop := ∃ cs', cs = '/' :: '/' :: cs'

/-- Blank, or only a comment. -/
def Passed (line : Line) : Prop := ∃ ws rest, line = ws ++ rest ∧
  (∀ c ∈ ws, isSpace c = true) ∧ (rest = [] ∨ IsComment rest)

/-- Blanks, and then a token of eight hexadecimal digits. -/
def HasWord (line : Line) (word : BitVec 32) : Prop := ∃ ws token rest, line = ws ++ token ++ rest ∧
  (∀ c ∈ ws, isSpace c = true) ∧ token.length = 8 ∧ (∀ c ∈ token, isHexDigit c = true) ∧
  (EndsToken rest ∨ IsComment rest) ∧ word = BitVec.ofNat 32 (ofHex token)

/-- The words of a text in the format. -/
inductive Format : List Line → List (BitVec 32) → Prop where
  | nil : Format [] []
  | passed {line lines words} : Passed line → Format lines words → Format (line :: lines) words
  | word {line lines word words} : HasWord line word → Format lines words →
      Format (line :: lines) (word :: words)

/-- The lines of a file. -/
def textLines (text : List Char) : List Line := lines (universalNewlines text)

/-! ## Comments -/

section Comments

variable {c : Char} {cs ws rest : Line}

theorem beforeComment_cons (h : c ≠ '/') : beforeComment (c :: cs) = c :: beforeComment cs := by
  rw [beforeComment]
  rintro _ rfl
  exact absurd rfl h

theorem beforeComment_append (h : ∀ c ∈ ws, c ≠ '/') :
    beforeComment (ws ++ cs) = ws ++ beforeComment cs := by
  induction ws with
  | nil => rfl
  | cons c ws ih =>
    rw [List.forall_mem_cons] at h
    rw [List.cons_append, beforeComment_cons h.1, ih h.2]
    rfl

theorem beforeComment_of_isComment (h : IsComment cs) : beforeComment cs = [] := by
  obtain ⟨cs', rfl⟩ := h
  rfl

/-- What is cut off is a comment. -/
theorem exists_comment (cs : Line) :
    ∃ rest, cs = beforeComment cs ++ rest ∧ (rest = [] ∨ IsComment rest) := by
  fun_induction beforeComment cs with
  | case1 cs => exact ⟨'/' :: '/' :: cs, rfl, .inr ⟨cs, rfl⟩⟩
  | case2 c cs _ ih =>
    obtain ⟨rest, heq, hrest⟩ := ih
    exact ⟨rest, congrArg (c :: ·) heq, hrest⟩
  | case3 => exact ⟨[], rfl, .inl rfl⟩

theorem ne_slash_of_isSpace (h : isSpace c = true) : c ≠ '/' := by
  rintro rfl
  exact absurd h (by decide)

theorem ne_slash_of_isHexDigit (h : isHexDigit c = true) : c ≠ '/' := by
  rintro rfl
  exact absurd h (by decide)

theorem endsToken_beforeComment (h : EndsToken rest ∨ IsComment rest) :
    EndsToken (beforeComment rest) := by
  obtain (rfl | ⟨c, cs, rfl, hc⟩) | h := h
  · exact .inl rfl
  · rw [beforeComment_cons (ne_slash_of_isSpace hc)]
    exact .inr ⟨c, _, rfl, hc⟩
  · rw [beforeComment_of_isComment h]
    exact .inl rfl

end Comments

/-! ## Lines -/

section Lines

variable {line : Line} {w : BitVec 32}

theorem not_isSpace_of_isHexDigit {c : Char} (h : isHexDigit c = true) : isSpace c = false := by
  have h0 : '0'.toNat = 48 := rfl
  have h9 : '9'.toNat = 57 := rfl
  have hA : 'A'.toNat = 65 := rfl
  have hF : 'F'.toNat = 70 := rfl
  have ha : 'a'.toNat = 97 := rfl
  have hf : 'f'.toNat = 102 := rfl
  rw [Bool.eq_false_iff]
  intro hspace
  simp only [isHexDigit, isSpace, Bool.or_eq_true, Bool.and_eq_true, decide_eq_true_eq,
    beq_iff_eq] at h hspace
  omega

theorem split_of_passed (h : Passed line) : split (strip (beforeComment line)) = [] := by
  obtain ⟨ws, rest, rfl, hws, hrest⟩ := h
  have hbefore : beforeComment rest = [] := by
    obtain rfl | hrest := hrest
    · rfl
    · exact beforeComment_of_isComment hrest
  rw [split_strip, beforeComment_append fun c hc => ne_slash_of_isSpace (hws c hc), hbefore,
    List.append_nil, split_eq_nil hws]

theorem lineWord_of_passed (h : Passed line) : lineWord line = none := by
  rw [lineWord, split_of_passed h]

theorem lineWord_of_hasWord (h : HasWord line w) : lineWord line = some w := by
  obtain ⟨ws, token, rest, rfl, hws, hlen, hhex, hrest, rfl⟩ := h
  have hne : token ≠ [] := by
    rintro rfl
    cases hlen
  have hsplit : split (strip (beforeComment (ws ++ token ++ rest))) =
      token :: split (beforeComment rest) := by
    rw [split_strip, List.append_assoc,
      beforeComment_append fun c hc => ne_slash_of_isSpace (hws c hc),
      beforeComment_append fun c hc => ne_slash_of_isHexDigit (hhex c hc), split_blanks hws,
      split_token hne (fun c hc => not_isSpace_of_isHexDigit (hhex c hc))
        (endsToken_beforeComment hrest)]
  rw [lineWord, hsplit]
  exact if_pos ⟨hlen, List.all_eq_true.2 hhex⟩

/-- Every line is passed over, or it has a first token, which is all that counts. -/
theorem passed_or_token (line : Line) : Passed line ∨ ∃ ws token rest,
    line = ws ++ token ++ rest ∧ (∀ c ∈ ws, isSpace c = true) ∧ (EndsToken rest ∨ IsComment rest) ∧
      lineWord line = if token.length = 8 ∧ token.all isHexDigit = true then
        some (BitVec.ofNat 32 (ofHex token)) else none := by
  obtain ⟨r, heq, hr⟩ := exists_comment line
  obtain h | ⟨ws, token, rest, hbefore, hws, hne, htoken, hrest⟩ :=
    blank_or_token (beforeComment line)
  · exact .inl ⟨_, r, heq, h, hr⟩
  · refine .inr ⟨ws, token, rest ++ r, ?_, hws, ?_, ?_⟩
    · rw [← List.append_assoc, ← hbefore]
      exact heq
    · obtain rfl | ⟨c, rest, rfl, hc⟩ := hrest
      · exact hr.imp_left .inl
      · exact .inl (.inr ⟨c, rest ++ r, rfl, hc⟩)
    · rw [lineWord, split_strip, hbefore, List.append_assoc, split_blanks hws,
        split_token hne htoken hrest]

theorem hasWord_of_lineWord (h : lineWord line = some w) : HasWord line w := by
  obtain hpassed | ⟨ws, token, rest, heq, hws, hrest, hword⟩ := passed_or_token line
  · cases h.symm.trans (lineWord_of_passed hpassed)
  · rw [h] at hword
    split_ifs at hword with htoken
    exact ⟨ws, token, rest, heq, hws, htoken.1, List.all_eq_true.1 htoken.2, hrest,
      Option.some.inj hword⟩

theorem lineWord_eq_some_iff : lineWord line = some w ↔ HasWord line w :=
  ⟨hasWord_of_lineWord, lineWord_of_hasWord⟩

/-- The line begins with a word of the format. -/
def WellFormed (line : Line) : Prop := ∃ w, HasWord line w

theorem wellFormed_iff : WellFormed line ↔ (lineWord line).isSome = true := by
  rw [Option.isSome_iff_exists]
  exact exists_congr fun w => lineWord_eq_some_iff.symm

instance : DecidablePred WellFormed := fun _ => decidable_of_iff' _ wellFormed_iff

end Lines

/-! ## Texts -/

section Texts

variable {lines : List Line} {words : List (BitVec 32)} {text : List Char}

/-- The words of a text in the format are those that the tool finds. -/
theorem format_iff : Format lines words ↔
    (∀ line ∈ lines, Passed line ∨ WellFormed line) ∧ words = lines.filterMap lineWord := by
  constructor
  · intro h
    induction h with
    | nil => exact ⟨List.forall_mem_nil _, rfl⟩
    | passed hline _ ih =>
      refine ⟨List.forall_mem_cons.2 ⟨.inl hline, ih.1⟩, ?_⟩
      rw [List.filterMap_cons_none (lineWord_of_passed hline), ih.2]
    | word hline _ ih =>
      refine ⟨List.forall_mem_cons.2 ⟨.inr ⟨_, hline⟩, ih.1⟩, ?_⟩
      rw [List.filterMap_cons_some (lineWord_of_hasWord hline), ih.2]
  · rintro ⟨h, rfl⟩
    induction lines with
    | nil => exact .nil
    | cons line lines ih =>
      obtain ⟨hline, h⟩ := List.forall_mem_cons.1 h
      obtain hline | ⟨w, hline⟩ := hline
      · rw [List.filterMap_cons_none (lineWord_of_passed hline)]
        exact .passed hline (ih h)
      · rw [List.filterMap_cons_some (lineWord_of_hasWord hline)]
        exact .word hline (ih h)

theorem length_words (lines : List Line) :
    (lines.filterMap lineWord).length = lines.countP fun line => decide (WellFormed line) := by
  rw [List.length_filterMap_eq_countP]
  exact List.countP_congr fun line _ => by rw [decide_eq_true_iff, wellFormed_iff]

theorem parseNsihTxt_eq_ok_iff {header : List Byte} : parseNsihTxt text = .ok header ↔
    ((textLines text).filterMap lineWord).length = nsihWords ∧
      header = wordBytes ((textLines text).filterMap lineWord) := by
  simp only [parseNsihTxt, textLines]
  split_ifs with h
  · exact iff_of_false (fun h' => by cases h') fun h' => h h'.1
  · rw [Except.ok.injEq]
    exact ⟨fun h' => ⟨not_not.1 h, h'.symm⟩, fun h' => h'.2.symm⟩

/-- The tool accepts the text for these bytes exactly if they are 128 words in the format. -/
def AsFormat (text : List Char) : Prop :=
  ∀ header, parseNsihTxt text = .ok header ↔
    ∃ words, Format (textLines text) words ∧ words.length = nsihWords ∧ header = wordBytes words

/-- **The header text**: a text is treated as the format says unless it has 128 words and a
malformed line besides. -/
theorem parseNsihTxt_iff (text : List Char) : AsFormat text ↔
    (∀ line ∈ textLines text, Passed line ∨ WellFormed line) ∨
      (textLines text).countP (fun line => decide (WellFormed line)) ≠ nsihWords := by
  rw [← length_words]
  constructor
  · intro h
    by_cases hlen : ((textLines text).filterMap lineWord).length = nsihWords
    · obtain ⟨words, hformat, -⟩ := (h _).1 (parseNsihTxt_eq_ok_iff.2 ⟨hlen, rfl⟩)
      exact .inl (format_iff.1 hformat).1
    · exact .inr hlen
  · intro h header
    rw [parseNsihTxt_eq_ok_iff]
    constructor
    · rintro ⟨hlen, hheader⟩
      have hlines := h.resolve_right (not_not.2 hlen)
      exact ⟨_, format_iff.2 ⟨hlines, rfl⟩, hlen, hheader⟩
    · rintro ⟨words, hformat, hlen, hheader⟩
      obtain ⟨-, rfl⟩ := format_iff.1 hformat
      exact ⟨hlen, hheader⟩

/-- A line that has lost a digit. -/
def badLine : Line := ['1', '2', '3', '4', '5', '6', '7']

def zeroLine : Line := ['0', '0', '0', '0', '0', '0', '0', '0']

def lostDigit : List Char := (badLine :: List.replicate 128 zeroLine).flatMap fun l => l ++ ['\n']

theorem textLines_lostDigit : textLines lostDigit =
    (badLine ++ ['\n']) :: List.replicate 128 (zeroLine ++ ['\n']) := by
  have hlines : ∀ l ∈ badLine :: List.replicate 128 zeroLine, '\n' ∉ l ∧ '\r' ∉ l := by
    intro l hl
    obtain rfl | hl := List.mem_cons.1 hl
    · decide
    · rw [List.eq_of_mem_replicate hl]
      decide
  have hreturn : '\r' ∉ lostDigit := by
    rw [lostDigit, List.mem_flatMap]
    rintro ⟨l, hl, h⟩
    obtain h | h := List.mem_append.1 h
    · exact (hlines l hl).2 h
    · exact absurd h (by decide)
  rw [textLines, universalNewlines_of_notMem hreturn, lostDigit,
    lines_flatMap fun l hl => (hlines l hl).1, List.map_cons, List.map_replicate]

/-- It is accepted. -/
theorem not_asFormat_lostDigit : ¬∀ text, AsFormat text := by
  intro h
  have hwords : (textLines lostDigit).filterMap lineWord = List.replicate 128 0 := by
    rw [textLines_lostDigit, List.filterMap_cons_none (by decide +kernel),
      List.filterMap_replicate_of_some (b := 0) (by decide +kernel)]
  have hlen : ((textLines lostDigit).filterMap lineWord).length = nsihWords := by
    rw [hwords, List.length_replicate]
    rfl
  obtain ⟨words, hformat, -⟩ := (h lostDigit _).1 (parseNsihTxt_eq_ok_iff.2 ⟨hlen, rfl⟩)
  have hmem : badLine ++ ['\n'] ∈ textLines lostDigit := by
    rw [textLines_lostDigit]
    exact List.mem_cons_self
  obtain hpassed | hword := (format_iff.1 hformat).1 _ hmem
  · exact absurd (split_of_passed hpassed) (by decide +kernel)
  · exact absurd (wellFormed_iff.1 hword) (by decide +kernel)

end Texts

end Gec6818Bl1.Tools.HeaderText
