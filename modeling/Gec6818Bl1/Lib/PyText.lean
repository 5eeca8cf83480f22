import Mathlib.Data.List.DropRight
import Mathlib.Data.List.Induction

/-!
# Text as Python reads it

The parts of Python's text handling that a line-oriented configuration parser uses, on lists of
characters: what counts as whitespace, the lines of a file opened in text mode, `strip`, `split`
and hexadecimal literals.

What is a word character, a digit or printable is in the tables of the interpreter's version of
Unicode. `CharClasses` are such tables, with what Python documents of every version.
-/

namespace PyText

/-- `str.isspace` for one character: the characters that are whitespace in Unicode. -/
def isSpace (c : Char) : Bool :=
  let n := c.toNat
  (0x09 ≤ n && n ≤ 0x0D) || (0x1C ≤ n && n ≤ 0x20) || n == 0x85 || n == 0xA0 || n == 0x1680 ||
    (0x2000 ≤ n && n ≤ 0x200A) || n == 0x2028 || n == 0x2029 || n == 0x202F || n == 0x205F ||
    n == 0x3000

/-- A file opened in text mode: `"\r\n"` and `"\r"` are read as `"\n"`. -/
def universalNewlines : List Char → List Char
  | '\r' :: '\n' :: cs => '\n' :: universalNewlines cs
  | '\r' :: cs => '\n' :: universalNewlines cs
  | c :: cs => c :: universalNewlines cs
  | [] => []

/-- `for line in f`: each line with its `"\n"`, except a last one without. -/
def lines : List Char → List (List Char)
  | [] => []
  | c :: cs =>
    if c = '\n' then [c] :: lines cs
    else
      match lines cs with
      | [] => [[c]]
      | l :: ls => (c :: l) :: ls

def lstrip (cs : List Char) : List Char := cs.dropWhile isSpace

def rstrip (cs : List Char) : List Char := cs.rdropWhile isSpace

/-- `str.strip()`. -/
def strip (cs : List Char) : List Char := rstrip (lstrip cs)

/-- `str.split()`: the runs of characters that are not whitespace. -/
def split (cs : List Char) : List (List Char) :=
  (cs.splitOnP isSpace).filter fun token => !token.isEmpty

/-- The character classes that depend on the version of Unicode: `\w`, `\d` and
`str.isprintable`. -/
structure CharClasses where
  isWord : Char → Bool
  isDigit : Char → Bool
  isPrintable : Char → Bool
  isWord_ascii : ∀ c, c.toNat < 128 → isWord c = (c.isAlphanum || c == '_')
  isSpace_of_isWord : ∀ c, isWord c = true → isSpace c = false
  eq_space_of_isPrintable : ∀ c, isPrintable c = true → isSpace c = true → c = ' '

/-- The classes of a Python that knows only ASCII. -/
def CharClasses.ascii : CharClasses where
  isWord c := c.toNat < 128 && (c.isAlphanum || c == '_')
  isDigit c := c.isDigit
  isPrintable c := 0x20 ≤ c.toNat && c.toNat ≤ 0x7E
  isWord_ascii c hc := by simp [hc]
  isSpace_of_isWord c hc := by
    simp only [Bool.and_eq_true, Bool.or_eq_true, decide_eq_true_eq, beq_iff_eq] at hc
    obtain ⟨hlt, halnum | rfl⟩ := hc
    · have hcode : ∀ n : Fin 128, (Char.ofNat n).isAlphanum = true →
          isSpace (Char.ofNat n) = false := by decide +kernel
      have h := hcode ⟨c.toNat, hlt⟩
      rw [Char.ofNat_toNat] at h
      exact h halnum
    · rfl
  eq_space_of_isPrintable c hc hs := by
    simp only [Bool.and_eq_true, decide_eq_true_eq] at hc
    simp only [isSpace, Bool.or_eq_true, Bool.and_eq_true, decide_eq_true_eq, beq_iff_eq] at hs
    have hcode : c.toNat = ' '.toNat := by
      have hspace : ' '.toNat = 0x20 := rfl
      omega
    rw [← Char.ofNat_toNat c, hcode, Char.ofNat_toNat]

/-! ## Stripped text -/

section Strip

variable {cs ws : List Char}

theorem isSpace_of_any_eq_false (h : cs.any isSpace = false) : ∀ c ∈ cs, isSpace c = false :=
  fun c hc => Bool.eq_false_iff.mpr (List.any_eq_false.mp h c hc)

theorem rstrip_append (h : ∀ c ∈ ws, isSpace c = true) : rstrip (cs ++ ws) = rstrip cs := by
  rw [rstrip, rstrip, List.rdropWhile, List.rdropWhile, List.reverse_append,
    List.dropWhile_append_of_pos]
  intro c hc
  exact h c (List.mem_reverse.mp hc)

/-- Whitespace behind a text is dropped. -/
theorem strip_append (h : ∀ c ∈ ws, isSpace c = true) : strip (cs ++ ws) = strip cs := by
  rw [strip, strip, lstrip, lstrip, List.dropWhile_append]
  split_ifs with hcs
  · rw [List.isEmpty_iff.mp hcs, List.dropWhile_eq_nil_iff.mpr h]
  · exact rstrip_append h

/-- Whitespace before a text is dropped. -/
theorem strip_append_left (h : ∀ c ∈ ws, isSpace c = true) : strip (ws ++ cs) = strip cs := by
  rw [strip, lstrip, List.dropWhile_append_of_pos h]
  rfl

theorem mem_strip {c : Char} (h : c ∈ strip cs) : c ∈ cs :=
  List.dropWhile_subset _ ((List.rdropWhile_prefix _ _).subset h)

theorem strip_strip (cs : List Char) : strip (strip cs) = strip cs := by
  have hl : lstrip (strip cs) = strip cs := by
    rw [lstrip, List.dropWhile_eq_self_iff]
    intro hlen
    have hpre : strip cs <+: lstrip cs := List.rdropWhile_prefix _ _
    have hlen' : 0 < (lstrip cs).length := Nat.lt_of_lt_of_le hlen hpre.length_le
    rw [hpre.getElem hlen]
    have hdrop : List.dropWhile isSpace (lstrip cs) = lstrip cs := List.dropWhile_idempotent _ _
    exact List.dropWhile_eq_self_iff.mp hdrop hlen'
  rw [strip, hl]
  exact List.rdropWhile_idempotent _ _

end Strip

/-! ## Lines -/

section Lines

variable {cs : List Char}

theorem carriageReturn_notMem (cs : List Char) : '\r' ∉ universalNewlines cs := by
  fun_induction universalNewlines cs with
  | case1 cs ih => simpa using ih
  | case2 cs hne ih => simpa using ih
  | case3 c cs hne hcr ih =>
    rw [List.mem_cons, not_or]
    exact ⟨Ne.symm hcr, ih⟩
  | case4 => exact List.not_mem_nil

/-- A text without carriage returns is read as it is. -/
theorem universalNewlines_of_notMem (h : '\r' ∉ cs) : universalNewlines cs = cs := by
  fun_induction universalNewlines cs with
  | case1 cs ih => simp at h
  | case2 cs hne ih => simp at h
  | case3 c cs hne hcr ih => rw [ih fun hmem => h (List.mem_cons_of_mem _ hmem)]
  | case4 => rfl

theorem lines_cons (l : List Char) (h : '\n' ∉ l) (cs : List Char) :
    lines (l ++ '\n' :: cs) = (l ++ ['\n']) :: lines cs := by
  induction l with
  | nil => simp [lines]
  | cons c l ih =>
    rw [List.mem_cons, not_or] at h
    rw [List.cons_append, lines, if_neg (Ne.symm h.1), ih h.2]
    rfl

/-- The lines of a file that was written line by line. -/
theorem lines_flatMap {ls : List (List Char)} (h : ∀ l ∈ ls, '\n' ∉ l) :
    lines (ls.flatMap fun l => l ++ ['\n']) = ls.map fun l => l ++ ['\n'] := by
  induction ls with
  | nil => rfl
  | cons l ls ih =>
    rw [List.forall_mem_cons] at h
    rw [List.flatMap_cons, List.append_assoc, List.singleton_append, lines_cons l h.1, ih h.2]
    rfl

/-- A line has its newline at the end, if it has one. -/
theorem of_mem_lines {l : List Char} (h : l ∈ lines cs) :
    ∃ body, '\n' ∉ body ∧ (l = body ∨ l = body ++ ['\n']) ∧ ∀ c ∈ body, c ∈ cs := by
  induction cs generalizing l with
  | nil => cases h
  | cons c cs ih =>
    rw [lines] at h
    split_ifs at h with hc
    · rcases List.mem_cons.mp h with rfl | h
      · exact ⟨[], List.not_mem_nil, .inr (by rw [hc]; rfl), fun _ h => absurd h List.not_mem_nil⟩
      · obtain ⟨body, hnl, hl, hsub⟩ := ih h
        exact ⟨body, hnl, hl, fun c' hc' => List.mem_cons_of_mem _ (hsub c' hc')⟩
    · cases hlines : lines cs with
      | nil =>
        rw [hlines, List.mem_singleton] at h
        subst h
        exact ⟨[c], by simpa using Ne.symm hc, .inl rfl, by simp⟩
      | cons l₀ ls =>
        rw [hlines] at h
        rcases List.mem_cons.mp h with rfl | h
        · obtain ⟨body, hnl, hl, hsub⟩ := ih (hlines ▸ List.mem_cons_self)
          refine ⟨c :: body, ?_, ?_, ?_⟩
          · rw [List.mem_cons, not_or]
            exact ⟨Ne.symm hc, hnl⟩
          · exact hl.imp (congrArg (c :: ·)) (congrArg (c :: ·))
          · exact List.forall_mem_cons.mpr
              ⟨List.mem_cons_self, fun c' hc' => List.mem_cons_of_mem _ (hsub c' hc')⟩
        · obtain ⟨body, hnl, hl, hsub⟩ := ih (hlines ▸ List.mem_cons_of_mem _ h)
          exact ⟨body, hnl, hl, fun c' hc' => List.mem_cons_of_mem _ (hsub c' hc')⟩

end Lines

/-! ## Tokens -/

section Tokens

variable {c : Char} {cs ws token rest : List Char}

/-- What may come behind a token. -/
def EndsToken (cs : List Char) : Prop := cs = [] ∨ ∃ c cs', cs = c :: cs' ∧ isSpace c = true

theorem split_nil : split [] = [] := rfl

theorem split_cons_of_isSpace (h : isSpace c = true) (cs : List Char) :
    split (c :: cs) = split cs := by
  rw [split, List.splitOnP_cons_eq_if_modifyHead, if_pos h]
  rfl

theorem split_blanks (h : ∀ c ∈ ws, isSpace c = true) (cs : List Char) :
    split (ws ++ cs) = split cs := by
  induction ws with
  | nil => rfl
  | cons c ws ih =>
    rw [List.forall_mem_cons] at h
    rw [List.cons_append, split_cons_of_isSpace h.1, ih h.2]

theorem split_eq_nil (h : ∀ c ∈ ws, isSpace c = true) : split ws = [] := by
  rw [← List.append_nil ws, split_blanks h, split_nil]

theorem split_append_blanks (h : ∀ c ∈ ws, isSpace c = true) (cs : List Char) :
    split (cs ++ ws) = split cs := by
  cases ws with
  | nil => rw [List.append_nil]
  | cons c ws =>
    rw [List.forall_mem_cons] at h
    have hws : (ws.splitOnP isSpace).filter (fun token => !token.isEmpty) = [] := split_eq_nil h.2
    rw [split, List.splitOnP_append_cons _ _ h.1, List.filter_append, hws, List.append_nil]
    rfl

theorem split_token (hne : token ≠ []) (htoken : ∀ c ∈ token, isSpace c = false)
    (hrest : EndsToken rest) : split (token ++ rest) = token :: split rest := by
  have hsingle : (token.splitOnP isSpace).filter (fun token => !token.isEmpty) = [token] := by
    rw [List.splitOnP_eq_singleton htoken]
    simp [hne]
  obtain rfl | ⟨c, rest, rfl, hc⟩ := hrest
  · rw [List.append_nil, split_nil]
    exact hsingle
  · rw [split_cons_of_isSpace hc, split, List.splitOnP_append_cons _ _ hc, List.filter_append,
      hsingle]
    rfl

/-- A text has a first token, or it is blank. -/
theorem blank_or_token (cs : List Char) : (∀ c ∈ cs, isSpace c = true) ∨
    ∃ ws token rest, cs = ws ++ token ++ rest ∧ (∀ c ∈ ws, isSpace c = true) ∧ token ≠ [] ∧
      (∀ c ∈ token, isSpace c = false) ∧ EndsToken rest := by
  induction cs with
  | nil => exact .inl (List.forall_mem_nil _)
  | cons c cs ih =>
    cases hc : isSpace c with
    | true =>
      obtain h | ⟨ws, token, rest, rfl, hws, h⟩ := ih
      · exact .inl (List.forall_mem_cons.2 ⟨hc, h⟩)
      · exact .inr ⟨c :: ws, token, rest, rfl, List.forall_mem_cons.2 ⟨hc, hws⟩, h⟩
    | false =>
      right
      obtain h | ⟨ws, token, rest, rfl, hws, hne, htoken, hrest⟩ := ih
      · refine ⟨[], [c], cs, rfl, List.forall_mem_nil _, List.cons_ne_nil _ _,
          by simpa using hc, ?_⟩
        cases cs with
        | nil => exact .inl rfl
        | cons d cs => exact .inr ⟨d, cs, rfl, h d List.mem_cons_self⟩
      · cases ws with
        | nil =>
          exact ⟨[], c :: token, rest, rfl, hws, List.cons_ne_nil _ _,
            List.forall_mem_cons.2 ⟨hc, htoken⟩, hrest⟩
        | cons d ws =>
          exact ⟨[], [c], d :: ws ++ token ++ rest, rfl, List.forall_mem_nil _,
            List.cons_ne_nil _ _, by simpa using hc,
            .inr ⟨d, ws ++ token ++ rest, rfl, hws d List.mem_cons_self⟩⟩

theorem split_strip (cs : List Char) : split (strip cs) = split cs := by
  have hl : split (lstrip cs) = split cs := by
    conv_rhs => rw [← List.takeWhile_append_dropWhile (p := isSpace) (l := cs)]
    exact (split_blanks (fun _ hc => List.mem_takeWhile_imp hc) _).symm
  have hr : lstrip cs = strip cs ++ (lstrip cs).rtakeWhile isSpace := by
    rw [strip, rstrip, List.rdropWhile, List.rtakeWhile, ← List.reverse_append,
      List.takeWhile_append_dropWhile, List.reverse_reverse]
  rw [← hl, hr, split_append_blanks fun c hc => ?_]
  exact List.mem_takeWhile_imp (List.mem_reverse.1 hc)

end Tokens

/-! ## Hexadecimal literals -/

/-- `c in "0123456789abcdefABCDEF"`. -/
def isHexDigit (c : Char) : Bool :=
  ('0'.toNat ≤ c.toNat && c.toNat ≤ '9'.toNat) || ('a'.toNat ≤ c.toNat && c.toNat ≤ 'f'.toNat) ||
    ('A'.toNat ≤ c.toNat && c.toNat ≤ 'F'.toNat)

/-- The value of a hexadecimal digit. -/
def hexValue (c : Char) : ℕ :=
  if c.toNat ≤ '9'.toNat then c.toNat - '0'.toNat
  else if c.toNat ≤ 'F'.toNat then c.toNat - 'A'.toNat + 10
  else c.toNat - 'a'.toNat + 10

/-- `int(token, 16)`. -/
def ofHex (token : List Char) : ℕ := token.foldl (fun n c => 16 * n + hexValue c) 0

end PyText
