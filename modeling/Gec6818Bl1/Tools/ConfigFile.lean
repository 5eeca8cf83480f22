import Gec6818Bl1.Tools.Menuconfig

/-!
# The configuration file

What `load` gives is `WellFormed`: every choice is allowed, and every value is one that the parser
can read back. `normalize` brings a dictionary there if its free texts are clean.

**Round trip** (`load_save`). A well-formed configuration is what `load` reads from the file that
`save` writes of it.
-/

namespace Gec6818Bl1.Tools.Menuconfig

open PyText

/-- A value that stands on a line and is delimited by whitespace. -/
structure Clean (v : Text) : Prop where
  strip_eq : strip v = v
  newline : '\n' ∉ v
  carriageReturn : '\r' ∉ v

instance (v : Text) : Decidable (Clean v) :=
  decidable_of_iff (strip v = v ∧ '\n' ∉ v ∧ '\r' ∉ v)
    ⟨fun h => ⟨h.1, h.2.1, h.2.2⟩, fun h => ⟨h.1, h.2, h.3⟩⟩

structure WellFormed (cfg : Cfg) : Prop where
  allowed : ∀ name, name.kind = .choice → cfg name ∈ allowed cfg name
  clean : ∀ name, Clean (cfg name)

/-! ## The options -/

theorem Name.mem_all : ∀ name : Name, name ∈ Name.all
  | .opmode | .skipAtf | .ubootArch | .bootPort | .crossTool .aarch32 | .crossTool .aarch64
  | .initpmic | .syslog | .bootLogo | .bootLogoText | .bootLogoDelayMs | .lcdBacklight => by decide

/-- A fact about every option, checked option by option. -/
theorem Name.forall_of_all {P : Name → Prop} (h : ∀ name ∈ Name.all, P name) (name : Name) :
    P name := h name (Name.mem_all name)

/-- The table of the values. -/
theorem Name.values : ∀ name : Name, (∀ v ∈ name.choices, Clean v) ∧ Clean name.default ∧
    (name.kind = .choice → name.choices ≠ []) :=
  Name.forall_of_all (by decide +kernel)

/-- The table of the names, as they stand in the file. -/
theorem Name.texts : ∀ name : Name, Name.ofText name.text = some name ∧ name.text ≠ [] ∧
    name.text.all (fun c => c.toNat < 128 && (c.isAlphanum || c == '_')) = true :=
  Name.forall_of_all (by decide +kernel)

theorem choices_clean (name : Name) : ∀ v ∈ name.choices, Clean v := (Name.values name).1

theorem default_clean (name : Name) : Clean name.default := (Name.values name).2.1

theorem choices_ne_nil (name : Name) : name.kind = .choice → name.choices ≠ [] :=
  (Name.values name).2.2

theorem ofText_text (name : Name) : Name.ofText name.text = some name := (Name.texts name).1

theorem text_ne_nil (name : Name) : name.text ≠ [] := (Name.texts name).2.1

/-! ## Allowed values -/

section Allowed

variable {cfg cfg' : Cfg} {name : Name}

theorem allowed_subset (cfg : Cfg) (name : Name) : ∀ v ∈ allowed cfg name, v ∈ name.choices := by
  intro v hv
  unfold Menuconfig.allowed at hv
  split_ifs at hv with h
  · rw [h.1, List.mem_singleton.mp hv]
    exact List.mem_cons_self
  · exact hv

theorem allowed_ne_nil (cfg : Cfg) (h : name.kind = .choice) : allowed cfg name ≠ [] := by
  unfold Menuconfig.allowed
  split_ifs
  · exact List.cons_ne_nil _ _
  · exact choices_ne_nil name h

/-- Only two options decide what the others may be. -/
theorem allowed_congr (hop : cfg .opmode = cfg' .opmode) (hskip : cfg .skipAtf = cfg' .skipAtf)
    (name : Name) : allowed cfg name = allowed cfg' name := by
  simp only [Menuconfig.allowed, hop, hskip]

theorem allowed_of_ne (cfg : Cfg) (h : name ≠ .ubootArch) : allowed cfg name = name.choices :=
  if_neg fun hc => h hc.1

end Allowed

/-! ## Normalising -/

section Normalize

variable {cfg : Cfg} {name : Name} {names : List Name}

theorem normalizeName_self (h : name.kind = .choice) :
    normalizeName cfg name name ∈ allowed cfg name := by
  unfold normalizeName
  split_ifs with hc
  · rw [Function.update_self]
    cases hvals : allowed cfg name with
    | nil => exact absurd hvals (allowed_ne_nil cfg h)
    | cons v vals => exact List.mem_cons_self
  · by_contra hmem
    exact hc ⟨h, hmem⟩

theorem normalizeName_of_ne (name' : Name) (h : name ≠ name') :
    normalizeName cfg name' name = cfg name := by
  unfold normalizeName
  split_ifs
  · exact Function.update_of_ne h _ _
  · rfl

theorem foldl_normalizeName_of_notMem (h : name ∉ names) :
    names.foldl normalizeName cfg name = cfg name := by
  induction names generalizing cfg with
  | nil => rfl
  | cons name' names ih =>
    rw [List.mem_cons, not_or] at h
    rw [List.foldl_cons, ih h.2, normalizeName_of_ne name' h.1]

/-- Once the two deciding options are settled, each option is settled by its own round. -/
theorem foldl_normalizeName_allowed (hnodup : names.Nodup) (hop : Name.opmode ∉ names)
    (hskip : Name.skipAtf ∉ names) (hmem : name ∈ names) (hkind : name.kind = .choice) :
    names.foldl normalizeName cfg name ∈ allowed cfg name := by
  induction names generalizing cfg with
  | nil => cases hmem
  | cons name' names ih =>
    rw [List.nodup_cons] at hnodup
    rw [List.mem_cons, not_or] at hop hskip
    rw [List.foldl_cons]
    by_cases hname : name = name'
    · subst hname
      rw [foldl_normalizeName_of_notMem hnodup.1]
      exact normalizeName_self hkind
    · have hrest := @ih (normalizeName cfg name') hnodup.2 hop.2 hskip.2
        ((List.mem_cons.mp hmem).resolve_left hname)
      rwa [allowed_congr (normalizeName_of_ne _ hop.1) (normalizeName_of_ne _ hskip.1)] at hrest

theorem foldl_normalizeName_of_kind (h : name.kind ≠ .choice) :
    names.foldl normalizeName cfg name = cfg name := by
  induction names generalizing cfg with
  | nil => rfl
  | cons name' names ih =>
    rw [List.foldl_cons, ih]
    by_cases hname : name = name'
    · subst hname
      rw [normalizeName, if_neg fun hc => h hc.1]
    · exact normalizeName_of_ne name' hname

/-- The options whose values depend on those of the first two. -/
def laterNames : List Name := Name.all.drop 2

theorem normalize_eq (cfg : Cfg) : normalize cfg =
    laterNames.foldl normalizeName (normalizeName (normalizeName cfg .opmode) .skipAtf) := by
  have hall : Name.all = .opmode :: .skipAtf :: laterNames := by decide
  rw [normalize, hall, List.foldl_cons, List.foldl_cons]

/-- **`normalize` leaves every choice allowed.** -/
theorem normalize_allowed (cfg : Cfg) (hkind : name.kind = .choice) :
    normalize cfg name ∈ allowed (normalize cfg) name := by
  have hop : Name.opmode ∉ laterNames := by decide
  have hskip : Name.skipAtf ∉ laterNames := by decide
  have hmem : name = .opmode ∨ name = .skipAtf ∨ name ∈ laterNames := by
    simpa [Name.all, laterNames] using Name.mem_all name
  rw [normalize_eq]
  rcases hmem with rfl | rfl | hmem
  · have hne : Name.opmode ≠ .ubootArch := by decide
    have hself := @normalizeName_self (cfg) _ hkind
    rw [allowed_of_ne _ hne] at hself ⊢
    rwa [foldl_normalizeName_of_notMem hop, normalizeName_of_ne _ (by decide)]
  · have hne : Name.skipAtf ≠ .ubootArch := by decide
    have hself := @normalizeName_self (normalizeName cfg .opmode) _ hkind
    rw [allowed_of_ne _ hne] at hself ⊢
    rwa [foldl_normalizeName_of_notMem hskip]
  · rw [allowed_congr (foldl_normalizeName_of_notMem hop) (foldl_normalizeName_of_notMem hskip)]
    exact foldl_normalizeName_allowed (by decide) hop hskip hmem hkind

theorem normalize_eq_self (h : ∀ name, name.kind = .choice → cfg name ∈ allowed cfg name) :
    normalize cfg = cfg := by
  have hfold : ∀ names : List Name, names.foldl normalizeName cfg = cfg := by
    intro names
    induction names with
    | nil => rfl
    | cons name names ih =>
      have hname : normalizeName cfg name = cfg := if_neg fun hc => hc.2 (h name hc.1)
      rw [List.foldl_cons, hname, ih]
  exact hfold Name.all

/-- Free texts are left as they are, and a choice that is allowed is clean. -/
theorem wellFormed_normalize (h : ∀ name, name.kind ≠ .choice → Clean (cfg name)) :
    WellFormed (normalize cfg) where
  allowed _ hkind := normalize_allowed cfg hkind
  clean name := by
    by_cases hkind : name.kind = .choice
    · exact choices_clean name _ (allowed_subset _ _ _ (normalize_allowed cfg hkind))
    · rw [normalize, foldl_normalizeName_of_kind hkind]
      exact h name hkind

end Normalize

/-! ## Reading a file -/

section Load

variable {u : CharClasses} {line key value : Text} {cfg : Cfg}

theorem skipMark_suffix (cs : Text) : skipMark cs <:+ cs := by
  unfold skipMark
  split
  · exact List.suffix_cons _ _
  · exact List.suffix_cons _ _
  · exact List.suffix_refl _

/-- The second group is what is left of the line behind the `=`, stripped. -/
theorem parseLine_suffix (h : parseLine u line = some (key, value)) :
    ∃ rest, rest <:+ line ∧ value = strip rest := by
  have hsuffix : skipMark (((line.dropWhile isSpace).dropWhile u.isWord).dropWhile isSpace) <:+
      line :=
    (skipMark_suffix _).trans <| (List.dropWhile_suffix _).trans <|
      (List.dropWhile_suffix _).trans (List.dropWhile_suffix _)
  simp only [parseLine] at h
  split at h
  · next rest heq =>
    split_ifs at h
    obtain ⟨-, rfl⟩ := Prod.mk.inj (Option.some.inj h)
    rw [heq] at hsuffix
    exact ⟨rest, (List.suffix_cons _ _).trans hsuffix, rfl⟩
  · cases h

/-- What follows the `=` on a line of a file is clean when it is stripped. -/
theorem clean_of_suffix {content rest : Text} (hline : line ∈ lines (universalNewlines content))
    (h : rest <:+ line) : Clean (strip rest) := by
  obtain ⟨body, hnl, hbody, hsub⟩ := of_mem_lines hline
  have hcr : '\r' ∉ body := fun hmem => carriageReturn_notMem content (hsub _ hmem)
  -- A newline at the end is whitespace, so it is stripped with the rest of it.
  have hsuffix : ∃ rest', rest' <:+ body ∧ strip rest = strip rest' := by
    rcases hbody with rfl | rfl
    · exact ⟨rest, h, rfl⟩
    · rcases List.suffix_concat_iff.mp h with rfl | ⟨rest', rfl, hrest'⟩
      · exact ⟨[], List.nil_suffix, rfl⟩
      · exact ⟨rest', hrest', strip_append (List.all_eq_true.mp (by decide))⟩
  obtain ⟨rest', hrest', heq⟩ := hsuffix
  rw [heq]
  exact ⟨strip_strip _, fun hmem => hnl (hrest'.subset (mem_strip hmem)),
    fun hmem => hcr (hrest'.subset (mem_strip hmem))⟩

/-- A line sets at most one option, to something that stands behind its `=`. -/
theorem loadLine_cases (u : CharClasses) (cfg : Cfg) (line : Text) : loadLine u cfg line = cfg ∨
    ∃ name rest, rest <:+ line ∧ loadLine u cfg line = Function.update cfg name (strip rest) := by
  unfold loadLine
  split
  · next key value hparse =>
    obtain ⟨rest, hrest, rfl⟩ := parseLine_suffix hparse
    split
    · next name _ => exact .inr ⟨name, rest, hrest, rfl⟩
    · exact .inl rfl
  · exact .inl rfl

theorem loadLine_clean {content : Text} (hline : line ∈ lines (universalNewlines content))
    (h : ∀ name, Clean (cfg name)) (name : Name) : Clean (loadLine u cfg line name) := by
  rcases loadLine_cases u cfg line with heq | ⟨name', rest, hrest, heq⟩
  · rw [heq]
    exact h name
  · rw [heq]
    by_cases hname : name = name'
    · subst hname
      rw [Function.update_self]
      exact clean_of_suffix hline hrest
    · rw [Function.update_of_ne hname]
      exact h name

/-- **Whatever the file holds, `load` gives a well-formed configuration.** -/
theorem load_wellFormed (u : CharClasses) (content : Option Text) :
    WellFormed (load u content) := by
  cases content with
  | none => exact wellFormed_normalize fun name _ => default_clean name
  | some content =>
    have hfold : ∀ (ls : List Text) (cfg : Cfg),
        (∀ l ∈ ls, l ∈ lines (universalNewlines content)) → (∀ name, Clean (cfg name)) →
        ∀ name, Clean (ls.foldl (loadLine u) cfg name) := by
      intro ls
      induction ls with
      | nil => exact fun cfg _ h => h
      | cons l ls ih =>
        intro cfg hls h
        rw [List.forall_mem_cons] at hls
        exact ih _ hls.2 (loadLine_clean hls.1 h)
    exact wellFormed_normalize fun name _ => hfold _ _ (fun _ hl => hl) default_clean name

end Load

/-! ## Writing a file and reading it back -/

section Save

variable {cfg : Cfg} {name : Name}

theorem text_char {c : Char} (h : c ∈ name.text) :
    c.toNat < 128 ∧ (c.isAlphanum || c == '_') = true := by
  have hall := List.all_eq_true.mp (Name.texts name).2.2 c h
  rw [Bool.and_eq_true, decide_eq_true_iff] at hall
  exact hall

theorem text_isWord (u : CharClasses) (name : Name) : ∀ c ∈ name.text, u.isWord c = true := by
  intro c hc
  rw [u.isWord_ascii c (text_char hc).1]
  exact (text_char hc).2

theorem text_newlines (name : Name) : '\n' ∉ name.text ∧ '\r' ∉ name.text :=
  ⟨fun hc => absurd (text_char hc).2 (by decide), fun hc => absurd (text_char hc).2 (by decide)⟩

def oneLine (text : Text) : Bool := text.all fun c => c != '\n' && c != '\r'

/-- A comment on one line. -/
def isComment (line : Text) : Bool := line.head? == some '#' && oneLine line

theorem isComment_iff {line : Text} :
    isComment line = true ↔ line.head? = some '#' ∧ '\n' ∉ line ∧ '\r' ∉ line := by
  rw [isComment, Bool.and_eq_true, beq_iff_eq, oneLine, List.all_eq_true]
  refine and_congr_right fun _ => ?_
  simp only [Bool.and_eq_true, bne_iff_ne]
  constructor
  · intro h
    exact ⟨fun hmem => (h _ hmem).1 rfl, fun hmem => (h _ hmem).2 rfl⟩
  · intro h c hc
    exact ⟨fun heq => h.1 (heq ▸ hc), fun heq => h.2 (heq ▸ hc)⟩

-- A literal is `String.ofList` of its characters, so nothing has to be decoded.
theorem oneLine_ofList {text : Text} (h : oneLine text = true) :
    oneLine (String.ofList text).toList = true := by
  rwa [String.toList_ofList]

theorem isComment_ofList {line : Text} (h : isComment line = true) :
    isComment (String.ofList line).toList = true := by
  rwa [String.toList_ofList]

theorem isComment_append {line text : Text} (h : isComment line = true)
    (htext : oneLine text = true) : isComment (line ++ text) = true := by
  cases line with
  | nil => cases h
  | cons c line =>
    rw [isComment, oneLine, Bool.and_eq_true] at h ⊢
    rw [List.all_append, h.2]
    exact ⟨h.1, htext⟩

/-- The texts around the values: the comments at the top, and the assignment. -/
theorem saveLines_texts (cfg : Cfg) : " = ".toList = [' ', '=', ' '] ∧
    (∀ line ∈ (saveLines cfg).take 3, line.head? = some '#' ∧ '\n' ∉ line ∧ '\r' ∉ line) ∧
    ("# Boot chain: ".toList ++ chainSummary cfg).head? = some '#' ∧
    '\n' ∉ "# Boot chain: ".toList ++ chainSummary cfg ∧
    '\r' ∉ "# Boot chain: ".toList ++ chainSummary cfg := by
  have htop : ∀ line ∈ (saveLines cfg).take 3, isComment line = true := by
    simp only [saveLines, List.cons_append, List.take_succ_cons, List.take_zero,
      List.forall_mem_cons]
    exact ⟨isComment_ofList (by decide), isComment_ofList (by decide),
      isComment_ofList (by decide), List.forall_mem_nil _⟩
  have hchain : isComment ("# Boot chain: ".toList ++ chainSummary cfg) = true := by
    apply isComment_append (isComment_ofList (by decide))
    unfold chainSummary
    split_ifs <;> exact oneLine_ofList (by decide)
  exact ⟨String.toList_ofList, fun line hline => isComment_iff.1 (htop line hline),
    isComment_iff.1 hchain⟩

theorem isWord_space (u : CharClasses) : u.isWord ' ' = false := by
  rw [u.isWord_ascii ' ' (by decide)]
  decide

/-- A comment sets nothing. -/
theorem loadLine_comment (u : CharClasses) (cfg : Cfg) (cs : Text) :
    loadLine u cfg ('#' :: cs) = cfg := by
  have hword : u.isWord '#' = false := by
    rw [u.isWord_ascii '#' (by decide)]
    decide
  have hspace : isSpace '#' = false := by decide
  have hparse : parseLine u ('#' :: cs) = none := by
    simp [parseLine, hword, hspace, skipMark]
  rw [loadLine, hparse]

/-- An option's line, with its newline: the name, blanks, and the `=` before the value. -/
theorem optionLine_eq (cfg : Cfg) (name : Name) : optionLine cfg name ++ ['\n'] =
    name.text ++ (List.replicate (width - name.text.length + 1) ' ' ++
      '=' :: (' ' :: (cfg name ++ ['\n']))) := by
  rw [optionLine, List.rightpad, (saveLines_texts cfg).1, List.replicate_succ']
  simp

theorem strip_value (h : Clean (cfg name)) : strip (' ' :: (cfg name ++ ['\n'])) = cfg name := by
  have hblank : ' ' :: (cfg name ++ ['\n']) = [' '] ++ (cfg name ++ ['\n']) := rfl
  have hbefore : [' '].all isSpace = true := by decide
  have hafter : ['\n'].all isSpace = true := by decide
  rw [hblank, strip_append_left (List.all_eq_true.mp hbefore),
    strip_append (List.all_eq_true.mp hafter), h.strip_eq]

/-- The line of an option sets that option to its value. -/
theorem loadLine_optionLine (u : CharClasses) (cfg' : Cfg) (h : Clean (cfg name)) :
    loadLine u cfg' (optionLine cfg name ++ ['\n']) = Function.update cfg' name (cfg name) := by
  have hword := text_isWord u name
  have hblank : ∀ c ∈ List.replicate (width - name.text.length + 1) ' ', isSpace c = true :=
    fun c hc => by rw [List.eq_of_mem_replicate hc]; decide
  have hnil := text_ne_nil name
  have hfirst : ∀ rest : Text, (name.text ++ rest).dropWhile isSpace = name.text ++ rest := by
    intro rest
    obtain ⟨c, cs, hc⟩ := List.exists_cons_of_ne_nil hnil
    rw [hc, List.cons_append, List.dropWhile_cons_of_neg]
    rw [u.isSpace_of_isWord c (hword c (hc ▸ List.mem_cons_self))]
    exact Bool.false_ne_true
  have hparse : parseLine u (optionLine cfg name ++ ['\n']) = some (name.text, cfg name) := by
    simp only [parseLine]
    rw [optionLine_eq, hfirst, List.takeWhile_append_of_pos hword,
      List.dropWhile_append_of_pos hword, List.replicate_succ, List.cons_append,
      List.takeWhile_cons_of_neg (by rw [isWord_space]; exact Bool.false_ne_true),
      List.dropWhile_cons_of_neg (by rw [isWord_space]; exact Bool.false_ne_true),
      ← List.cons_append, ← List.replicate_succ, List.dropWhile_append_of_pos hblank,
      List.dropWhile_cons_of_neg (by decide), List.append_nil]
    change (if name.text = [] then none
      else some (name.text, strip (' ' :: (cfg name ++ ['\n'])))) = _
    rw [if_neg hnil, strip_value h]
  simp only [loadLine, hparse, ofText_text]

/-! ### All of the file -/

theorem forall_saveLines {P : Text → Prop} (hhead : ∀ line ∈ (saveLines cfg).take 3, P line)
    (hsummary : P ("# Boot chain: ".toList ++ chainSummary cfg))
    (hoption : ∀ name, P (optionLine cfg name)) : ∀ line ∈ saveLines cfg, P line := by
  intro line hline
  rw [← List.take_append_drop 3 (saveLines cfg), List.mem_append] at hline
  rcases hline with hline | hline
  · exact hhead line hline
  · rcases List.mem_cons.mp hline with rfl | hline
    · exact hsummary
    · obtain ⟨name, -, rfl⟩ := List.mem_map.mp hline
      exact hoption name

/-- No line holds an end of a line. -/
theorem saveLines_newlines (h : WellFormed cfg) : ∀ line ∈ saveLines cfg,
    '\n' ∉ line ∧ '\r' ∉ line := by
  obtain ⟨hassign, htop, -, hsummary⟩ := saveLines_texts cfg
  have hbefore : ∀ (c : Char) (name : Name), c ∉ name.text → c ∉ [' ', '=', ' '] →
      c ∉ name.text.rightpad width ' ' ++ " = ".toList := by
    intro c name htext hc hmem
    rw [hassign] at hmem
    rcases List.mem_append.mp hmem with hmem | hmem
    · rcases List.mem_append.mp hmem with hmem | hmem
      · exact htext hmem
      · exact hc (List.eq_of_mem_replicate hmem ▸ List.mem_cons_self)
    · exact hc hmem
  refine forall_saveLines (fun line hline => (htop line hline).2) hsummary ?_
  intro name
  have htext := text_newlines name
  exact ⟨fun hmem => (List.mem_append.mp hmem).elim
      (hbefore _ name htext.1 (by decide)) (h.clean name).newline,
    fun hmem => (List.mem_append.mp hmem).elim
      (hbefore _ name htext.2 (by decide)) (h.clean name).carriageReturn⟩

theorem saveText_lines (h : WellFormed cfg) : lines (universalNewlines (saveText cfg)) =
    (saveLines cfg).map fun line => line ++ ['\n'] := by
  have hcr : '\r' ∉ saveText cfg := by
    rw [saveText, List.mem_flatMap]
    rintro ⟨line, hline, hmem⟩
    rcases List.mem_append.mp hmem with hmem | hmem
    · exact (saveLines_newlines h line hline).2 hmem
    · exact absurd hmem (by decide)
  rw [universalNewlines_of_notMem hcr, saveText,
    lines_flatMap fun line hline => (saveLines_newlines h line hline).1]

theorem foldl_comments (u : CharClasses) {ls : List Text} (h : ∀ line ∈ ls, line.head? = some '#')
    (cfg₀ : Cfg) : (ls.map fun line => line ++ ['\n']).foldl (loadLine u) cfg₀ = cfg₀ := by
  induction ls with
  | nil => rfl
  | cons line ls ih =>
    rw [List.forall_mem_cons] at h
    obtain ⟨cs, hcs⟩ := List.head?_eq_some_iff.mp h.1
    rw [List.map_cons, List.foldl_cons, hcs, List.cons_append, loadLine_comment, ih h.2]

/-- The comments set nothing, and each option's line sets that option. -/
theorem foldl_saveLines (u : CharClasses) (h : WellFormed cfg) (cfg₀ : Cfg) :
    ((saveLines cfg).map fun line => line ++ ['\n']).foldl (loadLine u) cfg₀ =
      Name.all.foldl (fun cfg' name => Function.update cfg' name (cfg name)) cfg₀ := by
  have hsplit : saveLines cfg = ((saveLines cfg).take 3 ++ ["# Boot chain: ".toList ++
      chainSummary cfg]) ++ Name.all.map (optionLine cfg) := rfl
  have hhead : ∀ line ∈ (saveLines cfg).take 3 ++ ["# Boot chain: ".toList ++ chainSummary cfg],
      line.head? = some '#' := by
    obtain ⟨-, htop, hsummary, -⟩ := saveLines_texts cfg
    rw [List.forall_mem_append, List.forall_mem_singleton]
    exact ⟨fun line hline => (htop line hline).1, hsummary⟩
  rw [hsplit, List.map_append, List.foldl_append, foldl_comments u hhead, List.map_map,
    List.foldl_map]
  congr 1
  funext cfg' name
  exact loadLine_optionLine u cfg' (h.clean name)

theorem foldl_update_apply (cfg cfg₀ : Cfg) (names : List Name) {name : Name}
    (h : name ∈ names) :
    names.foldl (fun cfg' name => Function.update cfg' name (cfg name)) cfg₀ name = cfg name := by
  induction names using List.reverseRecOn with
  | nil => cases h
  | append_singleton names name' ih =>
    rw [List.foldl_append, List.foldl_cons, List.foldl_nil]
    by_cases hname : name = name'
    · subst hname
      rw [Function.update_self]
    · rw [Function.update_of_ne hname]
      exact ih ((List.mem_append.mp h).resolve_right fun hmem => hname (List.mem_singleton.mp hmem))

/-- **Round trip.** -/
theorem load_save (u : CharClasses) (h : WellFormed cfg) : load u (some (saveText cfg)) = cfg := by
  have hfold : Name.all.foldl (fun cfg' name => Function.update cfg' name (cfg name))
      Name.default = cfg := by
    funext name
    exact foldl_update_apply cfg Name.default Name.all (Name.mem_all name)
  rw [load, saveText_lines h, foldl_saveLines u h, hfold, normalize_eq_self h.allowed]

/-- `config.mak` accepts what the options allow. -/
theorem WellFormed.makeAccepts (h : WellFormed cfg) :
    makeAccepts (cfg .opmode) (cfg .skipAtf) (cfg .ubootArch) = true := by
  have hmem := h.allowed .ubootArch rfl
  unfold Menuconfig.allowed at hmem
  split_ifs at hmem with hc
  · have hne : "aarch64".toList ≠ "aarch32".toList := by decide +kernel
    rw [List.mem_singleton.mp hmem, Menuconfig.makeAccepts, if_neg hne]
    exact decide_eq_true rfl
  · rw [not_and, not_not] at hc
    obtain ⟨hop, hskip⟩ := hc rfl
    rw [hop, hskip]
    have hchoices : ∀ v ∈ Name.ubootArch.choices,
        Menuconfig.makeAccepts "aarch32".toList "y".toList v = true := by decide +kernel
    exact hchoices _ hmem

end Save

end Gec6818Bl1.Tools.Menuconfig
