import Gec6818Bl1.Tools.ConfigFile
import Mathlib.Data.List.InsertIdx

/-!
# Configuration sessions

The class `UI` of `menuconfig.py`, key by key. What it shows is left out, except that `draw` looks
up the current item. `none` is a Python exception: an index out of range.

A key goes to what the program is waiting in: the list of options, the line editor of `edit`, or the
question of `ask`. `writes` is not in the source: it lists what `try_save` has written, each text
with the configuration it was written of.

**Invariant** (`SessionOk`). The configuration is well formed, so is every write, and the indices
are in range. Every key keeps it.
-/

namespace Gec6818Bl1.Tools.Menuconfig

open PyText

/-- What `get_wch` returns: a character, or one of the codes of `curses`. -/
inductive Key where
  | char (c : Char)
  | up
  | down
  | left
  | right
  | home
  | end_
  | enter
  | backspace
  | dc
  | other
  deriving DecidableEq, Repr

/-- What the message line says; the path is left out. -/
inductive Msg where
  | empty
  | noToolchains (arch : Arch)
  | notSaved (name : Name) (error : Text)
  | saved

/-- Where the program waits for a key. `done` is the result of `run`. -/
inductive Mode where
  | browse
  | edit (name : Name) (buf : Text) (pos : ℕ)
  | ask
  | done (saved : Bool)

structure UI where
  cfg : Cfg
  saved : Cfg
  cur : ℤ
  msg : Msg
  toolchains : Arch → List Text
  mode : Mode
  writes : List (Cfg × Text)

/-- `xs[i]`: a negative index counts from the end. -/
def pyIndex {α : Type} (xs : List α) (i : ℤ) : Option α :=
  if 0 ≤ i then xs[i.toNat]?
  else if 0 ≤ i + xs.length then xs[(i + xs.length).toNat]?
  else none

namespace UI

/-- `UI.__init__`. -/
def init (u : CharClasses) (content : Option Text) (executables : List Text) : UI where
  cfg := load u content
  saved := load u content
  cur := 0
  msg := .empty
  toolchains := findToolchains u executables
  mode := .browse
  writes := []

def items (ui : UI) : List Name := Name.all.filter fun name => visible ui.cfg name

def dirty (ui : UI) : Bool := Name.all.any fun name => ui.cfg name ≠ ui.saved name

def draw (ui : UI) : Option UI :=
  let items := ui.items
  let ui := { ui with cur := min ui.cur (items.length - 1) }
  (pyIndex items ui.cur).map fun _ => ui

/-- `self.cfg[name] = vals[(i + step) % len(vals)]`, then `normalize`. -/
def cycleValue (ui : UI) (name : Name) (step : ℤ) (vals : List Text) : Option UI :=
  let i := if ui.cfg name ∈ vals then vals.idxOf (ui.cfg name) else 0
  (pyIndex vals ((i + step) % vals.length)).map fun v =>
    { ui with cfg := normalize (Function.update ui.cfg name v) }

def cycle (ui : UI) (name : Name) (step : ℤ) : Option UI :=
  match name.kind, name with
  | .choice, _ => ui.cycleValue name step (allowed ui.cfg name)
  | _, .crossTool arch =>
    let vals := ui.toolchains arch
    let vals := if ui.cfg name ∈ vals then vals else ui.cfg name :: vals
    if vals.length = 1 then some { ui with msg := .noToolchains arch }
    else ui.cycleValue name step vals
  | _, _ => some ui

/-- What one key does to the line and the position in `edit`. -/
def editKey (u : CharClasses) (buf : Text) (pos : ℕ) : Key → Text × ℕ
  | .backspace | .char '\x7f' | .char '\x08' =>
    if pos ≠ 0 then (buf.eraseIdx (pos - 1), pos - 1) else (buf, pos)
  | .dc => (if pos < buf.length then buf.eraseIdx pos else buf, pos)
  | .left => (buf, pos - 1)
  | .right => (buf, min buf.length (pos + 1))
  | .home | .char '\x01' => (buf, 0)
  | .end_ | .char '\x05' => (buf, buf.length)
  | .char '\x15' => ([], 0)
  | .char c => if u.isPrintable c then (buf.insertIdx pos c, pos + 1) else (buf, pos)
  | _ => (buf, pos)

def edit (u : CharClasses) (ui : UI) (name : Name) (buf : Text) (pos : ℕ) (key : Key) : UI :=
  if key = .char '\n' ∨ key = .char '\r' ∨ key = .enter then
    { ui with cfg := Function.update ui.cfg name (strip buf), mode := .browse }
  else if key = .char '\x1b' then { ui with mode := .browse }
  else
    let (buf, pos) := editKey u buf pos key
    { ui with mode := .edit name buf pos }

def trySave (u : CharClasses) (ui : UI) : Bool × UI :=
  match Name.all.filterMap fun name => (validate u ui.cfg name).map fun error => (name, error) with
  | (name, error) :: _ => (false, { ui with msg := .notSaved name error })
  | [] =>
    (true, { ui with
      saved := ui.cfg
      msg := .saved
      writes := ui.writes ++ [(ui.cfg, saveText ui.cfg)] })

/-- The answers of `ask`, and what `run` does with them. -/
def ask (u : CharClasses) (ui : UI) : Key → UI
  | .char 'y' | .char 'Y' =>
    match ui.trySave u with
    | (true, ui) => { ui with mode := .done true }
    | (false, ui) => { ui with mode := .browse }
  | .char 'n' | .char 'N' => { ui with mode := .done false }
  | .char '\x1b' => { ui with mode := .browse }
  | _ => ui

/-- One round of `run`, behind its `draw`. -/
def browse (u : CharClasses) (ui : UI) (key : Key) : Option UI := do
  let ui := { ui with msg := .empty }
  let items := ui.items
  let name ← pyIndex items ui.cur
  match key with
  | .up | .char 'k' => some { ui with cur := (ui.cur - 1) % items.length }
  | .down | .char 'j' => some { ui with cur := (ui.cur + 1) % items.length }
  | .home | .char 'g' => some { ui with cur := 0 }
  | .end_ | .char 'G' => some { ui with cur := items.length - 1 }
  | .right | .char ' ' | .char 'l' => ui.cycle name 1
  | .left | .char 'h' => ui.cycle name (-1)
  | .char '\n' | .char '\r' | .enter =>
    if name.kind = .choice then ui.cycle name 1
    else some { ui with mode := .edit name (ui.cfg name) (ui.cfg name).length }
  | .char 'd' => some { ui with cfg := normalize (Function.update ui.cfg name name.default) }
  | .char 's' => some (ui.trySave u).2
  | .char 'q' | .char '\x1b' =>
    if ui.dirty then some { ui with mode := .ask } else some { ui with mode := .done false }
  | _ => some ui

/-- `run` draws when it comes back to the list of options. -/
def redraw (ui : UI) : Option UI :=
  match ui.mode with
  | .browse => ui.draw
  | _ => some ui

/-- One key, up to where the program waits for the next one. -/
def step (u : CharClasses) (ui : UI) (key : Key) : Option UI :=
  match ui.mode with
  | .browse => (ui.browse u key).bind redraw
  | .edit name buf pos => (ui.edit u name buf pos key).redraw
  | .ask => (ui.ask u key).redraw
  | .done _ => some ui

/-- A session: the program starts and the keys are pressed. -/
def session (u : CharClasses) (content : Option Text) (executables : List Text)
    (keys : List Key) : Option UI :=
  (init u content executables).draw.bind fun ui => keys.foldlM (step u) ui

end UI

/-! ## Indices -/

theorem pyIndex_mem {α : Type} (xs : List α) (i : ℤ) (h0 : 0 ≤ i) (hlt : i < xs.length) :
    ∃ v ∈ xs, pyIndex xs i = some v := by
  have hidx : i.toNat < xs.length := by omega
  exact ⟨xs[i.toNat], List.getElem_mem hidx, by rw [pyIndex, if_pos h0, List.getElem?_eq_getElem hidx]⟩

/-- The first option is always shown. -/
theorem items_length_pos (ui : UI) : 0 < ui.items.length := by
  have hmem : Name.opmode ∈ ui.items := List.mem_filter.mpr ⟨Name.mem_all _, rfl⟩
  exact List.length_pos_of_mem hmem

/-! ## The toolchains -/

section Toolchains

variable {u : CharClasses}

theorem clean_of_noSpace {v : Text} (h : ∀ c ∈ v, isSpace c = false) : Clean v := by
  have hne : ∀ c ∈ v, ¬ isSpace c = true := fun c hc => by rw [h c hc]; exact Bool.false_ne_true
  refine ⟨?_, fun hmem => hne _ hmem (by decide), fun hmem => hne _ hmem (by decide)⟩
  have hl : lstrip v = v :=
    List.dropWhile_eq_self_iff.mpr fun hlen => hne _ (List.getElem_mem hlen)
  rw [strip, hl, rstrip, List.rdropWhile_eq_self_iff]
  exact fun hnil => hne _ (List.getLast_mem hnil)

theorem toolchainPrefix_clean {start n p : Text} (hstart : ∀ c ∈ start, isSpace c = false)
    (h : toolchainPrefix u start n = some p) : Clean p := by
  unfold toolchainPrefix at h
  simp only at h
  split_ifs at h with hc
  obtain ⟨-, hpre, hlast, hclass⟩ := hc
  obtain rfl := Option.some.inj h
  obtain ⟨rest, hrest⟩ := hpre
  rw [← hrest, List.drop_left] at hlast hclass
  rw [← hrest]
  apply clean_of_noSpace
  intro c hmem
  rcases List.mem_append.mp hmem with hmem | hmem
  · exact hstart c hmem
  · obtain ⟨mid, rfl⟩ := List.getLast?_eq_some_iff.mp hlast
    rw [List.dropLast_concat, List.all_eq_true] at hclass
    rcases List.mem_append.mp hmem with hmem | hmem
    · rcases Bool.or_eq_true_iff.mp (hclass c hmem) with hword | hpunct
      · exact u.isSpace_of_isWord c hword
      · have hascii : ".+-".toList.any isSpace = false := by decide +kernel
        exact isSpace_of_any_eq_false hascii c (of_decide_eq_true hpunct)
    · rw [List.mem_singleton.mp hmem]
      decide

theorem findToolchains_clean (executables : List Text) (arch : Arch) :
    ∀ v ∈ findToolchains u executables arch, Clean v := by
  have hstart : ∀ arch : Arch,
      (if arch = .aarch64 then "aarch64".toList else "arm".toList).any isSpace = false := by
    intro arch
    cases arch <;> decide +kernel
  intro v hv
  rw [findToolchains, List.mem_mergeSort, List.mem_dedup, List.mem_filterMap] at hv
  obtain ⟨n, -, hn⟩ := hv
  exact toolchainPrefix_clean (isSpace_of_any_eq_false (hstart arch)) hn

end Toolchains

/-! ## The invariant -/

/-- A file is read back as what it was written of, and passes every check. -/
structure WriteOk (u : CharClasses) (w : Cfg × Text) : Prop where
  load_eq : load u (some w.2) = w.1
  accepted : makeAccepts (w.1 .opmode) (w.1 .skipAtf) (w.1 .ubootArch) = true
  validate_eq : ∀ name, validate u w.1 name = none

/-- A text under the line editor stays on its line. -/
structure EditOk (name : Name) (buf : Text) (pos : ℕ) : Prop where
  kind_ne : name.kind ≠ .choice
  newline : '\n' ∉ buf
  carriageReturn : '\r' ∉ buf
  pos_le : pos ≤ buf.length

/-- What holds after every key, before the program draws. -/
structure KeyOk (u : CharClasses) (ui : UI) : Prop where
  wellFormed : WellFormed ui.cfg
  toolchains : ∀ arch, ∀ v ∈ ui.toolchains arch, Clean v
  cur_nonneg : 0 ≤ ui.cur
  edit : ∀ name buf pos, ui.mode = .edit name buf pos → EditOk name buf pos
  writes : ∀ w ∈ ui.writes, WriteOk u w

/-- What holds where the program waits for a key. -/
structure SessionOk (u : CharClasses) (ui : UI) : Prop extends KeyOk u ui where
  cur_lt : ui.mode = .browse → ui.cur < ui.items.length

section Session

variable {u : CharClasses} {ui : UI} {name : Name}

theorem KeyOk.draw (h : KeyOk u ui) : ∃ ui', ui.draw = some ui' ∧ SessionOk u ui' := by
  have hpos := items_length_pos ui
  have hcur := h.cur_nonneg
  obtain ⟨name, -, hname⟩ := pyIndex_mem ui.items
    (min ui.cur (ui.items.length - 1)) (by omega) (by omega)
  refine ⟨{ ui with cur := min ui.cur (ui.items.length - 1) }, ?_, ⟨h.wellFormed, h.toolchains, ?_,
    h.edit, h.writes⟩, ?_⟩
  · rw [UI.draw]
    simp only [hname]
    rfl
  · simp only
    omega
  · intro _
    change min ui.cur (ui.items.length - 1) < (ui.items.length : ℤ)
    omega

theorem KeyOk.redraw (h : KeyOk u ui) : ∃ ui', ui.redraw = some ui' ∧ SessionOk u ui' := by
  unfold UI.redraw
  split
  · exact h.draw
  · next hmode => exact ⟨ui, rfl, h, fun hbrowse => absurd hbrowse hmode⟩

/-! ### Changes of the configuration -/

/-- A new configuration keeps the rest. -/
theorem KeyOk.withCfg (h : KeyOk u ui) {cfg : Cfg} (hcfg : WellFormed cfg) :
    KeyOk u { ui with cfg } :=
  ⟨hcfg, h.toolchains, h.cur_nonneg, h.edit, h.writes⟩

theorem wellFormed_set {cfg : Cfg} {v : Text} (h : WellFormed cfg)
    (hv : name.kind ≠ .choice → Clean v) :
    WellFormed (normalize (Function.update cfg name v)) := by
  apply wellFormed_normalize
  intro name' hkind
  by_cases hname : name' = name
  · subst hname
    rw [Function.update_self]
    exact hv hkind
  · rw [Function.update_of_ne hname]
    exact h.clean name'

/-- A free text does not decide what the choices may be. -/
theorem wellFormed_update {cfg : Cfg} {v : Text} (h : WellFormed cfg) (hkind : name.kind ≠ .choice)
    (hv : Clean v) : WellFormed (Function.update cfg name v) := by
  have hop : Name.opmode ≠ name := by
    rintro rfl
    exact hkind rfl
  have hskip : Name.skipAtf ≠ name := by
    rintro rfl
    exact hkind rfl
  constructor
  · intro name' hkind'
    have hne : name' ≠ name := by
      rintro rfl
      exact hkind hkind'
    rw [allowed_congr (Function.update_of_ne hop _ _) (Function.update_of_ne hskip _ _),
      Function.update_of_ne hne]
    exact h.allowed name' hkind'
  · intro name'
    by_cases hname : name' = name
    · subst hname
      rw [Function.update_self]
      exact hv
    · rw [Function.update_of_ne hname]
      exact h.clean name'

/-- The new value is one of `vals`, which are not empty. -/
theorem KeyOk.cycleValue (h : KeyOk u ui) (step : ℤ) {vals : List Text} (hne : vals ≠ [])
    (hvals : name.kind ≠ .choice → ∀ v ∈ vals, Clean v) :
    ∃ ui', ui.cycleValue name step vals = some ui' ∧ KeyOk u ui' := by
  have hpos : 0 < vals.length := List.length_pos_of_ne_nil hne
  unfold UI.cycleValue
  generalize (if ui.cfg name ∈ vals then vals.idxOf (ui.cfg name) else 0) = i
  obtain ⟨v, hmem, hv⟩ := pyIndex_mem vals (((i : ℤ) + step) % vals.length)
    (Int.emod_nonneg _ (by omega)) (Int.emod_lt_of_pos _ (by omega))
  simp only [hv, Option.map_some]
  exact ⟨_, rfl, h.withCfg (wellFormed_set h.wellFormed fun hkind => hvals hkind v hmem)⟩

theorem KeyOk.cycle (h : KeyOk u ui) (name : Name) (step : ℤ) :
    ∃ ui', ui.cycle name step = some ui' ∧ KeyOk u ui' := by
  unfold UI.cycle
  split
  · next hkind =>
    exact h.cycleValue step (allowed_ne_nil ui.cfg hkind) fun hne => absurd hkind hne
  · next arch _ =>
    have hvals : ∀ v ∈ (if ui.cfg (.crossTool arch) ∈ ui.toolchains arch then ui.toolchains arch
        else ui.cfg (.crossTool arch) :: ui.toolchains arch), Clean v := by
      split_ifs
      · exact h.toolchains arch
      · exact List.forall_mem_cons.mpr ⟨h.wellFormed.clean _, h.toolchains arch⟩
    have hne : (if ui.cfg (.crossTool arch) ∈ ui.toolchains arch then ui.toolchains arch
        else ui.cfg (.crossTool arch) :: ui.toolchains arch) ≠ [] := by
      split_ifs with hmem
      · exact List.ne_nil_of_mem hmem
      · exact List.cons_ne_nil _ _
    simp only
    generalize (if ui.cfg (.crossTool arch) ∈ ui.toolchains arch then ui.toolchains arch
      else ui.cfg (.crossTool arch) :: ui.toolchains arch) = vals at hvals hne ⊢
    split_ifs
    · exact ⟨_, rfl, h.wellFormed, h.toolchains, h.cur_nonneg, h.edit, h.writes⟩
    · exact h.cycleValue step hne fun _ => hvals
  · exact ⟨ui, rfl, h⟩

/-! ### The line editor -/

theorem EditOk.withPos {buf : Text} {pos pos' : ℕ} (h : EditOk name buf pos)
    (hpos : pos' ≤ buf.length) : EditOk name buf pos' :=
  ⟨h.kind_ne, h.newline, h.carriageReturn, hpos⟩

/-- The position is left where the character was. -/
theorem EditOk.eraseIdx {buf : Text} {pos : ℕ} (h : EditOk name buf pos) {i : ℕ}
    (hi : i < buf.length) : EditOk name (buf.eraseIdx i) i := by
  refine ⟨h.kind_ne, fun hmem => h.newline (List.mem_of_mem_eraseIdx hmem),
    fun hmem => h.carriageReturn (List.mem_of_mem_eraseIdx hmem), ?_⟩
  rw [List.length_eraseIdx_of_lt hi]
  exact Nat.le_sub_one_of_lt hi

/-- A printable character is no end of a line. -/
theorem EditOk.insertIdx {buf : Text} {pos : ℕ} (h : EditOk name buf pos) {c : Char}
    (hc : u.isPrintable c = true) : EditOk name (buf.insertIdx pos c) (pos + 1) := by
  have hne : ∀ c', c' ∈ ['\n', '\r'] → c ≠ c' := by
    rintro c' hc' rfl
    have hspace : ['\n', '\r'].all isSpace = true := by decide
    have hblank : ' ' ∉ ['\n', '\r'] := by decide
    have heq := u.eq_space_of_isPrintable c hc (List.all_eq_true.mp hspace c hc')
    exact hblank (heq ▸ hc')
  refine ⟨h.kind_ne, fun hmem => ?_, fun hmem => ?_, ?_⟩
  · rcases List.eq_or_mem_of_mem_insertIdx hmem with heq | hmem
    · exact hne _ (by decide) heq.symm
    · exact h.newline hmem
  · rcases List.eq_or_mem_of_mem_insertIdx hmem with heq | hmem
    · exact hne _ (by decide) heq.symm
    · exact h.carriageReturn hmem
  · rw [List.length_insertIdx_of_le_length h.pos_le]
    exact Nat.succ_le_succ h.pos_le

theorem EditOk.backspace {buf : Text} {pos : ℕ} (h : EditOk name buf pos) :
    EditOk name (if pos ≠ 0 then (buf.eraseIdx (pos - 1), pos - 1) else (buf, pos)).1
      (if pos ≠ 0 then (buf.eraseIdx (pos - 1), pos - 1) else (buf, pos)).2 := by
  have hpos := h.pos_le
  split_ifs with h0
  · have hlt : pos - 1 < buf.length := by omega
    exact h.eraseIdx hlt
  · exact h

theorem EditOk.editKey {buf : Text} {pos : ℕ} (h : EditOk name buf pos) (key : Key) :
    EditOk name (UI.editKey u buf pos key).1 (UI.editKey u buf pos key).2 := by
  have hpos := h.pos_le
  unfold UI.editKey
  split
  · exact h.backspace
  · exact h.backspace
  · exact h.backspace
  · split_ifs with hlt
    · exact h.eraseIdx hlt
    · exact h
  · exact h.withPos (by simp only; omega)
  · exact h.withPos (Nat.min_le_left _ _)
  · exact h.withPos (Nat.zero_le _)
  · exact h.withPos (Nat.zero_le _)
  · exact h.withPos (Nat.le_refl _)
  · exact h.withPos (Nat.le_refl _)
  · exact ⟨h.kind_ne, List.not_mem_nil, List.not_mem_nil, Nat.le_refl _⟩
  · split_ifs with hc
    · exact h.insertIdx hc
    · exact h
  · exact h

theorem KeyOk.editStep (h : KeyOk u ui) {buf : Text} {pos : ℕ} (hedit : EditOk name buf pos)
    (key : Key) : KeyOk u (ui.edit u name buf pos key) := by
  unfold UI.edit
  split_ifs
  · refine ⟨wellFormed_update h.wellFormed hedit.kind_ne ?_, h.toolchains, h.cur_nonneg,
      fun _ _ _ hmode => Mode.noConfusion hmode, h.writes⟩
    exact ⟨strip_strip buf, fun hmem => hedit.newline (mem_strip hmem),
      fun hmem => hedit.carriageReturn (mem_strip hmem)⟩
  · exact ⟨h.wellFormed, h.toolchains, h.cur_nonneg, fun _ _ _ hmode => Mode.noConfusion hmode,
      h.writes⟩
  · refine ⟨h.wellFormed, h.toolchains, h.cur_nonneg, ?_, h.writes⟩
    rintro _ _ _ ⟨⟩
    exact hedit.editKey key

/-! ### Saving -/

/-- **What `try_save` writes** is read back as the configuration, and passes every check. -/
theorem KeyOk.trySave (h : KeyOk u ui) : KeyOk u (ui.trySave u).2 := by
  unfold UI.trySave
  split
  · exact ⟨h.wellFormed, h.toolchains, h.cur_nonneg, h.edit, h.writes⟩
  · next hbad =>
    have hvalid : ∀ name, validate u ui.cfg name = none := by
      intro name
      rw [List.filterMap_eq_nil_iff] at hbad
      exact Option.map_eq_none_iff.mp (hbad name (Name.mem_all name))
    refine ⟨h.wellFormed, h.toolchains, h.cur_nonneg, h.edit, ?_⟩
    intro w hw
    rcases List.mem_append.mp hw with hw | hw
    · exact h.writes w hw
    · rw [List.mem_singleton.mp hw]
      exact ⟨load_save u h.wellFormed, h.wellFormed.makeAccepts, hvalid⟩

theorem KeyOk.withMode (h : KeyOk u ui) (mode : Mode)
    (hmode : ∀ name buf pos, mode ≠ .edit name buf pos) : KeyOk u { ui with mode } :=
  ⟨h.wellFormed, h.toolchains, h.cur_nonneg, fun name buf pos heq => absurd heq (hmode name buf pos),
    h.writes⟩

theorem KeyOk.ask (h : KeyOk u ui) (key : Key) : KeyOk u (ui.ask u key) := by
  have hsave : KeyOk u (match ui.trySave u with
      | (true, ui) => { ui with mode := .done true }
      | (false, ui) => { ui with mode := .browse }) := by
    have hok := h.trySave
    generalize ui.trySave u = r at hok ⊢
    obtain ⟨_ | _, ui'⟩ := r
    · exact hok.withMode .browse (by rintro _ _ _ ⟨⟩)
    · exact hok.withMode (.done true) (by rintro _ _ _ ⟨⟩)
  unfold UI.ask
  split
  · exact hsave
  · exact hsave
  · exact h.withMode (.done false) (by rintro _ _ _ ⟨⟩)
  · exact h.withMode (.done false) (by rintro _ _ _ ⟨⟩)
  · exact h.withMode .browse (by rintro _ _ _ ⟨⟩)
  · exact h

/-! ### The list of options -/

theorem KeyOk.withCur (h : KeyOk u ui) {cur : ℤ} (hcur : 0 ≤ cur) : KeyOk u { ui with cur } :=
  ⟨h.wellFormed, h.toolchains, hcur, h.edit, h.writes⟩

theorem KeyOk.withMsg (h : KeyOk u ui) (msg : Msg) : KeyOk u { ui with msg } :=
  ⟨h.wellFormed, h.toolchains, h.cur_nonneg, h.edit, h.writes⟩

/-- The line editor opens on a value that is clean. -/
theorem KeyOk.openEdit (h : KeyOk u ui) (hkind : name.kind ≠ .choice) :
    KeyOk u { ui with mode := .edit name (ui.cfg name) (ui.cfg name).length } := by
  refine ⟨h.wellFormed, h.toolchains, h.cur_nonneg, ?_, h.writes⟩
  rintro _ _ _ ⟨⟩
  exact ⟨hkind, (h.wellFormed.clean name).newline, (h.wellFormed.clean name).carriageReturn,
    Nat.le_refl _⟩

/-- One round of `run` on the item `name`. -/
theorem SessionOk.browse (h : SessionOk u ui) (hmode : ui.mode = .browse) (key : Key) :
    ∃ ui', ui.browse u key = some ui' ∧ KeyOk u ui' := by
  have hpos : (0 : ℤ) < ui.items.length := by exact_mod_cast items_length_pos ui
  obtain ⟨name, -, hname⟩ := pyIndex_mem ui.items ui.cur h.cur_nonneg (h.cur_lt hmode)
  have hok : KeyOk u { ui with msg := .empty } := h.toKeyOk.withMsg .empty
  have hitems : UI.items { ui with msg := .empty } = ui.items := rfl
  have hup : 0 ≤ (ui.cur - 1) % ui.items.length := Int.emod_nonneg _ (by omega)
  have hdown : 0 ≤ (ui.cur + 1) % ui.items.length := Int.emod_nonneg _ (by omega)
  have hend : 0 ≤ (ui.items.length : ℤ) - 1 := by omega
  have henter : ∃ ui', (if name.kind = .choice then UI.cycle { ui with msg := .empty } name 1
      else some { ui with
        msg := .empty, mode := .edit name (ui.cfg name) (ui.cfg name).length }) = some ui' ∧
      KeyOk u ui' := by
    split_ifs with hkind
    · exact hok.cycle name 1
    · exact ⟨_, rfl, hok.openEdit hkind⟩
  have hquit : ∃ ui', (if ui.dirty then some { ui with msg := Msg.empty, mode := .ask }
      else some { ui with msg := .empty, mode := .done false }) = some ui' ∧ KeyOk u ui' := by
    split_ifs
    · exact ⟨_, rfl, hok.withMode .ask (by rintro _ _ _ ⟨⟩)⟩
    · exact ⟨_, rfl, hok.withMode (.done false) (by rintro _ _ _ ⟨⟩)⟩
  unfold UI.browse
  simp only [hitems, hname, Option.bind_eq_bind, Option.bind_some]
  -- The alternatives of each line of the `match`, in its order.
  split
  · exact ⟨_, rfl, hok.withCur hup⟩
  · exact ⟨_, rfl, hok.withCur hup⟩
  · exact ⟨_, rfl, hok.withCur hdown⟩
  · exact ⟨_, rfl, hok.withCur hdown⟩
  · exact ⟨_, rfl, hok.withCur (Int.le_refl 0)⟩
  · exact ⟨_, rfl, hok.withCur (Int.le_refl 0)⟩
  · exact ⟨_, rfl, hok.withCur hend⟩
  · exact ⟨_, rfl, hok.withCur hend⟩
  · exact hok.cycle name 1
  · exact hok.cycle name 1
  · exact hok.cycle name 1
  · exact hok.cycle name (-1)
  · exact hok.cycle name (-1)
  · exact henter
  · exact henter
  · exact henter
  · exact ⟨_, rfl, hok.withCfg (wellFormed_set h.wellFormed fun _ => default_clean name)⟩
  · exact ⟨_, rfl, hok.trySave⟩
  · exact hquit
  · exact hquit
  · exact ⟨_, rfl, hok⟩

/-! ### Runs -/

/-- **One key** raises no error and keeps the invariant. -/
theorem SessionOk.step (h : SessionOk u ui) (key : Key) :
    ∃ ui', ui.step u key = some ui' ∧ SessionOk u ui' := by
  unfold UI.step
  split
  · next hmode =>
    obtain ⟨ui₁, hui₁, hok⟩ := h.browse hmode key
    rw [hui₁, Option.bind_some]
    exact hok.redraw
  · next name buf pos hmode => exact (h.toKeyOk.editStep (h.edit name buf pos hmode) key).redraw
  · exact (h.toKeyOk.ask key).redraw
  · exact ⟨ui, rfl, h⟩

theorem SessionOk.run (h : SessionOk u ui) (keys : List Key) :
    ∃ ui', keys.foldlM (UI.step u) ui = some ui' ∧ SessionOk u ui' := by
  induction keys generalizing ui with
  | nil => exact ⟨ui, rfl, h⟩
  | cons key keys ih =>
    obtain ⟨ui₁, hui₁, h₁⟩ := h.step key
    rw [List.foldlM_cons, hui₁]
    exact ih h₁

theorem init_ok (u : CharClasses) (content : Option Text) (executables : List Text) :
    KeyOk u (UI.init u content executables) :=
  ⟨load_wellFormed u content, findToolchains_clean executables, Int.le_refl 0,
    fun _ _ _ hmode => Mode.noConfusion hmode, fun _ hw => absurd hw List.not_mem_nil⟩

/-- **Sessions.** Whatever the file held and whatever is on `PATH`, no key raises an index error,
and every file that is written is read back as the configuration it was written of, is accepted by
`config.mak` and passes every check. -/
theorem session_ok (u : CharClasses) (content : Option Text) (executables : List Text)
    (keys : List Key) : ∃ ui, UI.session u content executables keys = some ui ∧
      ∀ w ∈ ui.writes, load u (some w.2) = w.1 ∧
        makeAccepts (w.1 .opmode) (w.1 .skipAtf) (w.1 .ubootArch) = true ∧
        ∀ name, validate u w.1 name = none := by
  obtain ⟨ui₀, hdraw, h₀⟩ := (init_ok u content executables).draw
  obtain ⟨ui, hui, h⟩ := h₀.run keys
  refine ⟨ui, ?_, fun w hw => ⟨(h.writes w hw).load_eq, (h.writes w hw).accepted,
    (h.writes w hw).validate_eq⟩⟩
  rw [UI.session, hdraw]
  exact hui

/-- The boot port is cycled and saved: one file, for the other port. -/
example : (UI.session .ascii none [] [.down, .down, .char 'j', .right, .char 's']).map (fun ui =>
    ui.writes.map fun w => w.1 .bootPort) = some ["emmc".toList] := by decide +kernel

end Session

end Gec6818Bl1.Tools.Menuconfig
