/-
  EmbeddedExpr.Proofs.Project.IgnoreFile
  ──────────────────────────────────────
  **PATTERNS IN THE SETTINGS AND PATTERNS IN THE IGNORE FILE.**

  The patterns of a project may stand in its settings, or one to a line in the ignore file at its
  root.  The lines of the file are trimmed on both sides, the patterns of the settings are not.
  So the file always means what the trimmed patterns mean in the settings,

      exclusion? with the ignore file  =  exclusion? with patterns.map trimmedText in the settings

  verdict by verdict and fault by fault, and it means what the patterns themselves mean there as
  long as trimming takes nothing away that counts (`exclusion_of_ignoreFile`).  A blank at the
  start of a pattern counts, and so does one at its end with a backslash before it
  (`not_forall_exclusion_of_ignoreFile`).
-/
import Mathlib
import EmbeddedExpr.Project.Basic
import EmbeddedExpr.Proofs.Answers
import EmbeddedExpr.Proofs.Ignore.Trimming
import EmbeddedExpr.Proofs.Text.Lines
import EmbeddedExpr.Proofs.Tree.Named

namespace EmbeddedExpr.Project

open Ignore (TrimsSafely trimmedText)

/-! ## §1. What a project leaves out. -/

/-- Which paths the project is to leave out that settings describe, or why there is none. -/
def exclusion? (tree : Entry) (path : List String) (settings : Settings) :
    Except Fault (String → Bool → Bool) :=
  (ofSettings tree path settings).map fun p => p.isExcluded

variable {tree tree₀ : Entry} {path : List String} {root : Location} {settings : Settings}
  {patterns : List String}

/-- What a project leaves out is told by the patterns that are read for it. -/
theorem exclusion?_eq (settings : Settings) (hroot : Tree.resolve tree path = .ok root)
    (hmodules : ∃ made, settings.modules.mapM (moduleOf tree root) = .ok made) :
    exclusion? tree path settings
      = ((Ignore.readAll (builtInPatterns ++ settings.exclude ++ ignoreLines tree root)).mapError
          Fault.pattern).map fun read => Content.isExcluded (Ignore.verdict read) := by
  obtain ⟨made, hmade⟩ := hmodules
  unfold exclusion? ofSettings
  rw [hroot]
  show (((Ignore.readAll (builtInPatterns ++ settings.exclude ++ ignoreLines tree root)).mapError
    Fault.pattern >>= fun patterns => settings.modules.mapM (moduleOf tree root) >>= fun modules =>
      pure _).map _) = _
  rw [hmade]
  cases Ignore.readAll (builtInPatterns ++ settings.exclude ++ ignoreLines tree root) with
  | error fault => rfl
  | ok read => rfl

/-! ## §2. The lines of the ignore file. -/

theorem ignoreLines_of_not_isFile (h : Tree.isFile tree (root ++ [ignoreName]) = false) :
    ignoreLines tree root = [] := by
  unfold Tree.isFile at h
  unfold ignoreLines
  cases haccess : Tree.access tree (root ++ [ignoreName]) with
  | error why => rfl
  | ok found =>
    obtain ⟨l, e⟩ := found
    rw [haccess] at h
    cases e with
    | file octets modified => cases h
    | directory entries => rfl
    | link target => rfl

theorem ignoreLines_of_octets {octets : List UInt8}
    (h : Tree.octets tree (root ++ [ignoreName]) = .ok octets) :
    ignoreLines tree root
      = Ignore.linesOf (Text.lines (Text.unifyBreaks (Text.Utf8.decodeValid octets))) := by
  unfold Tree.octets at h
  unfold ignoreLines
  cases haccess : Tree.access tree (root ++ [ignoreName]) with
  | error why =>
    rw [haccess] at h
    cases h
  | ok found =>
    obtain ⟨l, e⟩ := found
    rw [haccess] at h
    cases e with
    | file octets' modified =>
      rw [← Except.ok.inj h]
    | directory entries => cases h
    | link target => cases h

/-- A blank line at the end of a file does not count. -/
theorem linesOf_of_holds {text : List Char} {all : List (List Char)} (h : Text.Holds text all)
    (hall : ∀ line ∈ all, Text.IsLine line) :
    Ignore.linesOf (Text.lines (Text.unifyBreaks text)) = Ignore.linesOf all := by
  rcases Text.lines_of_holds h hall with heq | heq
  · rw [heq]
  · have hblank : ∀ lines, Ignore.linesOf (lines ++ [[]]) = Ignore.linesOf lines := by
      intro lines
      unfold Ignore.linesOf
      rw [List.map_append, List.filter_append, List.map_append]
      exact List.append_nil _
    rw [heq, hblank]

/-! ## §3. Two places for patterns. -/

/-- The same directory in two trees, for a project with the same modules: in the first there is no
ignore file, and in the second it holds the patterns, each on a line. -/
structure IgnoreFileAdded (patterns : List String) (modules : List ModuleSettings)
    (tree₀ tree : Entry) (path : List String) (root : Location) : Prop where
  leads₀ : Tree.resolve tree₀ path = .ok root
  leads : Tree.resolve tree path = .ok root
  without : Tree.isFile tree₀ (root ++ [ignoreName]) = false
  held : ∃ octets text, Tree.octets tree (root ++ [ignoreName]) = .ok octets
    ∧ Text.Utf8.decode? octets = some text ∧ Text.Holds text (patterns.map String.toList)
  /-- The directories of the modules can be found in both. -/
  modules₀ : ∃ made, modules.mapM (moduleOf tree₀ root) = .ok made
  modules : ∃ made, modules.mapM (moduleOf tree root) = .ok made

theorem IgnoreFileAdded.ignoreLines_eq {modules : List ModuleSettings}
    (h : IgnoreFileAdded patterns modules tree₀ tree path root)
    (hlines : ∀ pattern ∈ patterns, Text.IsLine pattern.toList) :
    ignoreLines tree root = Ignore.linesOf (patterns.map String.toList) := by
  obtain ⟨octets, text, hoctets, htext, hholds⟩ := h.held
  rw [ignoreLines_of_octets hoctets, Text.Utf8.decodeValid_of_decode? htext,
    linesOf_of_holds hholds]
  intro line hline
  obtain ⟨pattern, hpattern, rfl⟩ := List.mem_map.mp hline
  exact hlines pattern hpattern

/-- **Patterns of one line in the ignore file leave out what they leave out trimmed in the
settings**, and so what they leave out in the settings as long as trimming takes nothing away that
counts.  Where a pattern cannot be read there is no project in both cases. -/
theorem exclusion_of_ignoreFile (settings : Settings)
    (hlines : ∀ pattern ∈ patterns, Text.IsLine pattern.toList)
    (h : IgnoreFileAdded patterns settings.modules tree₀ tree path root) :
    exclusion? tree path { settings with exclude := [] }
        = exclusion? tree₀ path { settings with exclude := patterns.map trimmedText }
      ∧ ((∀ pattern ∈ patterns, TrimsSafely pattern.toList) →
        exclusion? tree path { settings with exclude := [] }
          = exclusion? tree₀ path { settings with exclude := patterns }) := by
  -- in each of the three cases the built-in patterns are read first, and then one list
  have hfile : exclusion? tree path { settings with exclude := [] }
      = ((Ignore.readAll (builtInPatterns ++ patterns.map trimmedText)).mapError
          Fault.pattern).map fun read => Content.isExcluded (Ignore.verdict read) := by
    rw [exclusion?_eq { settings with exclude := [] } h.leads h.modules, h.ignoreLines_eq hlines,
      List.append_nil, Ignore.readAll_append_congr (Ignore.readAll_linesOf patterns)]
  have hsettings : ∀ exclude : List String,
      exclusion? tree₀ path { settings with exclude := exclude }
        = ((Ignore.readAll (builtInPatterns ++ exclude)).mapError
            Fault.pattern).map fun read => Content.isExcluded (Ignore.verdict read) := by
    intro exclude
    rw [exclusion?_eq { settings with exclude := exclude } h.leads₀ h.modules₀,
      ignoreLines_of_not_isFile h.without, List.append_nil]
  constructor
  · rw [hfile, hsettings]
  · intro hsafe
    rw [hfile, hsettings, Ignore.readAll_append_congr (Ignore.readAll_map_trimmedText hsafe)]

/-! ## §4. Patterns that are moved, and patterns that may not be. -/

/-- A tree with an ignore file and nothing else. -/
def ignoreFileTree (text : String) : Entry :=
  .directory [(ignoreName, .file text.toUTF8.toList 0)]

theorem ignoreFileAdded_ignoreFileTree {text : String} {patterns : List String}
    (htext : Text.Utf8.decode? text.toUTF8.toList = some text.toList)
    (hholds : Text.Holds text.toList (patterns.map String.toList)) :
    IgnoreFileAdded patterns [] .empty (ignoreFileTree text) [] [] := by
  have hfile : Tree.access (ignoreFileTree text) [ignoreName]
      = .ok ([ignoreName], .file text.toUTF8.toList 0) := Tree.access_of_get? rfl rfl nofun
  constructor
  case leads₀ => exact Tree.resolve_of_get? rfl rfl nofun
  case leads => exact Tree.resolve_of_get? rfl rfl nofun
  case without =>
    show Tree.isFile .empty [ignoreName] = false
    cbv
  case held =>
    refine ⟨text.toUTF8.toList, text.toList, ?_, htext, hholds⟩
    unfold Tree.octets
    rw [List.nil_append, hfile]
  case modules₀ => exact ⟨[], rfl⟩
  case modules => exact ⟨[], rfl⟩

/-- Patterns that trim safely, with a comment, a blank line and blanks inside and at the end. -/
theorem exclusion_of_ignoreFile_safePatterns :
    (∀ pattern ∈ ["*.log ", "# \\ ", " ", "!a\\ b"], Text.IsLine pattern.toList
      ∧ TrimsSafely pattern.toList)
    ∧ exclusion? (ignoreFileTree "*.log \r\n# \\ \n \n!a\\ b") [] Settings.default
      = exclusion? .empty [] { Settings.default with exclude := ["*.log ", "# \\ ", " ", "!a\\ b"] } := by
  have hsafe : ∀ pattern ∈ ["*.log ", "# \\ ", " ", "!a\\ b"],
      Text.IsLine pattern.toList ∧ TrimsSafely pattern.toList := by
    decide +kernel
  have hholds : Text.Holds "*.log \r\n# \\ \n \n!a\\ b".toList
      (["*.log ", "# \\ ", " ", "!a\\ b"].map String.toList) :=
    ⟨["*.log ".toList, "# \\ ".toList, " ".toList], "!a\\ b".toList, by decide +kernel, Or.inl rfl⟩
  have hadded := ignoreFileAdded_ignoreFileTree (by decide +kernel) hholds
  have hlines := fun pattern hpattern => (hsafe pattern hpattern).1
  have hboth := exclusion_of_ignoreFile Settings.default hlines hadded
  exact ⟨hsafe, hboth.2 fun pattern hpattern => (hsafe pattern hpattern).2⟩

/-- With a blank at its start, a pattern leaves out another path in the ignore file. -/
theorem ofSettings_leadingBlank :
    (ofSettings .empty [] { Settings.default with exclude := [" a"] }).toOption.map
        (fun p => p.isExcluded " a" false) = some true
      ∧ (ofSettings (ignoreFileTree " a\n") [] Settings.default).toOption.map
        (fun p => p.isExcluded " a" false) = some false := by
  constructor
  · cbv
  · cbv

/-- With a backslash and a blank at its end, it is no pattern there. -/
theorem ofSettings_guardedBlank :
    (ofSettings .empty [] { Settings.default with exclude := ["a\\ "] }).toOption.map
        (fun p => p.isExcluded "a " false) = some true
      ∧ (ofSettings (ignoreFileTree "a\\ \n") [] Settings.default).toOption.map
        (fun p => p.isExcluded "a " false) = none := by
  constructor
  · cbv
  · cbv

/-- Patterns that a project reads from its settings may leave out other paths in the ignore file, or
make it impossible to have a project. -/
theorem not_forall_exclusion_of_ignoreFile :
    (¬ ∀ (patterns : List String) (settings : Settings) (tree₀ tree : Entry) (path : List String)
        (root : Location), (∀ pattern ∈ patterns, Text.IsLine pattern.toList) →
      IgnoreFileAdded patterns settings.modules tree₀ tree path root →
        ∀ p₀ p, ofSettings tree₀ path { settings with exclude := patterns } = .ok p₀ →
          ofSettings tree path { settings with exclude := [] } = .ok p →
            ∀ written directory, p.isExcluded written directory = p₀.isExcluded written directory)
    ∧ ¬ ∀ (patterns : List String) (settings : Settings) (tree₀ tree : Entry) (path : List String)
        (root : Location), (∀ pattern ∈ patterns, Text.IsLine pattern.toList) →
      IgnoreFileAdded patterns settings.modules tree₀ tree path root →
        ∀ p₀, ofSettings tree₀ path { settings with exclude := patterns } = .ok p₀ →
          ∃ p, ofSettings tree path { settings with exclude := [] } = .ok p := by
  constructor
  · intro h
    obtain ⟨hsettings, hfile⟩ := ofSettings_leadingBlank
    obtain ⟨p₀, hp₀, hexcluded⟩ := exists_of_toOption_map hsettings
    obtain ⟨p, hp, hkept⟩ := exists_of_toOption_map hfile
    have hadded : IgnoreFileAdded [" a"] [] .empty (ignoreFileTree " a\n") [] [] :=
      ignoreFileAdded_ignoreFileTree (by decide +kernel)
        ⟨[" a".toList], [], by decide +kernel, Or.inr ⟨rfl, rfl⟩⟩
    have heq := h [" a"] Settings.default _ _ _ _ (by decide) hadded p₀ p hp₀ hp
      " a" false
    rw [hexcluded, hkept] at heq
    cases heq
  · intro h
    obtain ⟨hsettings, hfile⟩ := ofSettings_guardedBlank
    obtain ⟨p₀, hp₀, -⟩ := exists_of_toOption_map hsettings
    have hadded : IgnoreFileAdded ["a\\ "] [] .empty (ignoreFileTree "a\\ \n") [] [] :=
      ignoreFileAdded_ignoreFileTree (by decide +kernel)
        ⟨["a\\ ".toList], [], by decide +kernel, Or.inr ⟨rfl, rfl⟩⟩
    obtain ⟨p, hp⟩ := h ["a\\ "] Settings.default _ _ _ _ (by decide) hadded p₀ hp₀
    rw [show ofSettings (ignoreFileTree "a\\ \n") [] Settings.default = .ok p from hp] at hfile
    cases hfile

end EmbeddedExpr.Project
