/-
  EmbeddedExpr.Settings.Reader
  ────────────────────────────
  **SETTINGS FROM DATA.**

  A settings document is a mapping with known keys.  A value that is null counts as not set,
  and one that is false, zero or empty as an empty mapping.  The first fault in the order of
  the checks is reported: unknown keys, the shape of the modules, then one field after the
  other.  Collections that the document shares are looked up among its shares.
-/
import EmbeddedExpr.Data.Print
import EmbeddedExpr.Settings.Basic
import EmbeddedExpr.Text.Blank
import EmbeddedExpr.Text.Case

namespace EmbeddedExpr

namespace Settings

open Data (Shares)

/-! ## §1. Faults. -/

/-- Why data are no settings. -/
inductive Fault where
  /-- Keys that are not known, by code point. -/
  | unknownKeys (context : String) (keys : List String)
  /-- An unknown key that is not a text, so that no list of them can be given. -/
  | unnamedKey
  /-- The document is not a mapping. -/
  | notMapping
  /-- A value, as it is told, that names no mode. -/
  | unknownMode (told : String)
  | delimitersShape
  | notTexts (field : String)
  | modulesShape
  | moduleShape (name : String)
  | optionsShape (name : String)
  /-- A whole number in a value has too many digits to be written. -/
  | tooLong
  deriving DecidableEq, Repr

/-- The fault in words, if it is one that can be told in the document's own words. -/
def Fault.message? : Fault → Option String
  | .unknownKeys context keys => some (s!"{context}: unknown key(s): " ++ ", ".intercalate keys)
  | .unnamedKey => none
  | .notMapping => none
  | .unknownMode told => some ("enabled: expected true, false or auto, got " ++ told)
  | .delimitersShape => some "delimiters: expected a mapping with 'start' and 'end'"
  | .notTexts field => some s!"{field}: expected a string or a list of strings"
  | .modulesShape => some "modules: expected a mapping of module name -> module settings"
  | .moduleShape name => some s!"modules.{name}: expected a mapping"
  | .optionsShape name => some s!"modules.{name}.options: expected a mapping"
  | .tooLong => none

/-! ## §2. Parts. -/

/-- The key is one of the known ones. -/
def isKnown (known : List String) (key : Data) : Bool := known.any fun k => key.same (.str k)

/-- A text key. -/
def textKey? : Data → Option String
  | .str s => some s
  | _ => none

/-- Every key of a mapping is known. -/
def checkKeys (context : String) (known : List String) (entries : List (Data × Data)) :
    Except Fault Unit :=
  match (entries.map (·.1)).filter fun key => !isKnown known key with
  | [] => .ok ()
  | unknown =>
    match unknown.mapM textKey? with
    | some names => .error (.unknownKeys context (names.mergeSort fun a b => a ≤ b))
    | none => .error .unnamedKey

/-- The value of a field; null when the field is not there. -/
def fieldOf (name : String) (entries : List (Data × Data)) : Data :=
  (Data.field? name entries).getD .null

/-- A value as text. -/
def textOf (shares : Shares) (value : Data) : Except Fault String :=
  match value.display? shares with
  | some text => .ok text
  | none => .error .tooLong

/-- A value as text; none for null. -/
def textOrNone (shares : Shares) : Data → Except Fault (Option String)
  | .null => .ok none
  | value => (textOf shares value).map some

/-- The mode that a value names. -/
def modeOf (shares : Shares) (value : Data) : Except Fault Mode :=
  match value with
  | .null => .ok .auto
  | .bool b => .ok (if b then .on else .off)
  | value => do
    let word := String.ofList (Text.lower (Text.trim (← textOf shares value).toList))
    match [Mode.auto, .on, .off].find? fun mode => mode.word = word, value.quoted? shares with
    | some mode, _ => pure mode
    | none, some told => .error (.unknownMode (String.ofList told))
    | none, none => .error .tooLong

/-- The language that a value names; the default one for a value that counts as nothing. -/
def languageOf (shares : Shares) (value : Data) : Except Fault String :=
  if (value.view shares).isFalsy then .ok defaultLanguage else textOf shares value

/-- The texts that a value gives: none for null, one for a text, those of a list. -/
def textsOf (shares : Shares) (field : String) (value : Data) : Except Fault (List String) :=
  match value.view shares with
  | .null => .ok []
  | .str s => .ok [s]
  | .list items => items.mapM (textOf shares)
  | _ => .error (.notTexts field)

/-- The entries of a mapping; none for a value that counts as nothing. -/
def entriesOf (shares : Shares) (fault : Fault) (value : Data) :
    Except Fault (List (Data × Data)) :=
  let value := value.view shares
  if value.isFalsy then .ok []
  else match value.entries? with
    | some entries => .ok entries
    | none => .error fault

/-- The markers that a value gives. -/
def markersOf (shares : Shares) (value : Data) :
    Except Fault (Option String × Option String) := do
  let entries ← entriesOf shares .delimitersShape value
  checkKeys "delimiters" ["start", "end"] entries
  let opening? ← textOrNone shares (fieldOf "start" entries)
  let closing? ← textOrNone shares (fieldOf "end" entries)
  pure (opening?, closing?)

/-- A named value put among named values: in the place of its name, or at the end. -/
def putNamed {α : Type} (name : String) (value : α) : List (String × α) → List (String × α)
  | [] => [(name, value)]
  | e :: more => if e.1 = name then (name, value) :: more else e :: putNamed name value more

/-- The options that entries give; those that are null are left out. -/
def optionsOf (shares : Shares) (entries : List (Data × Data)) :
    Except Fault (List (String × String)) :=
  entries.foldlM (fun options e =>
    match e.2 with
    | .null => .ok options
    | value => do
      let name ← textOf shares e.1
      pure (putNamed name (← textOf shares value) options)) []

/-- The module that a value describes. -/
def moduleOf (shares : Shares) (name : String) (value : Data) :
    Except Fault ModuleSettings := do
  let entries ← entriesOf shares (.moduleShape name) value
  checkKeys s!"modules.{name}" ["root", "options"] entries
  let options ← entriesOf shares (.optionsShape name) (fieldOf "options" entries)
  let root ← match Data.field? "root" entries with
    | some root => textOf shares root
    | none => pure name
  pure ⟨name, root, ← optionsOf shares options⟩

/-- The modules that entries give, in order; of two of one name the last one holds. -/
def modulesOf (shares : Shares) (entries : List (Data × Data)) :
    Except Fault (List ModuleSettings) := do
  let modules ← entries.mapM fun e => do
    moduleOf shares (← textOf shares e.1) e.2
  pure ((modules.foldl (fun kept m => putNamed m.name m kept) []).map (·.2))

/-! ## §3. Documents. -/

/-- The fields of a settings document. -/
def knownKeys : List String :=
  ["enabled", "language", "delimiters", "expression_attributes", "exclude", "modules"]

/-- The settings that data give. -/
def ofData (shares : Shares) (data : Data) : Except Fault Settings := do
  let entries ← entriesOf shares .notMapping data
  checkKeys "settings" knownKeys entries
  let modules ← entriesOf shares .modulesShape (fieldOf "modules" entries)
  let mode ← modeOf shares (fieldOf "enabled" entries)
  let language ← languageOf shares (fieldOf "language" entries)
  let (opening?, closing?) ← markersOf shares (fieldOf "delimiters" entries)
  let expressionAttributes ←
    textsOf shares "expression_attributes" (fieldOf "expression_attributes" entries)
  let exclude ← textsOf shares "exclude" (fieldOf "exclude" entries)
  let modules ← modulesOf shares modules
  pure ⟨mode, language, opening?, closing?, expressionAttributes, exclude, modules⟩

end Settings

end EmbeddedExpr
