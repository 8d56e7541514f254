/-
  EmbeddedExpr.Settings.Basic
  ───────────────────────────
  **THE SETTINGS OF A PROJECT.**

  What a project says about itself: whether expressions are looked for, in which language
  they are, what delimits them, which attributes hold them, what is not part of the project,
  and which modules it has.  A marker that is not set is the standard one; an empty marker
  turns scanning off.
-/
import EmbeddedExpr.Delimiter.Basic

namespace EmbeddedExpr

/-- Whether expressions are looked for. -/
inductive Mode where
  /-- If the project uses the framework. -/
  | auto
  | on
  | off
  deriving DecidableEq, Repr

/-- The word for a mode. -/
def Mode.word : Mode → String
  | .auto => "auto"
  | .on => "true"
  | .off => "false"

/-- A module as settings name it: a directory with options of its own. -/
structure ModuleSettings where
  name : String
  root : String
  options : List (String × String)
  deriving DecidableEq, Repr

/-- The settings of a project. -/
structure Settings where
  mode : Mode
  language : String
  opening? : Option String
  closing? : Option String
  expressionAttributes : List String
  exclude : List String
  modules : List ModuleSettings
  deriving DecidableEq, Repr

namespace Settings

/-- The language of expressions unless settings name another. -/
def defaultLanguage : String := "AngularJS"

/-- The settings of a project that has none. -/
def default : Settings := ⟨.auto, defaultLanguage, none, none, [], [], []⟩

/-- The delimiters that settings ask for. -/
def delimiters (s : Settings) : Delimiters :=
  ⟨s.opening?.getD Delimiters.standard.opening, s.closing?.getD Delimiters.standard.closing⟩

end Settings

end EmbeddedExpr
