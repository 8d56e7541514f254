/-
  EmbeddedExpr.Settings.File
  ──────────────────────────
  **THE SETTINGS FILE OF A PROJECT.**

  The settings of a project are in a file of its configuration directory.  A project without
  that file has the default settings; a document without data counts as an empty mapping.
-/
import EmbeddedExpr.Settings.Reader
import EmbeddedExpr.Text.Lines
import EmbeddedExpr.Text.Utf8
import EmbeddedExpr.Tree.Resolve
import EmbeddedExpr.Yaml.Value

namespace EmbeddedExpr

/-! ## §1. The configuration directory. -/

namespace Config

/-- The name of the configuration directory. -/
def directoryName : String := "xinject-cfg"

/-- The name of the settings file. -/
def settingsName : String := "settings.yaml"

/-- The written path leads to the configuration directory or into it. -/
def owns (path : String) : Bool :=
  path = directoryName || (directoryName ++ "/").toList.isPrefixOf path.toList

/-- The configuration directory of the project at a path. -/
def directory (root : Entry) (project : List String) : Except Tree.LinkLoop Location :=
  Tree.resolve root (project ++ [directoryName])

/-- The settings file of the project at a path. -/
def settingsFile (root : Entry) (project : List String) : Except Tree.LinkLoop Location :=
  (directory root project).map fun l => l ++ [settingsName]

end Config

/-! ## §2. Reading. -/

namespace Settings

/-- Why the settings of a project cannot be had. -/
inductive LoadFault where
  | loop (l : Tree.LinkLoop)
  /-- The file is not well-formed text. -/
  | notText
  | yaml (file : Location) (fault : Yaml.Fault)
  | notMapping (file : Location)
  | settings (file : Location) (fault : Fault)
  deriving Repr

/-- The fault in words, with the file in front, if it is one that the file shows. -/
def LoadFault.message? : LoadFault → Option String
  | .loop _ => none
  | .notText => none
  | .yaml file .malformed => some s!"{file.render}: invalid YAML"
  | .yaml _ _ => none
  | .notMapping file => some s!"{file.render}: YAML must be a mapping"
  | .settings file fault => fault.message?.map fun message => s!"{file.render}: {message}"

/-- The settings that the text of a settings file gives. -/
def ofText (file : Location) (s : List Char) : Except LoadFault Settings :=
  match Yaml.load s with
  | .error fault => .error (.yaml file fault)
  | .ok (data, shares) =>
    match ofData shares data with
    | .ok settings => .ok settings
    | .error .notMapping => .error (.notMapping file)
    | .error fault => .error (.settings file fault)

/-- The settings of the project at a path. -/
def load (root : Entry) (project : List String) : Except LoadFault Settings :=
  match Config.settingsFile root project with
  | .error l => .error (.loop l)
  | .ok file =>
    match Tree.access root file with
    | .ok (_, .file octets _) =>
      match Text.Utf8.decode? octets with
      | some text => ofText file (Text.unifyBreaks text)
      | none => .error .notText
    | _ => .ok default

end Settings

end EmbeddedExpr
