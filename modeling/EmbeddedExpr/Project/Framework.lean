/-
  EmbeddedExpr.Project.Framework
  ──────────────────────────────
  **DOES A PROJECT USE THE FRAMEWORK.**

  Settings may say so.  Otherwise the content is searched for a script of the framework, or
  for a package file that depends on it.
-/
import EmbeddedExpr.Json.Reader
import EmbeddedExpr.Project.Basic
import EmbeddedExpr.Text.CaseMatch
import EmbeddedExpr.Text.Word

namespace EmbeddedExpr.Project

/-! ## §1. Scripts. -/

/-- A character between a script's first word and its ending. -/
def isScriptChar (c : Char) : Bool := Text.isWord c || c = '.' || c = '-'

/-- What stands before the ending of a script's name, in any case. -/
def beforeEnding? (s : List Char) : Option (List Char) :=
  match s.reverse with
  | last :: middle :: '.' :: front =>
    if Text.isCaseOf 's' last && Text.isCaseOf 'j' middle then some front.reverse else none
  | _ => none

/-- The name is that of a script of the framework: its word in any case, further words after
a dot or a hyphen, and the ending of scripts. -/
def isScriptName (name : String) : Bool :=
  match Text.afterWord? "angular".toList name.toList with
  | none => false
  | some rest =>
    match beforeEnding? (Text.withoutLineEnd rest) with
    | none => false
    | some [] => true
    | some (c :: middle) => (c = '.' || c = '-') && middle.all isScriptChar

/-! ## §2. Package files. -/

/-- The name of package files. -/
def packageName : String := "package.json"

/-- The fields of a package file that list what it depends on. -/
def dependencyFields : List String := ["dependencies", "devDependencies", "peerDependencies"]

/-- The packages of the framework. -/
def frameworkPackages : List String := ["angular", "@angular/core"]

/-- A list of dependencies names the framework. -/
def namesFramework : Data → Bool
  | .map entries => frameworkPackages.any fun name => (Data.field? name entries).isSome
  | _ => false

/-- The text of a package file depends on the framework. -/
def declaresFramework (s : List Char) : Bool :=
  match Json.read? s with
  | some (.map entries) =>
    dependencyFields.any fun field => (Data.field? field entries).any namesFramework
  | _ => false

/-- The package file at a location depends on the framework.  One that cannot be read does
not. -/
def packageDeclares (tree : Entry) (l : Location) : Bool :=
  match Tree.octets tree l with
  | .ok octets =>
    match Text.Utf8.decode? octets with
    | some text => declaresFramework (Text.unifyBreaks text)
    | none => false
  | .error _ => false

/-! ## §3. Projects. -/

/-- A file of the content shows that the framework is used. -/
def showsFramework (tree : Entry) (l : Location) : Bool :=
  let name := l.getLast?.getD ""
  isScriptName name || (name = packageName && packageDeclares tree l)

/-- The project uses the framework, as its settings or its content say. -/
def detectFramework (p : Project) (tree : Entry) : Bool :=
  match p.settings.mode with
  | .on => true
  | .off => false
  | .auto => (p.contentFiles tree).any (showsFramework tree)

end EmbeddedExpr.Project
