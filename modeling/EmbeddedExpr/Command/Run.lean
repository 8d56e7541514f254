/-
  EmbeddedExpr.Command.Run
  ────────────────────────
  **CARRYING OUT COMMANDS.**

  A command works on the project at a directory, which is the current one unless it names
  another.  What the user can put right is reported in words; other faults are not caught.
-/
import EmbeddedExpr.Command.Arguments
import EmbeddedExpr.Command.Report
import EmbeddedExpr.Manifest.Store
import EmbeddedExpr.Project.Expressions

namespace EmbeddedExpr.Command

/-! ## §1. Outcomes. -/

/-- Why a command was not carried out. -/
inductive Refusal where
  | noRoot (path : Path)
  | noFile (path : Path)
  /-- The file is there but is no text. -/
  | unreadable (path : Path)
  | project (fault : Project.Fault)
  | loop (l : Tree.LinkLoop)
  deriving Repr

/-- The refusal in words, if the user can put it right. -/
def Refusal.message? : Refusal → Option String
  | .noRoot path => some s!"Project root not found: {path.render}"
  | .noFile path => some s!"File not found: {path.render}"
  | .unreadable path => some s!"Failed to read {path.render}"
  | .project fault => fault.message?
  | .loop _ => none

/-- What a row of arguments leads to. -/
inductive Outcome where
  /-- The arguments ask for nothing that there is. -/
  | usage
  /-- The text of a report. -/
  | report (text : String)
  | refused (why : Refusal)
  deriving Repr

/-- The line that tells the user of a refusal. -/
def errorLine (message : String) : String :=
  String.ofList (Text.trimRight message.toList) ++ "\n"

/-! ## §2. Commands. -/

/-- The names of a path as seen from the current directory. -/
def partsAt (current : Location) (p : Path) : List String :=
  ((Location.path current).join p).parts

/-- The project of a command. -/
def projectFor (tree : Entry) (current : Location) (root : Option String) :
    Except Refusal Project :=
  let path := (root.map Path.ofString).getD (Location.path current)
  let parts := partsAt current path
  if Tree.isDirectory tree parts then (Project.load tree parts).mapError .project
  else .error (.noRoot path)

/-- The project with expressions looked for whatever its settings say. -/
def forced (tree : Entry) (p : Project) : Except Refusal Project :=
  (Project.ofSettings tree p.root { p.settings with mode := .on }).mapError .project

/-- The text of a document. -/
def documentText (tree : Entry) (current : Location) (path : Path) :
    Except Refusal (List Char) :=
  let parts := partsAt current path
  if Tree.isFile tree parts then
    match Manifest.fileText tree parts with
    | .ok text => .ok text
    | .error _ => .error (.unreadable path)
  else .error (.noFile path)

/-- Delimiters with those that a command gives in place of the project's. -/
def chosen (project : Delimiters) (opening closing : Option String) : Delimiters :=
  ⟨opening.getD project.opening, closing.getD project.closing⟩

/-- The report that a request asks for. -/
def carryOut (tree : Entry) (current : Location) : Request → Except Refusal Data
  | .scan file opening closing force root => do
    let project ← projectFor tree current root
    let project ← if force then forced tree project else pure project
    let path := Path.ofString file
    let text ← documentText tree current path
    let j := project.injector
    let j := { j with delimiters := chosen j.delimiters opening closing }
    let (found, _) := project.injections tree j text (some path.name)
    pure (scanReport path.render project.settings.language found)
  | .manifest file root => do
    let project ← projectFor tree current root
    let parts := partsAt current (Path.ofString file)
    let roots ← (Manifest.rootsFor project tree parts).mapError .loop
    let name ← match roots.manifest with
      | some manifest =>
        ((Manifest.Store.forResolver none).nameAt tree manifest).mapError .loop
          |>.map fun found => found.1
      | none => pure none
    pure (manifestReport roots name)
  | .attributes root => do
    let project ← projectFor tree current root
    pure (attributesReport project.registry.names)

/-- What a row of arguments leads to, in a file tree and a current directory. -/
def run (tree : Entry) (current : Location) (args : List String) : Outcome :=
  match request? args with
  | none => .usage
  | some request =>
    match carryOut tree current request with
    | .ok data => .report (String.ofList (Json.write data))
    | .error why => .refused why

end EmbeddedExpr.Command
