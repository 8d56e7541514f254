/-
  EmbeddedExpr.Project.Basic
  ──────────────────────────
  **PROJECTS.**

  A project is a directory with settings, patterns for what is left out, and modules.  Its
  patterns are built-in ones, those of its settings and those of the ignore file at its root,
  in this order.
-/
import EmbeddedExpr.Ignore.Match
import EmbeddedExpr.Project.Content

namespace EmbeddedExpr

/-! ## §1. Modules. -/

/-- A part of a project with options of its own. -/
structure Module where
  name : String
  root : Location
  options : List (String × String)
  deriving DecidableEq, Repr

namespace Module

/-- The value of an option. -/
def option? (m : Module) (key : String) : Option String := m.options.lookup key

/-- The module with an option set. -/
def setOption (m : Module) (key value : String) : Module :=
  { m with options := Settings.putNamed key value m.options }

/-- The module without an option. -/
def clearOption (m : Module) (key : String) : Module :=
  { m with options := m.options.filter fun o => o.1 ≠ key }

end Module

/-! ## §2. Making projects. -/

/-- A project. -/
structure Project where
  root : Location
  settings : Settings
  patterns : List Ignore.Pattern
  rootModule : Module
  modules : List Module
  /-- The project uses the framework, if that has been found out. -/
  usesFramework? : Option Bool
  deriving Repr

namespace Project

/-- Why there is no project. -/
inductive Fault where
  | loop (l : Tree.LinkLoop)
  | pattern (fault : Ignore.PatternFault)
  /-- A module's directory is written with the character that stands in no name of a file. -/
  | unnamable (written : String)
  | settings (fault : Settings.LoadFault)
  deriving Repr

/-- The fault in words, if it is one that the project's settings show. -/
def Fault.message? : Fault → Option String
  | .settings fault => fault.message?
  | _ => none

/-- What is left out of every project. -/
def builtInPatterns : List String := [".git/", ".hg/", ".svn/", ".idea/"]

/-- The name of the ignore file. -/
def ignoreName : String := ".gitignore"

/-- The lines of the ignore file of a project that may be patterns. -/
def ignoreLines (tree : Entry) (root : Location) : List String :=
  match Tree.access tree (root ++ [ignoreName]) with
  | .ok (_, .file octets _) =>
    Ignore.linesOf (Text.lines (Text.unifyBreaks (Text.Utf8.decodeValid octets)))
  | _ => []

/-- The names that a written path has when it is seen from a location. -/
def partsFrom (base : Location) (written : String) : List String :=
  ((Location.path base).join (Path.ofString written)).parts

/-- The text may be part of a path: it does not hold the character that stands in no name of
a file. -/
def isPathText (written : String) : Bool := !written.toList.contains '\x00'

/-- The module that settings describe. -/
def moduleOf (tree : Entry) (root : Location) (m : ModuleSettings) : Except Fault Module :=
  if isPathText m.root then
    ((Tree.resolve tree (partsFrom root m.root)).map fun l => ⟨m.name, l, m.options⟩).mapError .loop
  else .error (.unnamable m.root)

/-- The name of the module that a project is as a whole. -/
def rootName (root : Location) : String :=
  match root.getLast? with
  | some name => name
  | none => "root"

/-- The project at a path, with settings. -/
def ofSettings (tree : Entry) (path : List String) (settings : Settings) :
    Except Fault Project := do
  let root ← (Tree.resolve tree path).mapError .loop
  let lines := builtInPatterns ++ settings.exclude ++ ignoreLines tree root
  let patterns ← (Ignore.readAll lines).mapError .pattern
  let modules ← settings.modules.mapM (moduleOf tree root)
  pure ⟨root, settings, patterns, ⟨rootName root, root, []⟩, modules, none⟩

/-- The project at a path, with the settings of its settings file. -/
def load (tree : Entry) (path : List String) : Except Fault Project := do
  let settings ← (Settings.load tree path).mapError .settings
  ofSettings tree path settings

/-! ## §3. Content. -/

/-- A written path is left out. -/
def isExcluded (p : Project) (path : String) (directory : Bool) : Bool :=
  Content.isExcluded (Ignore.verdict p.patterns) path directory

/-- The way down from the project's root to what a path names; none outside the project. -/
def way? (p : Project) (tree : Entry) (path : List String) :
    Except Tree.LinkLoop (Option Location) :=
  (Tree.resolve tree path).map fun l => l.relativeTo? p.root

/-- What a path names belongs to the project's content, when a verdict says which written
paths are left out. -/
def isInContentBy (p : Project) (verdict : String → Bool) (tree : Entry) (path : List String) :
    Except Tree.LinkLoop Bool :=
  (p.way? tree path).map fun way =>
    match way with
    | none => false
    | some way => Content.holds verdict way (Tree.isDirectory tree path)

/-- What a path names belongs to the project's content. -/
def isInContent (p : Project) (tree : Entry) (path : List String) :
    Except Tree.LinkLoop Bool :=
  p.isInContentBy (Ignore.verdict p.patterns) tree path

/-- The locations of the content's files, in the order of the walk, when a verdict says which
written paths are left out. -/
def contentFilesBy (p : Project) (verdict : String → Bool) (tree : Entry) : List Location :=
  match tree.get? p.root with
  | some e =>
    (Content.files verdict (fun way => Tree.isDirectory tree (p.root ++ way)) [] e).map
      fun way => p.root ++ way
  | none => []

/-- The locations of the content's files, in the order of the walk. -/
def contentFiles (p : Project) (tree : Entry) : List Location :=
  p.contentFilesBy (Ignore.verdict p.patterns) tree

/-! ## §4. Modules of a project. -/

/-- Which module of a project. -/
inductive ModuleRef where
  /-- The module that the project is as a whole. -/
  | whole
  | part (index : Nat)
  deriving DecidableEq, Repr

/-- The module of a project. -/
def moduleAt (p : Project) : ModuleRef → Module
  | .whole => p.rootModule
  | .part k => p.modules[k]?.getD p.rootModule

/-- The project with one module changed. -/
def changeModule (p : Project) (r : ModuleRef) (f : Module → Module) : Project :=
  match r with
  | .whole => { p with rootModule := f p.rootModule }
  | .part k => { p with modules := p.modules.modify k f }

/-- The first of numbered modules whose roots are deepest. -/
def deepest : List (Module × Nat) → Option (Module × Nat)
  | [] => none
  | m :: more =>
    match deepest more with
    | some best => if m.1.root.length < best.1.root.length then some best else some m
    | none => some m

/-- The module that owns a location: the deepest one around it, or that of the project as a
whole. -/
def owner (p : Project) (l : Location) : ModuleRef :=
  match deepest (p.modules.zipIdx.filter fun m => m.1.root.isPrefixOf l) with
  | some (_, k) => .part k
  | none => .whole

/-- The module of the file that a path names; none outside the project. -/
def moduleFor? (p : Project) (tree : Entry) (path : List String) :
    Except Tree.LinkLoop (Option ModuleRef) := do
  let l ← Tree.resolve tree path
  let way? ← p.way? tree l
  pure (way?.map fun _ => p.owner l)

end Project

end EmbeddedExpr
