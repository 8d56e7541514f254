/-
  EmbeddedExpr.Manifest.Roots
  ───────────────────────────
  **THE MANIFEST AND THE PACKAGE ROOTS OF A FILE.**

  The manifest of a file is the nearest one in a directory above it, as long as the
  directories are content.  Its packages lie beside it, unless the file's module names
  directories of its own: they then take the place of the manifest.
-/
import EmbeddedExpr.Project.Basic

namespace EmbeddedExpr.Manifest

/-- The name of manifests. -/
def fileName : String := "pubspec.yaml"

/-- The name of the directory of packages beside a manifest. -/
def packagesName : String := "packages"

/-- The option of a module that lists its package roots. -/
def rootsOption : String := "dart.package.roots"

/-! ## §1. Options. -/

/-- The package roots that a module lists, as written. -/
def customRoots? (m : Module) : Option String := m.option? rootsOption

/-- The text holds nothing but white space. -/
def isBlank (s : String) : Bool := Text.isBlankText s.toList

/-- The module with package roots listed.  A blank list is none. -/
def setCustomRoots (m : Module) (value : Option String) : Module :=
  match value with
  | some s => if isBlank s then m.clearOption rootsOption else m.setOption rootsOption s
  | none => m.clearOption rootsOption

/-- The directories that a list names, as written. -/
def listedRoots (value : String) : List String :=
  (((Text.splitOn ';' value.toList).map Text.trim).filter (· ≠ [])).map String.ofList

/-- The directories that a list names; what is no directory is passed over. -/
def splitRoots (tree : Entry) (base : Location) (value : String) :
    Except Tree.LinkLoop (List Location) :=
  (((listedRoots value).map (Project.partsFrom base)).filter (Tree.isDirectory tree)).mapM
    (Tree.resolve tree)

/-! ## §2. The nearest manifest. -/

variable {ε : Type}

/-- The nearest location with a property, from a location upward as long as the locations are
open.  Whether one is open may not be known: there is no answer then. -/
def nearest (isOpen : Location → Except ε Bool) (holds : Location → Bool) (l : Location) :
    Except ε (Option Location) :=
  match isOpen l with
  | .error fault => .error fault
  | .ok false => .ok none
  | .ok true =>
    if holds l then .ok (some l)
    else if _top : l = [] then .ok none
    else nearest isOpen holds l.parent
termination_by l.length
decreasing_by
  have := List.length_pos_iff.mpr _top
  simp only [Location.parent, List.length_dropLast]
  omega

/-- The manifest of the file that a path names. -/
def find? (p : Project) (tree : Entry) (path : List String) :
    Except Tree.LinkLoop (Option Location) := do
  let l ← Tree.resolve tree path
  let found ← nearest (p.isInContent tree) (fun d => Tree.isFile tree (d ++ [fileName])) l.parent
  pure (found.map fun d => d ++ [fileName])

/-! ## §3. Roots. -/

/-- The manifest of a file, and its package roots. -/
structure Roots where
  manifest : Option Location
  packages : List Location
  deriving DecidableEq, Repr

/-- The manifest and the package roots of the file that a path names. -/
def rootsFor (p : Project) (tree : Entry) (path : List String) :
    Except Tree.LinkLoop Roots := do
  let owner ← p.moduleFor? tree path
  match (owner.bind fun r => customRoots? (p.moduleAt r)).filter fun value => !isBlank value with
  | some value => pure ⟨none, ← splitRoots tree p.root value⟩
  | none =>
    match ← find? p tree path with
    | none => pure ⟨none, []⟩
    | some manifest =>
      let packages := manifest.parent ++ [packagesName]
      pure ⟨some manifest, if Tree.isDirectory tree packages then [packages] else []⟩

end EmbeddedExpr.Manifest
