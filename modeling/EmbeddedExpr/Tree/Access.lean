/-
  EmbeddedExpr.Tree.Access
  ────────────────────────
  **WHAT A PATH LEADS TO.**

  A path is walked name by name.  A link is replaced by its target, and a double dot leads to
  the directory above the one reached.  No more than forty links are followed.
-/
import EmbeddedExpr.Tree.Basic

namespace EmbeddedExpr.Tree

/-! ## §1. Walking. -/

/-- Why a path leads to nothing. -/
inductive Absence where
  | missing
  /-- Something other than a directory stands where the path goes on. -/
  | notDirectory
  /-- Too many links. -/
  | loop
  deriving DecidableEq, Repr

/-- A step of a walk. -/
inductive Step where
  | name (s : String)
  | up
  | stay
  deriving DecidableEq, Repr

/-- The steps of a link's target.  A slash at its end asks for a directory. -/
def stepsOf (target : String) : List Step :=
  let pieces := Text.splitOn '/' target.toList
  let slashed := 1 < pieces.length && pieces.getLast? = some []
  let named := (pieces.filter (· ≠ [])).map fun piece =>
    if piece = ['.'] then Step.stay
    else if piece = ['.', '.'] then .up
    else .name (String.ofList piece)
  if slashed then named ++ [.stay] else named

/-- The steps of a path's names. -/
def stepsOfParts (parts : List String) : List Step :=
  parts.map fun part => if part = ".." then .up else .name part

/-- A target that begins at the root of the tree. -/
def isAbsolute (target : String) : Bool := target.toList.head? = some '/'

/-- The number of links followed at most. -/
def linkLimit : Nat := 40

/-- The location and the entry that steps lead to, from a location on. -/
def walk (root : Entry) (budget : Nat) (here : Location) (steps : List Step) :
    Except Absence (Location × Entry) :=
  match root.get? here with
  | none => .error .missing
  | some e =>
    match steps with
    | [] => .ok (here, e)
    | step :: rest =>
      if !e.isDirectory then .error .notDirectory
      else match step with
        | .stay => walk root budget here rest
        | .up => walk root budget here.parent rest
        | .name s =>
          match e.children.lookup s with
          | none => .error .missing
          | some (.link target) =>
            match budget with
            | 0 => .error .loop
            | budget + 1 =>
              walk root budget (if isAbsolute target then [] else here) (stepsOf target ++ rest)
          | some _ => walk root budget (here ++ [s]) rest
termination_by (budget, steps.length)

/-- The location and the entry that an absolute path leads to. -/
def access (root : Entry) (parts : List String) : Except Absence (Location × Entry) :=
  walk root linkLimit [] (stepsOfParts parts)

/-! ## §2. Questions. -/

/-- The path leads to a file. -/
def isFile (root : Entry) (parts : List String) : Bool :=
  match access root parts with
  | .ok (_, e) => e.isFile
  | .error _ => false

/-- The path leads to a directory. -/
def isDirectory (root : Entry) (parts : List String) : Bool :=
  match access root parts with
  | .ok (_, e) => e.isDirectory
  | .error _ => false

/-- Why a file's contents cannot be had. -/
inductive ReadFault where
  | absent (why : Absence)
  | isDirectory
  deriving DecidableEq, Repr

/-- The octets of the file that a path leads to. -/
def octets (root : Entry) (parts : List String) : Except ReadFault (List UInt8) :=
  match access root parts with
  | .error why => .error (.absent why)
  | .ok (_, .file octets _) => .ok octets
  | .ok _ => .error .isDirectory

end EmbeddedExpr.Tree
