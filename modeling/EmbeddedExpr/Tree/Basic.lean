/-
  EmbeddedExpr.Tree.Basic
  ───────────────────────
  **FILE TREES.**

  A tree is a directory of files, directories and links.  A location is the list of names that
  leads from the root of the tree to an entry, without following links.

  Left out are special files, such as pipes and devices, and directories whose entries may not be
  listed.
-/
import EmbeddedExpr.Path

namespace EmbeddedExpr

/-- The names from the root of a tree down to an entry. -/
abbrev Location := List String

/-- What a directory holds under a name. -/
inductive Entry where
  /-- A file: its octets, and the time of its last change in nanoseconds. -/
  | file (octets : List UInt8) (modified : Int)
  | directory (entries : List (String × Entry))
  /-- A link to a written path. -/
  | link (target : String)
  deriving Repr, Inhabited

namespace Entry

/-- An empty directory. -/
def empty : Entry := .directory []

/-- What a directory holds; nothing for other entries. -/
def children : Entry → List (String × Entry)
  | .directory entries => entries
  | _ => []

/-- The entry is a directory. -/
def isDirectory : Entry → Bool
  | .directory _ => true
  | _ => false

/-- The entry is a file. -/
def isFile : Entry → Bool
  | .file _ _ => true
  | _ => false

/-- The entry at a location. -/
def get? (e : Entry) : Location → Option Entry
  | [] => some e
  | name :: rest =>
    match e.children.lookup name with
    | some child => get? child rest
    | none => none

/-- Named entries with one set under a name: in its place, or at the end. -/
def setNamed (name : String) (e : Entry) : List (String × Entry) → List (String × Entry)
  | [] => [(name, e)]
  | c :: more => if c.1 = name then (name, e) :: more else c :: setNamed name e more

/-- The tree with an entry put at a location.  Directories on the way are made. -/
def put (e new : Entry) : Location → Entry
  | [] => new
  | name :: rest =>
    let child := (e.children.lookup name).getD .empty
    .directory (setNamed name (child.put new rest) e.children)

/-- The tree without the entry at a location. -/
def remove (e : Entry) : Location → Entry
  | [] => e
  | [name] => .directory (e.children.filter fun c => c.1 ≠ name)
  | name :: next :: rest =>
    match e.children.lookup name with
    | some child => .directory (setNamed name (child.remove (next :: rest)) e.children)
    | none => e

mutual
/-- The locations of all links under an entry at a location. -/
def links (at_ : Location) : Entry → List Location
  | .link _ => [at_]
  | .directory entries => linksAmong at_ entries
  | .file _ _ => []
/-- The locations of all links among the entries of a directory. -/
def linksAmong (at_ : Location) : List (String × Entry) → List Location
  | [] => []
  | (name, e) :: more => links (at_ ++ [name]) e ++ linksAmong at_ more
end

end Entry

/-- A location as an absolute path. -/
def Location.path (l : Location) : Path := ⟨1, l⟩

/-- The text of a location. -/
def Location.render (l : Location) : String := l.path.render

/-- The location of the directory that holds an entry. -/
def Location.parent (l : Location) : Location := l.dropLast

/-- The way from one location down to another; none when it does not lead down. -/
def Location.relativeTo? (l base : Location) : Option Location :=
  if base.isPrefixOf l then some (l.drop base.length) else none

end EmbeddedExpr
