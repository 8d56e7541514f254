/-
  EmbeddedExpr.Path
  ─────────────────
  **WRITTEN PATHS.**

  A path is the slashes at its head and the names between its slashes.  Empty names and
  single dots say nothing and are left out; double dots stay, since what they mean depends on
  the links of a file tree.  Two slashes at the head are kept as written, more count as one.
-/
import EmbeddedExpr.Text.Search

namespace EmbeddedExpr

/-- A written path. -/
structure Path where
  /-- The slashes at its head: none for a relative path. -/
  slashes : Nat
  /-- The names, outermost first. -/
  parts : List String
  deriving DecidableEq, Repr

namespace Path

/-! ## §1. Reading and writing. -/

/-- The slashes that a text with the given number of them at its head stands for. -/
def headSlashes (written : Nat) : Nat := if written ≤ 2 then written else 1

/-- The path that a text spells. -/
def ofString (s : String) : Path :=
  let names := (Text.splitOn '/' s.toList).filter fun name => !(name.isEmpty || name = ['.'])
  ⟨headSlashes (s.toList.takeWhile (· = '/')).length, names.map String.ofList⟩

/-- The text of a path. -/
def render (p : Path) : String :=
  if p.slashes = 0 && p.parts.isEmpty then "."
  else String.ofList (List.replicate p.slashes '/') ++ "/".intercalate p.parts

/-- The path begins at the root of the file tree. -/
def isAbsolute (p : Path) : Bool := p.slashes ≠ 0

/-- `q` as seen from `p`: an absolute path is itself. -/
def join (p q : Path) : Path :=
  if q.isAbsolute then q else ⟨p.slashes, p.parts ++ q.parts⟩

/-! ## §2. Names. -/

/-- The last name; empty when there is none. -/
def name (p : Path) : String := p.parts.getLast?.getD ""

/-- The text of a name from its last dot on; empty when that dot is the first or the last
character, or when there is no dot. -/
def suffixOf (name : List Char) : List Char :=
  let tail := name.reverse.takeWhile (· ≠ '.')
  let before := (name.reverse.dropWhile (· ≠ '.')).drop 1
  if tail.isEmpty || before.isEmpty then [] else '.' :: tail.reverse

/-- The suffix of the path's last name. -/
def suffix (p : Path) : String := String.ofList (suffixOf p.name.toList)

end Path

end EmbeddedExpr
