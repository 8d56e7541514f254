/-
  EmbeddedExpr.Ignore.Pattern
  ───────────────────────────
  **PATTERNS OF PATHS.**

  A pattern says which paths it concerns, and whether they are left out or kept.  Between
  slashes it names single entries, and two asterisks stand for any number of them.  A pattern
  of one name concerns entries at any depth, one with a slash before its end those at its own
  place; a slash at the end asks for a directory.
-/
import EmbeddedExpr.Ignore.Glob
import EmbeddedExpr.Text.Blank
import EmbeddedExpr.Text.Search

namespace EmbeddedExpr.Ignore

/-! ## §1. Shapes. -/

/-- A piece of a pattern between slashes. -/
inductive Segment where
  /-- Two asterisks: any number of names. -/
  | anyDepth
  /-- One asterisk alone: any name. -/
  | anyName
  | name (parts : List Part)
  deriving DecidableEq, Repr

/-- What the paths are like that a pattern concerns. -/
inductive Shape where
  /-- Every path with a character that ends no line. -/
  | everything
  /-- Every path with a slash. -/
  | nested
  /-- Paths that match segment by segment. -/
  | segments (all : List Segment)
  deriving DecidableEq, Repr

/-- A pattern: its polarity and its shape. -/
structure Pattern where
  /-- The paths are kept, whatever earlier patterns say. -/
  keeps : Bool
  shape : Shape
  deriving DecidableEq, Repr

/-- Why a text is no pattern. -/
inductive PatternFault where
  /-- It names nothing, or ends in a lone backslash. -/
  | invalid
  /-- A range in brackets is reversed. -/
  | reversedRange
  deriving DecidableEq, Repr

/-! ## §2. Reading. -/

/-- The text without white space at its end, unless a backslash guards it. -/
def trimmed (s : List Char) : List Char :=
  if [' ', '\\'].isPrefixOf s.reverse then s else Text.trimRight s

/-- Two asterisks in a row stand for as much as one pair. -/
def collapse : List (List Char) → List (List Char)
  | a :: b :: more =>
    if a = ['*', '*'] && b = ['*', '*'] then collapse (b :: more) else a :: collapse (b :: more)
  | few => few

/-- Pieces with the last one, if it is empty, as two asterisks. -/
def openEnd (pieces : List (List Char)) : List (List Char) :=
  if pieces.getLast? = some [] then pieces.dropLast ++ [['*', '*']] else pieces

/-- The pieces of a pattern as they are matched from the top of the tree; none when there is
none left. -/
def pieces? (s : List Char) : Option (List (List Char)) :=
  let raw := Text.splitOn '/' s
  let placed := match raw with
    | [] :: more => more
    | [a] => [['*', '*'], a]
    | [a, []] => [['*', '*'], a, []]
    | _ => raw
  if placed.isEmpty then none else some (collapse (openEnd placed))

/-- The segment that a piece spells. -/
def segmentOf (piece : List Char) : Except GlobFault Segment :=
  if piece = ['*', '*'] then .ok .anyDepth
  else if piece = ['*'] then .ok .anyName
  else (partsOf piece).map .name

/-- A segment with a reversed range. -/
def Segment.isReversed : Segment → Bool
  | .name parts => parts.any Part.isReversed
  | _ => false

/-- The shape that pieces spell; none for a pattern that concerns no path. -/
def shapeOf (directory : Bool) (pieces : List (List Char)) :
    Except PatternFault (Option Shape) :=
  if pieces = [['*', '*']] then .ok (some (if directory then .nested else .everything))
  else if pieces = [['*', '*'], ['*']] then .ok (some .everything)
  else if pieces = [['*', '*'], ['*'], ['*', '*']] then .ok (some .nested)
  else match pieces.mapM segmentOf with
    | .error .openBracket => .ok none
    | .error .loneBackslash => .error .invalid
    | .ok all =>
      if all.any Segment.isReversed then .error .reversedRange else .ok (some (.segments all))

/-- The pattern that a line spells.  Blank lines, comments and a lone slash concern no path. -/
def read (line : List Char) : Except PatternFault (Option Pattern) :=
  let s := trimmed line
  if s.isEmpty || s.head? = some '#' || s = ['/'] then .ok none
  else
    let keeps := s.head? = some '!'
    let body := if keeps then s.drop 1 else s
    match pieces? body with
    | none => .error .invalid
    | some pieces =>
      (shapeOf (body.getLast? = some '/') pieces).map fun shape =>
        shape.map fun shape => ⟨keeps, shape⟩

end EmbeddedExpr.Ignore
