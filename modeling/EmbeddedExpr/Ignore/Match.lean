/-
  EmbeddedExpr.Ignore.Match
  ─────────────────────────
  **WHICH PATHS ARE LEFT OUT.**

  A path is matched from its first character.  What a pattern leaves open is tried in every
  way.  The last pattern that concerns a path decides on it.
-/
import EmbeddedExpr.Ignore.Pattern

namespace EmbeddedExpr.Ignore

/-! ## §1. Rests of a path. -/

/-- The rests of a text after any number of characters of a kind. -/
def restsAfter (p : Char → Bool) : List Char → List (List Char)
  | [] => [[]]
  | c :: rest => (c :: rest) :: (if p c then restsAfter p rest else [])

/-- The rests of a text after at least one character of a kind. -/
def restsAfterSome (p : Char → Bool) : List Char → List (List Char)
  | [] => []
  | c :: rest => if p c then restsAfter p rest else []

/-- The rest of a text after a slash. -/
def afterSlash? : List Char → Option (List Char)
  | '/' :: rest => some rest
  | _ => none

/-- A character that ends no line. -/
def isInline (c : Char) : Bool := c ≠ '\n'

/-! ## §2. Names. -/

/-- The rests of a text after what parts stand for. -/
def restsAfterParts : List Part → List Char → List (List Char)
  | [], s => [s]
  | .many :: more, s => (restsAfter (· ≠ '/') s).flatMap (restsAfterParts more)
  | part :: more, c :: s => if part.takes c then restsAfterParts more s else []
  | _ :: _, [] => []

/-- The name ends here: a slash follows, or the text ends, where a line end does not count. -/
def endsName (s : List Char) : Bool := s.isEmpty || s = ['\n'] || s.head? = some '/'

/-! ## §3. Paths. -/

/-- The rests of a text after the name that a segment stands for. -/
def restsAfterName (segment : Segment) (s : List Char) : List (List Char) :=
  match segment with
  | .anyName => restsAfterSome (· ≠ '/') s
  | .name parts => restsAfterParts parts s
  | .anyDepth => []

/-- Segments after the first one match a text; `slash` says that a slash must stand before
the next name. -/
def matchFrom (slash : Bool) : List Segment → List Char → Bool
  | [], s => endsName s
  | [.anyDepth], s => (afterSlash? s).isSome
  | .anyDepth :: more, s =>
    matchFrom true more s
      || (match afterSlash? s with
        | some rest => (restsAfterSome isInline rest).any (matchFrom true more)
        | none => false)
  | segment :: more, s =>
    let starts := if slash then (afterSlash? s).toList else [s]
    starts.any fun start => (restsAfterName segment start).any (matchFrom true more)

/-- Segments match a path. -/
def matchAll (all : List Segment) (s : List Char) : Bool :=
  match all with
  | .anyDepth :: more =>
    matchFrom false more s
      || ((restsAfterSome isInline s).filterMap afterSlash?).any (matchFrom false more)
  | _ => matchFrom false all s

/-- The pattern concerns a path. -/
def Pattern.concerns (p : Pattern) (s : List Char) : Bool :=
  match p.shape with
  | .everything => s.any isInline
  | .nested => s.contains '/'
  | .segments all => matchAll all s

/-- A path without the slash, or the dot and the slash, at its head. -/
def relative : List Char → List Char
  | '/' :: rest => rest
  | '.' :: '/' :: rest => rest
  | s => s

/-- The path is left out by the last pattern that concerns it. -/
def verdict (patterns : List Pattern) (path : String) : Bool :=
  match patterns.reverse.find? fun p => p.concerns (relative path.toList) with
  | some p => !p.keeps
  | none => false

/-- The patterns that lines spell. -/
def readAll (lines : List String) : Except PatternFault (List Pattern) :=
  (lines.mapM fun line => read line.toList).map fun found => found.filterMap id

/-- The lines of an ignore file that may be patterns, without white space around them. -/
def linesOf (lines : List (List Char)) : List String :=
  ((lines.map Text.trim).filter fun s => !(s.isEmpty || s.head? = some '#')).map String.ofList

end EmbeddedExpr.Ignore
