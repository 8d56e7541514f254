/-
  EmbeddedExpr.Markup.Lookup
  ──────────────────────────
  **WHICH TOKEN COVERS AN OFFSET.**

  The tokens of a document stand in order of their starts, so the last one that starts at or
  before an offset is found by halving an interval of indices.
-/
import EmbeddedExpr.Markup.Lexer

namespace EmbeddedExpr.Markup

/-- The number of tokens that start at or before `offset`, which lies between `low` and
`high`. -/
def startsUpTo (tokens : Array Token) (offset : Int) (low high : Nat) : Nat :=
  if low < high then
    let middle := (low + high) / 2
    match tokens[middle]? with
    | some t =>
      if offset < t.start then startsUpTo tokens offset low middle
      else startsUpTo tokens offset (middle + 1) high
    | none => low
  else low
termination_by high - low

/-- The token that covers an offset.  White space inside a tag and offsets outside the
document have none. -/
def elementAt? (tokens : Array Token) (offset : Int) : Option Token :=
  match startsUpTo tokens offset 0 tokens.size with
  | 0 => none
  | k + 1 => tokens[k]?.filter fun t => t.start ≤ offset && offset < t.stop

/-- The offset lies in a comment. -/
def isComment (tokens : Array Token) (offset : Int) : Bool :=
  match elementAt? tokens offset with
  | some t => t.kind = .comment
  | none => false

end EmbeddedExpr.Markup
