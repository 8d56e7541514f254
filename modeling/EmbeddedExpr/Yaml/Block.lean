/-
  EmbeddedExpr.Yaml.Block
  ───────────────────────
  **TEXTS IN INDENTED BLOCKS.**

  A block's header says whether lines are folded, what becomes of the line breaks at its end,
  and how far it is indented.  Without a given indentation the first line that is not empty
  decides.  The block ends at the first line that is indented less.
-/
import EmbeddedExpr.Yaml.Cursor
import EmbeddedExpr.Yaml.Token

namespace EmbeddedExpr.Yaml

/-! ## §1. Headers. -/

/-- What becomes of the line breaks at a block's end. -/
inductive Chomping where
  /-- One break stays. -/
  | clip
  /-- All breaks stay. -/
  | keep
  /-- No break stays. -/
  | strip
  deriving DecidableEq, Repr

/-- The sign of a header, if one stands here. -/
def chomping? (c : Cursor) : Option Chomping :=
  if c.head = '+' then some .keep else if c.head = '-' then some .strip else none

/-- The depth in a header, if a digit stands here. -/
def depth? (c : Cursor) : Option Nat :=
  if c.head.isDigit then some (c.head.toNat - '0'.toNat) else none

/-- The sign and the depth of a header, in either order, and the place after them. -/
def blockHeader (c : Cursor) : Except Fault (Chomping × Option Nat × Cursor) :=
  let (sign, depth, place) := match chomping? c, depth? c with
    | some sign, _ =>
      match depth? c.next with
      | some depth => (sign, some depth, c.next.next)
      | none => (sign, none, c.next)
    | none, some depth =>
      match chomping? c.next with
      | some sign => (sign, some depth, c.next.next)
      | none => (.clip, some depth, c.next)
    | none, none => (.clip, none, c)
  if depth = some 0 || !stopsProperty place.head then .error .malformed
  else .ok (sign, depth, place)

/-- The place after the header's line: blanks and a comment may follow. -/
def restOfLine (c : Cursor) : Except Fault Cursor :=
  let place := (c.skipWhile (· = ' ')).skipComment
  if stopsLine place.head then .ok place.lineBreak.2 else .error .malformed

/-! ## §2. Line breaks. -/

/-- The empty lines at the start of a block: their breaks, the greatest column to which blanks
lead, and the column of the first break. -/
def leadingBreaks (c : Cursor) : List Char × Nat × Option Nat × Cursor :=
  let (blanks, place) := c.takeWhile (· = ' ')
  let reached := if blanks.isEmpty then 0 else place.column
  let (made, after) := place.lineBreak
  if made.isEmpty then ([], reached, none, place)
  else if after.rest.length < c.rest.length then
    let (more, deepest, _, last) := leadingBreaks after
    (made ++ more, max reached deepest, some place.column, last)
  else (made, reached, some place.column, after)
termination_by c.rest.length

/-- The place after the blanks here, up to a column. -/
def skipIndent (indent : Nat) (c : Cursor) : Cursor :=
  c.advance ((c.rest.take (indent - c.column)).takeWhile (· = ' ')).length

/-- The empty lines here: their breaks, and the place after the indentation that follows. -/
def blockBreaks (indent : Nat) (c : Cursor) : List Char × Cursor :=
  let place := skipIndent indent c
  let (made, after) := place.lineBreak
  if made.isEmpty then ([], place)
  else if after.rest.length < c.rest.length then
    let (more, last) := blockBreaks indent after
    (made ++ more, last)
  else (made, after)
termination_by c.rest.length

/-! ## §3. Lines. -/

/-- The lines of a block: what they say, the last line's break, the breaks after it, and the
place after them. -/
structure BlockLines where
  text : List Char
  lastBreak : List Char
  breaks : List Char
  place : Cursor

/-- The lines of a block from here on; `breaks` are those before the line here. -/
def blockLines (folded : Bool) (indent : Nat) (atMargin : Bool) (breaks : List Char)
    (c : Cursor) : BlockLines :=
  if c.column ≠ indent || c.rest.isEmpty then ⟨[], [], breaks, c⟩
  else
    let (line, stop) := c.takeWhile fun ch => !stopsLine ch
    let (lineEnd, after) := stop.lineBreak
    let (more, next) := blockBreaks indent after
    let said := breaks ++ line
    if (atMargin && next.atDocumentMark && next.column = 0) || next.column ≠ indent
        || next.rest.isEmpty then
      ⟨said, lineEnd, more, next⟩
    else if next.rest.length < c.rest.length then
      let joined := folded && lineEnd = ['\n'] && !isSpace c.head && !isSpace next.head
      let join := if joined then (if more.isEmpty then [' '] else []) else lineEnd
      let others := blockLines folded indent atMargin more next
      { others with text := said ++ join ++ others.text }
    else ⟨said, lineEnd, more, next⟩
termination_by c.rest.length

/-- The block text here, inside a collection that is indented by `outer` columns, and the
place after it. -/
def blockText (outer : Int) (c : Cursor) : Except Fault (List Char × Cursor) := do
  let folded := c.head = '>'
  let (sign, depth, place) ← blockHeader c.next
  let first ← restOfLine place
  let least := (outer + 1).toNat
  let lines ← match depth with
    | some depth =>
      let indent := max least 1 + depth - 1
      let (breaks, start) := blockBreaks indent first
      pure (blockLines folded indent false breaks start)
    | none =>
      let (breaks, deepest, firstBreak, start) := leadingBreaks first
      if firstBreak.any fun column => 0 < column && column < deepest then .error .malformed
      else pure (blockLines folded (max least deepest) (least = 0) breaks start)
  let tail := match sign with
    | .clip => lines.lastBreak
    | .keep => lines.lastBreak ++ lines.breaks
    | .strip => []
  pure (lines.text ++ tail, lines.place)

end EmbeddedExpr.Yaml
