/-
  EmbeddedExpr.Yaml.Cursor
  ────────────────────────
  **A PLACE IN A YAML TEXT.**

  A cursor holds the text that is still to be read, and where it begins: its offset, its line
  and its column.  Lines and columns are counted by line feeds and carriage returns alone, so that
  the line goes on after the other breaks; a byte order mark takes no column.
-/
import EmbeddedExpr.Yaml.Chars

namespace EmbeddedExpr.Yaml

/-- A place in a text. -/
structure Cursor where
  rest : List Char
  index : Nat
  line : Nat
  column : Nat
  deriving Repr

namespace Cursor

/-- The start of a text. -/
def start (s : List Char) : Cursor := ⟨s, 0, 0, 0⟩

/-- The character `k` places further on. -/
def peek (c : Cursor) (k : Nat) : Char := c.rest[k]?.getD ending

/-- The character here. -/
def head (c : Cursor) : Char := c.peek 0

/-- The place one character further on. -/
def next (c : Cursor) : Cursor :=
  match c.rest with
  | [] => c
  | ch :: rest =>
    let breaks := ch = '\n' || (ch = '\r' && rest.head? ≠ some '\n')
    if breaks then ⟨rest, c.index + 1, c.line + 1, 0⟩
    else ⟨rest, c.index + 1, c.line, if ch = '\uFEFF' then c.column else c.column + 1⟩

/-- The place `n` characters further on. -/
def advance (c : Cursor) (n : Nat) : Cursor := Nat.repeat next n c

/-- The characters from here on that have a property, and the place after them. -/
def takeWhile (c : Cursor) (p : Char → Bool) : List Char × Cursor :=
  let taken := c.rest.takeWhile p
  (taken, c.advance taken.length)

/-- The place after the characters from here on that have a property. -/
def skipWhile (c : Cursor) (p : Char → Bool) : Cursor := (c.takeWhile p).2

/-- The place after the line break here, and what the break stands for: a line feed, unless
it is a line or paragraph separator.  Nothing when there is no break. -/
def lineBreak (c : Cursor) : List Char × Cursor :=
  match c.rest with
  | '\r' :: '\n' :: _ => (['\n'], c.advance 2)
  | ch :: _ =>
    if isBreak ch then ([if isSeparator ch then ch else '\n'], c.next) else ([], c)
  | [] => ([], c)

/-- Three hyphens or three dots stand here as a word. -/
def atMark (c : Cursor) (mark : Char) : Bool :=
  c.peek 0 = mark && c.peek 1 = mark && c.peek 2 = mark && stopsWord (c.peek 3)

/-- The mark of a document's start or end stands here. -/
def atDocumentMark (c : Cursor) : Bool := c.atMark '-' || c.atMark '.'

/-- The place after a comment here, if there is one. -/
def skipComment (c : Cursor) : Cursor :=
  if c.head = '#' then c.skipWhile fun ch => !stopsLine ch else c

end Cursor

end EmbeddedExpr.Yaml
