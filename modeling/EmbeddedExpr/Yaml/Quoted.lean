/-
  EmbeddedExpr.Yaml.Quoted
  ────────────────────────
  **TEXTS IN QUOTES.**

  In single quotes only the quote itself is doubled.  In double quotes a backslash begins an
  escape, and one before a line break joins two lines.  White space around a line break is
  left out: a single break is a blank, and of several all but the first remain.

  An escape may name half of a surrogate pair, which is no character.  It leaves a gap in the
  text (`none`), and the token tells that there is one.
-/
import EmbeddedExpr.Yaml.Cursor
import EmbeddedExpr.Yaml.Token
import EmbeddedExpr.Text.Digits

namespace EmbeddedExpr.Yaml

/-- What a letter after a backslash stands for. -/
def escaped? : Char → Option Char
  | '0' => some '\x00'
  | 'a' => some '\x07'
  | 'b' => some '\x08'
  | 't' => some '\t'
  | '\t' => some '\t'
  | 'n' => some '\n'
  | 'v' => some '\x0b'
  | 'f' => some '\x0c'
  | 'r' => some '\r'
  | 'e' => some '\x1b'
  | ' ' => some ' '
  | '\x22' => some '\x22'
  | '/' => some '/'
  | '\\' => some '\\'
  | 'N' => some '\u0085'
  | '_' => some '\u00a0'
  | 'L' => some '\u2028'
  | 'P' => some '\u2029'
  | _ => none

/-- The number of digits of a code point after a letter. -/
def codeDigits? : Char → Option Nat
  | 'x' => some 2
  | 'u' => some 4
  | 'U' => some 8
  | _ => none

/-- The character of a code point, if it is one: half of a surrogate pair is not. -/
def charOf (code : Nat) : Except Fault (Option Char) :=
  if 0x7FFFFFFF < code then .error .outOfRange
  else if 0x10FFFF < code then .error .badValue
  else if 0xD800 ≤ code && code < 0xE000 then .ok none
  else .ok (some (Char.ofNat code))

/-- The breaks here with white space around them.  No document's mark may stand among
them. -/
def quotedBreaks (c : Cursor) : Except Fault (List Char × Cursor) :=
  if c.atDocumentMark then .error .malformed
  else
    let blank := c.skipWhile isSpace
    let (made, after) := blank.lineBreak
    if made.isEmpty then .ok ([], blank)
    else if after.rest.length < c.rest.length then do
      let (more, place) ← quotedBreaks after
      pure (made ++ more, place)
    else .error .malformed
termination_by c.rest.length

/-- White space here: as it stands, or folded when lines end in it. -/
def quotedSpace (c : Cursor) : Except Fault (List Char × Cursor) :=
  let (blanks, place) := c.takeWhile isSpace
  let (first, after) := place.lineBreak
  if place.rest.isEmpty then .error .malformed
  else if first.isEmpty then .ok (blanks, place)
  else do
    let (more, place) ← quotedBreaks after
    let filling := if first ≠ ['\n'] then first else if more.isEmpty then [' '] else []
    pure (filling ++ more, place)

/-- An escape after its backslash. -/
def escape (c : Cursor) : Except Fault (List (Option Char) × Cursor) :=
  match escaped? c.head, codeDigits? c.head with
  | some ch, _ => .ok ([some ch], c.next)
  | none, some count =>
    let digits := c.next.rest.take count
    match Text.number? 16 digits with
    | some code =>
      if digits.length < count then .error .malformed
      else do
        let ch ← charOf code
        pure ([ch], c.next.advance count)
    | none => .error .malformed
  | none, none =>
    if isBreak c.head then
      (quotedBreaks c.lineBreak.2).map fun (text, place) => (text.map some, place)
    else .error .malformed

/-- A part of a text in quotes: what it says and the place after it, or the place after the
closing quote. -/
inductive QuotedPart where
  | said (text : List (Option Char)) (place : Cursor)
  | closed (place : Cursor)

/-- The part of a text in quotes that stands here. -/
def quotedPart (quote : Char) (c : Cursor) : Except Fault QuotedPart :=
  let ch := c.head
  if c.rest.isEmpty then .error .malformed
  else if ch = quote && quote = '\x27' && c.peek 1 = '\x27' then
    .ok (.said [some quote] (c.advance 2))
  else if ch = quote then .ok (.closed c.next)
  else if ch = '\\' && quote = '\x22' then do
    let (text, place) ← escape c.next
    pure (.said text place)
  else if isSpace ch || isBreak ch then do
    let (text, place) ← quotedSpace c
    pure (.said (text.map some) place)
  else .ok (.said [some ch] c.next)

/-- The text in quotes that goes on here, and the place after its closing quote. -/
def quotedFrom (quote : Char) (c : Cursor) : Except Fault (List (Option Char) × Cursor) := do
  match ← quotedPart quote c with
  | .closed place => pure ([], place)
  | .said text place =>
    if place.rest.length < c.rest.length then
      let (more, last) ← quotedFrom quote place
      pure (text ++ more, last)
    else .error .malformed
termination_by c.rest.length

/-- The token of a text in quotes.  The replacement character stands in its gaps. -/
def quotedToken (text : List (Option Char)) : Token :=
  .scalar (if text.all Option.isSome then .quoted else .unpaired)
    (text.map fun ch => ch.getD '\uFFFD')

/-- The text in quotes here. -/
def quotedText (c : Cursor) : Except Fault (Token × Cursor) :=
  (quotedFrom c.head c.next).map fun (text, place) => (quotedToken text, place)

end EmbeddedExpr.Yaml
