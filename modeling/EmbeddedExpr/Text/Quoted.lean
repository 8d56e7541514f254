/-
  EmbeddedExpr.Text.Quoted
  ────────────────────────
  **THE QUOTED FORM OF A TEXT.**

  A text is quoted so that every character of it can be read off a message: in single
  quotes, or in double quotes when it holds a single quote and no double one.  The
  backslash, the quote in use and the characters that do not print are escaped.
-/
import EmbeddedExpr.Text.Digits
import EmbeddedExpr.Text.Printable

namespace EmbeddedExpr.Text

/-- The escape of a character by its code point: two, four or eight digits. -/
def codeEscape (c : Char) : List Char :=
  let code := c.toNat
  if code < 0x100 then '\\' :: 'x' :: hexDigits 2 code
  else if code < 0x10000 then '\\' :: 'u' :: hexDigits 4 code
  else '\\' :: 'U' :: hexDigits 8 code

/-- One character inside quotes of the given kind. -/
def quotedChar (quote c : Char) : List Char :=
  if c = quote || c = '\\' then ['\\', c]
  else if c = '\n' then ['\\', 'n']
  else if c = '\r' then ['\\', 'r']
  else if c = '\t' then ['\\', 't']
  else if isPrintable c then [c]
  else codeEscape c

/-- The quote that a text is put in. -/
def quoteFor (s : List Char) : Char :=
  if s.contains '\x27' && !s.contains '\x22' then '\x22' else '\x27'

/-- The quoted form of a text. -/
def quoted (s : List Char) : List Char :=
  let quote := quoteFor s
  quote :: s.flatMap (quotedChar quote) ++ [quote]

end EmbeddedExpr.Text
