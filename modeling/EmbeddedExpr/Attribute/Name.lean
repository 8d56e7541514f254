/-
  EmbeddedExpr.Attribute.Name
  ───────────────────────────
  **THE DIRECTIVE THAT AN ATTRIBUTE NAMES.**

  An attribute names a directive in many spellings: in any case, with `-`, `:` or `_` between
  its words, and with `data` or `x` and a separator in front.  `directive` gives the one form
  that stands for them all.
-/
import EmbeddedExpr.Text.Blank
import EmbeddedExpr.Text.Case

namespace EmbeddedExpr.Attribute

/-- A character that separates the words of an attribute's name. -/
def isSeparator (c : Char) : Bool := c = ':' || c = '-' || c = '_'

/-- A name without the word `data` or `x` and a separator at its head, if they stand there. -/
def withoutLead : List Char → List Char
  | 'd' :: 'a' :: 't' :: 'a' :: c :: rest =>
    if isSeparator c then rest else 'd' :: 'a' :: 't' :: 'a' :: c :: rest
  | 'x' :: c :: rest => if isSeparator c then rest else 'x' :: c :: rest
  | s => s

/-- Every separator written as a hyphen. -/
def hyphenate (s : List Char) : List Char :=
  s.map fun c => if c = ':' || c = '_' then '-' else c

/-- The directive that an attribute of the given name stands for. -/
def directive (name : List Char) : List Char :=
  hyphenate (withoutLead (Text.lower (Text.trim name)))

end EmbeddedExpr.Attribute
