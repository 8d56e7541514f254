/-
  EmbeddedExpr.Text.Blank
  ───────────────────────
  **WHITE SPACE.**

  White space is the Unicode property together with the four information
  separators U+001C to U+001F.  Trimming removes it on both sides.
-/
import EmbeddedExpr.Text.Ranges

namespace EmbeddedExpr.Text

/-- The code points that count as white space. -/
def blankRanges : Ranges := #[
    (0x9, 0xD), (0x1C, 0x20), (0x85, 0x85), (0xA0, 0xA0), (0x1680, 0x1680),
    (0x2000, 0x200A), (0x2028, 0x2029), (0x202F, 0x202F), (0x205F, 0x205F), (0x3000, 0x3000)]

/-- A white space character. -/
def isBlank (c : Char) : Bool := blankRanges.mem c.toNat

/-- The text without white space at its start. -/
def trimLeft (s : List Char) : List Char := s.dropWhile isBlank

/-- The text without white space at its end. -/
def trimRight (s : List Char) : List Char := (s.reverse.dropWhile isBlank).reverse

/-- The text without white space at either end. -/
def trim (s : List Char) : List Char := trimRight (trimLeft s)

/-- The text holds nothing but white space. -/
def isBlankText (s : List Char) : Bool := s.all isBlank

end EmbeddedExpr.Text
