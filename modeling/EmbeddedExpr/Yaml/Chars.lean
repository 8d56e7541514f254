/-
  EmbeddedExpr.Yaml.Chars
  ───────────────────────
  **THE CHARACTERS OF A YAML TEXT.**

  The end of the text reads as the character NUL, which no text holds: a text is readable
  only if all its characters print or are white space.
-/
namespace EmbeddedExpr.Yaml

/-- What is read at the end of the text. -/
def ending : Char := '\x00'

/-- A character that a text may hold. -/
def isReadable (c : Char) : Bool :=
  let code := c.toNat
  code = 0x9 || code = 0xA || code = 0xD || (0x20 ≤ code && code ≤ 0x7E) || code = 0x85
    || (0xA0 ≤ code && code ≤ 0xFFFD) || 0x10000 ≤ code

/-- A line break. -/
def isBreak (c : Char) : Bool := ['\n', '\r', '\u0085', '\u2028', '\u2029'].contains c

/-- A line break or the end of the text. -/
def stopsLine (c : Char) : Bool := isBreak c || c = ending

/-- What must follow a directive's word, a tag or a scalar's header: a blank, a break or the
end of the text. -/
def stopsProperty (c : Char) : Bool := c = ' ' || stopsLine c

/-- White space, a break or the end of the text. -/
def stopsWord (c : Char) : Bool := c = '\t' || stopsProperty c

/-- A break that stands for itself; every other one stands for a line feed. -/
def isSeparator (c : Char) : Bool := c = '\u2028' || c = '\u2029'

/-- A blank or a tab. -/
def isSpace (c : Char) : Bool := c = ' ' || c = '\t'

/-- The characters that open and close collections inside a line, and the comma. -/
def isFlowMark (c : Char) : Bool := [',', '[', ']', '\x7b', '\x7d'].contains c

/-- A character of an anchor's name. -/
def isAnchorChar (c : Char) : Bool :=
  let code := c.toNat
  !isFlowMark c
    && ((0x21 ≤ code && code ≤ 0x7E) || (0xA0 ≤ code && code ≤ 0xFFFD && code ≠ 0xFEFF)
      || 0x10000 ≤ code)

/-- A letter, a digit, a hyphen or an underscore. -/
def isNameChar (c : Char) : Bool := c.isAlphanum || c = '-' || c = '_'

/-- A character of a tag that stands for itself; the number sign is one in later versions. -/
def isTagChar (numberSign : Bool) (c : Char) : Bool :=
  c.isAlphanum || "-;/?:@&=+$,_.!~*'()[]".toList.contains c || (numberSign && c = '#')

/-- A character with which no unquoted text begins. -/
def isIndicator (c : Char) : Bool :=
  "-?:,[]\x7b\x7d#&*!|>'\"%@".toList.contains c || c = '\x60'

end EmbeddedExpr.Yaml
