/-
  EmbeddedExpr.Text.Lines
  ───────────────────────
  **LINE ENDS.**

  `unifyBreaks` turns every carriage return, alone or before a line feed, into a line
  feed; `lines` cuts a text at every character that ends a line.  A line feed at the end of
  a text often does not count.
-/
namespace EmbeddedExpr.Text

/-- Every line end of the text files read, written as a line feed. -/
def unifyBreaks : List Char → List Char
  | [] => []
  | '\r' :: '\n' :: rest => '\n' :: unifyBreaks rest
  | '\r' :: rest => '\n' :: unifyBreaks rest
  | c :: rest => c :: unifyBreaks rest

/-- A character that ends a line. -/
def isLineEnd (c : Char) : Bool :=
  ['\n', '\r', '\x0b', '\x0c', '\x1c', '\x1d', '\x1e', '\u0085', '\u2028', '\u2029'].contains c

/-- The pieces between line ends; the piece after the last one included. -/
def linePieces : List Char → List (List Char)
  | [] => [[]]
  | '\r' :: '\n' :: rest => [] :: linePieces rest
  | c :: rest =>
    if isLineEnd c then [] :: linePieces rest
    else match linePieces rest with
      | piece :: more => (c :: piece) :: more
      | [] => [[c]]

/-- The lines of a text, without their ends.  Nothing after the last end is no line. -/
def lines (s : List Char) : List (List Char) :=
  let pieces := linePieces s
  if pieces.getLast? = some [] then pieces.dropLast else pieces

/-- The text without a line feed at its end. -/
def withoutLineEnd (s : List Char) : List Char :=
  if s.getLast? = some '\n' then s.dropLast else s

end EmbeddedExpr.Text
