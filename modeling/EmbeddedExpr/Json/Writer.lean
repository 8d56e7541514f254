/-
  EmbeddedExpr.Json.Writer
  ────────────────────────
  **WRITING JSON.**

  A value is written on one line, with a blank after every comma and colon.  Inside a text
  only the quote, the backslash and the control characters are escaped.
-/
import EmbeddedExpr.Data.Print

namespace EmbeddedExpr.Json

/-- One character inside quotes. -/
def writtenChar (c : Char) : List Char :=
  match c with
  | '\x22' => ['\\', '\x22']
  | '\\' => ['\\', '\\']
  | '\n' => ['\\', 'n']
  | '\r' => ['\\', 'r']
  | '\t' => ['\\', 't']
  | '\x08' => ['\\', 'b']
  | '\x0c' => ['\\', 'f']
  | c => if c.toNat < 0x20 then '\\' :: 'u' :: Text.hexDigits 4 c.toNat else [c]

/-- A text in quotes. -/
def writtenText (s : String) : List Char := '\x22' :: s.toList.flatMap writtenChar ++ ['\x22']

/-- A floating-point number; those that are not finite have names. -/
def writtenFloat : Binary64 → List Char
  | .nan _ => "NaN".toList
  | .infinite false => "Infinity".toList
  | .infinite true => "-Infinity".toList
  | x => x.render

mutual
/-- The JSON text of a value. -/
def write : Data → List Char
  | .null => "null".toList
  | .bool true => "true".toList
  | .bool false => "false".toList
  | .int i => Data.intText i
  | .float x => writtenFloat x
  | .list items => '[' :: Data.commaSeparated (writeItems items) ++ [']']
  | .tuple items => '[' :: Data.commaSeparated (writeItems items) ++ [']']
  | .set items => '[' :: Data.commaSeparated (writeItems items) ++ [']']
  | .map entries => '\x7b' :: Data.commaSeparated (writeEntries entries) ++ ['\x7d']
  | .ordered entries => '\x7b' :: Data.commaSeparated (writeEntries entries) ++ ['\x7d']
  | .str s => writtenText s
  | .date d => writtenText (String.ofList d.render)
  | .timestamp t => writtenText (String.ofList t.render)
  | .octets o => writtenText (String.ofList (Data.octetsText o))
  | .shared _ => "null".toList
/-- The JSON texts of values. -/
def writeItems : List Data → List (List Char)
  | [] => []
  | d :: more => write d :: writeItems more
/-- The JSON texts of entries. -/
def writeEntries : List (Data × Data) → List (List Char)
  | [] => []
  | (k, v) :: more =>
    let name := match k with
      | .str s => writtenText s
      | k => writtenText (String.ofList (write k))
    (name ++ ':' :: ' ' :: write v) :: writeEntries more
end

end EmbeddedExpr.Json
