/-
  EmbeddedExpr.Json.Reader
  ────────────────────────
  **READING JSON.**

  A text is cut into tokens, and the tokens are read by an automaton with a stack of open
  lists and mappings.  Numbers with a point or an exponent are floating-point numbers, all
  others whole ones; `NaN` and the infinities are numbers too.  Of two entries of one name
  the last one holds.
-/
import EmbeddedExpr.Data.Basic
import EmbeddedExpr.Text.Digits

namespace EmbeddedExpr.Json

/-! ## §1. Tokens. -/

/-- A token of a JSON text. -/
inductive Token where
  | openList | closeList | openMap | closeMap | colon | comma
  | scalar (value : Data)
  deriving Repr

/-- The character that a letter stands for after a backslash. -/
def escaped? : Char → Option Char
  | '\x22' => some '\x22'
  | '\\' => some '\\'
  | '/' => some '/'
  | 'b' => some '\x08'
  | 'f' => some '\x0c'
  | 'n' => some '\n'
  | 'r' => some '\r'
  | 't' => some '\t'
  | _ => none

/-- The code units of a text after its opening quote, and what follows its closing quote.
Control characters may not stand in a text. -/
def units? : List Char → Option (List Nat × List Char)
  | [] => none
  | '\x22' :: rest => some ([], rest)
  | '\\' :: 'u' :: a :: b :: c :: d :: rest =>
    match Text.number? 16 [a, b, c, d], units? rest with
    | some unit, some (units, more) => some (unit :: units, more)
    | _, _ => none
  | '\\' :: c :: rest =>
    match escaped? c, units? rest with
    | some e, some (units, more) => some (e.toNat :: units, more)
    | _, _ => none
  | c :: rest =>
    if c.toNat < 0x20 || c = '\\' then none
    else (units? rest).map fun (units, more) => (c.toNat :: units, more)

/-- The characters of code units: a high and a low surrogate make one character, and one that
stands alone is replaced. -/
def joinUnits : List Nat → List Char
  | [] => []
  | high :: low :: rest =>
    if 0xD800 ≤ high && high < 0xDC00 && 0xDC00 ≤ low && low < 0xE000 then
      Char.ofNat (0x10000 + (high - 0xD800) * 0x400 + (low - 0xDC00)) :: joinUnits rest
    else (if 0xD800 ≤ high && high < 0xE000 then '\uFFFD' else Char.ofNat high)
      :: joinUnits (low :: rest)
  | [unit] => [if 0xD800 ≤ unit && unit < 0xE000 then '\uFFFD' else Char.ofNat unit]

/-- The digits before the point of a number, and what follows: a zero, or digits that do not
begin with one. -/
def wholePart? : List Char → Option (List Char × List Char)
  | '0' :: rest => some (['0'], rest)
  | c :: rest =>
    if c.isDigit then some ((c :: rest).takeWhile Char.isDigit, (c :: rest).dropWhile Char.isDigit)
    else none
  | [] => none

/-- The digits after a point, if a point and a digit stand here. -/
def fractionPart : List Char → List Char × List Char
  | '.' :: c :: rest =>
    if c.isDigit then ((c :: rest).takeWhile Char.isDigit, (c :: rest).dropWhile Char.isDigit)
    else ([], '.' :: c :: rest)
  | s => ([], s)

/-- The exponent after an `e`, if one stands here. -/
def exponentPart? (s : List Char) : Option Int × List Char :=
  match s with
  | e :: rest =>
    if e = 'e' || e = 'E' then
      let (negative, digits) := match rest with
        | '-' :: more => (true, more)
        | '+' :: more => (false, more)
        | more => (false, more)
      let number := digits.takeWhile Char.isDigit
      if number.isEmpty then (none, s)
      else (some (if negative then -(Text.decimal number : Int) else Text.decimal number),
        digits.dropWhile Char.isDigit)
    else (none, s)
  | [] => (none, [])

/-- A number without its sign at the head of a text, and what follows. -/
def number? (negative : Bool) (s : List Char) : Option (Data × List Char) := do
  let (whole, rest) ← wholePart? s
  let (fraction, rest) := fractionPart rest
  let (exponent, rest) := exponentPart? rest
  if fraction.isEmpty && exponent.isNone then
    if Text.mostDecimalDigits < whole.length then none
    else some (.int (if negative then -(Text.decimal whole : Int) else Text.decimal whole), rest)
  else
    some (.float (.ofDecimal negative (Text.decimal (whole ++ fraction))
      (exponent.getD 0 - fraction.length)), rest)

/-- The words that are values. -/
def words : List (String × Data) := [
  ("null", .null), ("true", .bool true), ("false", .bool false), ("NaN", .float (.nan 0)),
  ("Infinity", .float (.infinite false)), ("-Infinity", .float (.infinite true))]

/-- A word that is a value at the head of a text, and what follows. -/
def word? (s : List Char) : Option (Data × List Char) :=
  words.findSome? fun (word, value) =>
    if word.toList.isPrefixOf s then some (value, s.drop word.length) else none

/-- A scalar other than a text at the head of a text. -/
def scalar? (s : List Char) : Option (Data × List Char) :=
  match word? s with
  | some found => some found
  | none =>
    match s with
    | '-' :: rest => number? true rest
    | _ => number? false s

/-- The token at the head of a text that begins with no white space. -/
def token? : List Char → Option (Token × List Char)
  | [] => none
  | c :: rest =>
    match c with
    | '[' => some (.openList, rest)
    | ']' => some (.closeList, rest)
    | '\x7b' => some (.openMap, rest)
    | '\x7d' => some (.closeMap, rest)
    | ':' => some (.colon, rest)
    | ',' => some (.comma, rest)
    | '\x22' =>
      (units? rest).map fun (units, more) =>
        (.scalar (.str (String.ofList (joinUnits units))), more)
    | _ => (scalar? (c :: rest)).map fun (value, more) => (.scalar value, more)

/-- White space of a JSON text. -/
def isBlank (c : Char) : Bool := c = ' ' || c = '\t' || c = '\n' || c = '\r'

/-- The tokens of a text, if it consists of tokens and white space. -/
def tokens? (s : List Char) : Option (List Token) :=
  match s with
  | [] => some []
  | c :: rest =>
    if isBlank c then tokens? rest
    else
      match token? (c :: rest) with
      | some (t, more) =>
        if more.length ≤ rest.length then (tokens? more).map (t :: ·) else none
      | none => none
termination_by s.length
decreasing_by all_goals simp only [List.length_cons]; omega

/-! ## §2. Values. -/

/-- A list or mapping that is still open, its last item first. -/
inductive Frame where
  | list (items : List Data)
  | map (entries : List (Data × Data))
  /-- A mapping that waits for the value of a name. -/
  | entry (entries : List (Data × Data)) (name : String)

/-- What may come next. -/
inductive Expected where
  | value | valueOrEnd | nameOrEnd | name | colon | commaOrEnd | nothing
  deriving DecidableEq

/-- What has been read. -/
structure Reading where
  frames : List Frame
  expected : Expected
  result : Data

/-- Nothing has been read. -/
def Reading.start : Reading := ⟨[], .value, .null⟩

/-- The reading with a value put where it belongs. -/
def Reading.put (r : Reading) (value : Data) : Reading :=
  match r.frames with
  | [] => ⟨[], .nothing, value⟩
  | .list items :: more => ⟨.list (value :: items) :: more, .commaOrEnd, r.result⟩
  | .entry entries name :: more =>
    ⟨.map ((.str name, value) :: entries) :: more, .commaOrEnd, r.result⟩
  | .map entries :: more => ⟨.map entries :: more, r.expected, r.result⟩

/-- Entries with each name once: the last value holds. -/
def lastEntries (entries : List (Data × Data)) : List (Data × Data) :=
  entries.foldl (fun kept e => Data.insert e.1 e.2 kept) []

/-- A value may stand here. -/
def Reading.wantsValue (r : Reading) : Bool := r.expected = .value || r.expected = .valueOrEnd

/-- The reading after one more token. -/
def Reading.step (r : Reading) : Token → Option Reading
  | .scalar value =>
    if r.wantsValue then some (r.put value)
    else if r.expected = .name || r.expected = .nameOrEnd then
      match value, r.frames with
      | .str name, .map entries :: more => some ⟨.entry entries name :: more, .colon, r.result⟩
      | _, _ => none
    else none
  | .openList =>
    if r.wantsValue then some ⟨.list [] :: r.frames, .valueOrEnd, r.result⟩ else none
  | .openMap => if r.wantsValue then some ⟨.map [] :: r.frames, .nameOrEnd, r.result⟩ else none
  | .closeList =>
    match r.frames with
    | .list items :: more =>
      if r.expected = .valueOrEnd || r.expected = .commaOrEnd then
        some (Reading.put ⟨more, .value, r.result⟩ (.list items.reverse))
      else none
    | _ => none
  | .closeMap =>
    match r.frames with
    | .map entries :: more =>
      if r.expected = .nameOrEnd || r.expected = .commaOrEnd then
        some (Reading.put ⟨more, .value, r.result⟩ (.map (lastEntries entries.reverse)))
      else none
    | _ => none
  | .colon => if r.expected = .colon then some { r with expected := .value } else none
  | .comma =>
    if r.expected = .commaOrEnd then
      match r.frames with
      | .list _ :: _ => some { r with expected := .value }
      | .map _ :: _ => some { r with expected := .name }
      | _ => none
    else none

/-- The value that a JSON text spells. -/
def read? (s : List Char) : Option Data := do
  let tokens ← tokens? s
  let last ← tokens.foldlM Reading.step Reading.start
  if last.expected = .nothing then some last.result else none

end EmbeddedExpr.Json
