/-
  EmbeddedExpr.Yaml.Scalar
  ────────────────────────
  **THE VALUES OF TEXTS.**

  A text with a tag is a value of the tag's kind, or a fault.  Numbers may be spelled in the
  digits of any script.  The older version knows numbers to the base of sixty: their parts
  are summed from the last one on, each sum rounded.
-/
import EmbeddedExpr.Data.Basic
import EmbeddedExpr.Text.Base64
import EmbeddedExpr.Text.Blank
import EmbeddedExpr.Text.Case
import EmbeddedExpr.Yaml.Schema

namespace EmbeddedExpr.Yaml

/-! ## §1. Whole numbers. -/

/-- The text without underscores. -/
def unspaced (s : List Char) : List Char := s.filter (· ≠ '_')

/-- White space that may stand around a number: the information separators may not. -/
def isNumberSpace (c : Char) : Bool :=
  Text.isBlank c && !(0x1C ≤ c.toNat && c.toNat ≤ 0x1F)

/-- The text of a number in the usual digits, without the white space around it. -/
def numberText (s : List Char) : List Char :=
  let front := (Text.usualDigits s).dropWhile isNumberSpace
  (front.reverse.dropWhile isNumberSpace).reverse

/-- The letter that may follow a zero in front of the digits of a base. -/
def baseLetter? (base : Nat) : Option Char :=
  if base = 2 then some 'b' else if base = 8 then some 'o' else if base = 16 then some 'x'
  else none

/-- The digits after the zero and the letter of a base, if these stand in front. -/
def afterBase (base : Nat) (s : List Char) : List Char :=
  match s with
  | '0' :: c :: rest =>
    if (baseLetter? base).any fun letter => c = letter || c = letter.toUpper then rest else s
  | _ => s

/-- The number that digits spell in a base; there may be white space around them, and a sign
and the letter of the base in front. -/
def wholeIn (base : Nat) (s : List Char) : Except Fault Int :=
  let s := numberText s
  let digits := afterBase base (unsigned s)
  if base = 10 && Text.mostDecimalDigits < digits.length then .error .badValue
  else match digits.isEmpty, Text.number? base digits with
    | false, some n => .ok (Binary64.signed (s.head? = some '-') n)
    | _, _ => .error .badValue

/-- The pieces of a text between colons. -/
def colonParts (s : List Char) : List (List Char) :=
  s.foldr (fun c parts =>
    match parts with
    | part :: more => if c = ':' then [] :: part :: more else (c :: part) :: more
    | [] => [[c]]) [[]]

/-- The whole number that a text spells. -/
def intOf (older : Bool) (s : List Char) : Except Fault Data := do
  let s := unspaced s
  if s.isEmpty then .error .noCharacters
  let sign : Int := if s.head? = some '-' then -1 else 1
  let bare := unsigned s
  let n ← match bare with
    | '0' :: 'b' :: rest => wholeIn 2 rest
    | '0' :: 'x' :: rest => wholeIn 16 rest
    | '0' :: 'o' :: rest => wholeIn 8 rest
    | _ =>
      if older && bare.isEmpty then .error .noCharacters
      else if older && bare.head? = some '0' then wholeIn 8 bare
      else if older && bare.contains ':' then do
        let parts ← (colonParts bare).mapM (wholeIn 10)
        pure (parts.foldl (fun total part => total * 60 + part) 0)
      else wholeIn 10 bare
  pure (.int (sign * n))

/-! ## §2. Floating-point numbers. -/

/-- The digits of a decimal number and its exponent of ten. -/
def decimalParts? (s : List Char) : Option (List Char × Int) :=
  let whole := s.takeWhile Char.isDigit
  let rest := s.dropWhile Char.isDigit
  let (fraction, rest) := match rest with
    | '.' :: more => (more.takeWhile Char.isDigit, more.dropWhile Char.isDigit)
    | _ => ([], rest)
  let digits := whole ++ fraction
  let shift : Int := fraction.length
  match rest with
  | [] => if digits.isEmpty then none else some (digits, -shift)
  | e :: more =>
    let power := unsigned more
    if (e = 'e' || e = 'E') && isRunOf Char.isDigit power && !digits.isEmpty then
      let n : Int := Text.decimal power
      some (digits, (if more.head? = some '-' then -n else n) - shift)
    else none

/-- The floating-point number that a text without underscores and in lower case spells. -/
def floatText (s : List Char) : Except Fault Binary64 :=
  let s := numberText s
  let negative := s.head? = some '-'
  let bare := unsigned s
  match String.ofList bare with
  | "inf" => .ok (.infinite negative)
  | "infinity" => .ok (.infinite negative)
  | "nan" => .ok (.nan 0)
  | _ =>
    match decimalParts? bare with
    | some (digits, exponent) => .ok (.ofDecimal negative (Text.decimal digits) exponent)
    | none => .error .badValue

/-- The sum of parts to the base of sixty, the last part first; `unit` is what the next part
counts. -/
def sixtySum (total : Binary64) (unit : Nat) : List Binary64 → Except Fault Binary64
  | [] => .ok total
  | part :: more =>
    match Binary64.ofRatio false unit 1 with
    | .finite negative m e =>
      sixtySum (total.add (part.mul (.finite negative m e))) (unit * 60) more
    | _ => .error .outOfRange

/-- The floating-point number that a text at a place spells.  What is no number is one and the
same if it is written as such, and another one at every place if it is read from a word. -/
def floatOf (older : Bool) (place : Nat) (s : List Char) : Except Fault Data := do
  let s := Text.lower (unspaced s)
  if s.isEmpty then .error .noCharacters
  let bare := unsigned s
  if bare = ".nan".toList then pure (.float (.nan 0))
  else
    let x ←
      if bare = ".inf".toList then pure (Binary64.infinite false)
      else if older && bare.contains ':' then do
        let parts ← (colonParts bare).mapM floatText
        sixtySum (.finite false 0 Binary64.leastExponent) 1 parts.reverse
      else floatText bare
    match x with
    | .nan _ => pure (.float (.nan place))
    | x => pure (.float (if s.head? = some '-' then x.negate else x))

/-! ## §3. Truth values and times. -/

/-- The truth value that a word stands for. -/
def boolOf (s : List Char) : Except Fault Data :=
  let word := String.ofList (Text.lower s)
  if ["yes", "y", "true", "on"].contains word then .ok (.bool true)
  else if ["no", "n", "false", "off"].contains word then .ok (.bool false)
  else .error .unknownWord

/-- The microseconds that the digits after the point spell; the seventh digit rounds. -/
def microseconds (digits : List Char) : Nat :=
  let six := digits.take 6
  let shown := Text.decimal (six ++ List.replicate (6 - six.length) '0')
  if (digits.drop 6).head?.any fun c => '4' < c then shown + 1 else shown

/-- The date or the time that a text spells.  Microseconds that are rounded up to a second are
carried, unless the calendar ends. -/
def timeOf (s : List Char) : Except Fault Data :=
  match time? (Text.withoutLineEnd s) with
  | none => .error .malformed
  | some t =>
    let date : Date := ⟨Text.decimal t.year, Text.decimal t.month, Text.decimal t.day⟩
    match t.clock with
    | none => if date.isValid then .ok (.date date) else .error .badValue
    | some (hour, minute, second, fraction) =>
      let micro := microseconds fraction
      let time : Timestamp := ⟨date, Text.decimal hour, Text.decimal minute, Text.decimal second,
        micro % 1000000, t.zone⟩
      if !time.isValid then .error .badValue
      else if micro < 1000000 then .ok (.timestamp time)
      else if time.nextSecond.isValid then .ok (.timestamp time.nextSecond)
      else .error .outOfRange

/-! ## §4. Texts with tags. -/

/-- The value of a text with a tag at a place. -/
def scalarOf (older : Bool) (place : Nat) (tag text : List Char) : Except Fault Data :=
  if tag = coreTag "str" then .ok (.str (String.ofList text))
  else if tag = coreTag "null" then .ok .null
  else if tag = coreTag "bool" then boolOf text
  else if tag = coreTag "int" then intOf older text
  else if tag = coreTag "float" then floatOf older place text
  else if tag = coreTag "timestamp" then timeOf text
  else if tag = coreTag "binary" then
    match Text.Base64.decode? text with
    | some octets => .ok (.octets octets)
    | none => .error .malformed
  else .error .malformed

end EmbeddedExpr.Yaml
