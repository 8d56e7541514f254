/-
  EmbeddedExpr.Yaml.Schema
  ────────────────────────
  **WHAT A TEXT WITHOUT A TAG IS.**

  A plain text is null, a truth value, a number, a time, or one of the marks for merging and
  for a default value, if it is written like one; else it is a text.  The older version knows
  more truth values, and numbers to the base of sixty.
-/
import EmbeddedExpr.Data.Calendar
import EmbeddedExpr.Text.Digits
import EmbeddedExpr.Text.Lines
import EmbeddedExpr.Yaml.Node

namespace EmbeddedExpr.Yaml

/-! ## §1. Numbers. -/

/-- A text without a sign at its head. -/
def unsigned : List Char → List Char
  | '-' :: rest => rest
  | '+' :: rest => rest
  | s => s

/-- A decimal digit or an underscore. -/
def isSpacedDigit (c : Char) : Bool := c.isDigit || c = '_'

/-- At least one character, all of one kind. -/
def isRunOf (p : Char → Bool) (s : List Char) : Bool := !s.isEmpty && s.all p

/-- What follows a digit and further digits or underscores. -/
def afterDigits? : List Char → Option (List Char)
  | c :: rest => if c.isDigit then some (rest.dropWhile isSpacedDigit) else none
  | [] => none

/-- An exponent of ten; `signed` demands its sign. -/
def isExponent (signed : Bool) : List Char → Bool
  | e :: s =>
    (e = 'e' || e = 'E')
      && (if signed then s.head? = some '-' || s.head? = some '+' else true)
      && isRunOf Char.isDigit (unsigned s)
  | [] => false

/-- The minutes or seconds of a number to the base of sixty, each after a colon, and what
follows them. -/
def sixties : List Char → List Char × List Char
  | ':' :: a :: b :: rest =>
    if b.isDigit then
      if a.isDigit && a.toNat ≤ '5'.toNat then
        let (taken, more) := sixties rest
        (':' :: a :: b :: taken, more)
      else ([], ':' :: a :: b :: rest)
    else if a.isDigit then
      let (taken, more) := sixties (b :: rest)
      (':' :: a :: taken, more)
    else ([], ':' :: a :: b :: rest)
  | [':', a] => if a.isDigit then ([':', a], []) else ([], [':', a])
  | s => ([], s)
termination_by s => s.length

/-- A number with a point or an exponent. -/
def isDecimal (older : Bool) (s : List Char) : Bool :=
  let bare := unsigned s
  match afterDigits? bare with
  | some ('.' :: rest) =>
    let more := rest.dropWhile isSpacedDigit
    more.isEmpty || isExponent false more
  | some rest =>
    isExponent false rest
      || (older && !(sixties rest).1.isEmpty
        && (match (sixties rest).2 with
          | '.' :: more => more.all isSpacedDigit
          | _ => false))
  | none =>
    match (if older then s else bare) with
    | '.' :: rest =>
      let more := rest.dropWhile isSpacedDigit
      !(rest.takeWhile isSpacedDigit).isEmpty && (more.isEmpty || isExponent true more)
    | _ => false

/-- An infinity, or what is no number. -/
def isNonFinite (s : List Char) : Bool :=
  [".inf", ".Inf", ".INF"].contains (String.ofList (unsigned s))
    || [".nan", ".NaN", ".NAN"].contains (String.ofList s)

/-- A floating-point number. -/
def isFloat (older : Bool) (s : List Char) : Bool := isDecimal older s || isNonFinite s

/-- A digit of a base up to sixteen, or an underscore. -/
def isDigitOf (base : Nat) (c : Char) : Bool :=
  c = '_' || (Text.digitValue? c).any fun d => d < base

/-- A whole number. -/
def isInt (older : Bool) (s : List Char) : Bool :=
  let bare := unsigned s
  let based := match bare with
    | '0' :: 'b' :: rest => isRunOf (isDigitOf 2) rest
    | '0' :: 'x' :: rest => isRunOf (isDigitOf 16) rest
    | '0' :: 'o' :: rest => !older && isRunOf (isDigitOf 8) rest
    | _ => false
  let plain :=
    if older then
      isRunOf (isDigitOf 8) bare
        || (match bare with
          | c :: rest =>
            c.isDigit && c ≠ '0' && (sixties (rest.dropWhile isSpacedDigit)).2.isEmpty
          | [] => false)
    else isRunOf isSpacedDigit bare
  s.head? ≠ some '_' && (based || plain)

/-! ## §2. Times. -/

/-- The parts of a written time. -/
structure TimeText where
  year : List Char
  month : List Char
  day : List Char
  /-- Hour, minute, second and the digits after the point. -/
  clock : Option (List Char × List Char × List Char × List Char)
  zone : Option Zone
  deriving Repr

/-- Between `least` and `most` decimal digits, and what follows them. -/
def digits? (least most : Nat) (s : List Char) : Option (List Char × List Char) :=
  let taken := (s.take most).takeWhile Char.isDigit
  if least ≤ taken.length then some (taken, s.drop taken.length) else none

/-- What follows a character. -/
def after? (c : Char) : List Char → Option (List Char)
  | ch :: rest => if ch = c then some rest else none
  | [] => none

/-- Hours and minutes in seconds. -/
def zoneSeconds (hours minutes : List Char) : Nat :=
  Text.decimal hours * 3600 + Text.decimal minutes * 60

/-- The zone that a text is, without the white space before it: a `Z` for the common time, or
hours and minutes with a sign. -/
def zoneOf? (s : List Char) : Option Zone :=
  match s with
  | ['Z'] => some ⟨0, "Z"⟩
  | sign :: more =>
    if sign = '-' || sign = '+' then do
      let (hours, more) ← digits? 1 2 more
      let minutes ← match more with
        | [] => some []
        | ':' :: more => do
          let (minutes, more) ← digits? 2 2 more
          if more.isEmpty then some minutes else none
        | _ => none
      let n : Int := zoneSeconds hours minutes
      some ⟨if sign = '-' then -n else n, String.ofList s⟩
    else none
  | [] => none

/-- What stands after the time of day: nothing, or a zone. -/
def zone? (s : List Char) : Option (Option Zone) :=
  if s.isEmpty then some none
  else (zoneOf? (s.dropWhile fun c => c = ' ' || c = '\t')).map some

/-- The time that a text writes. -/
def time? (s : List Char) : Option TimeText := do
  let (year, rest) ← digits? 4 4 s
  let (month, rest) ← digits? 1 2 (← after? '-' rest)
  let (day, rest) ← digits? 1 2 (← after? '-' rest)
  match rest with
  | [] => some ⟨year, month, day, none, none⟩
  | c :: more =>
    let clock ←
      if c = 'T' || c = 't' then some more
      else if c = ' ' || c = '\t' then some (more.dropWhile fun c => c = ' ' || c = '\t')
      else none
    let (hour, rest) ← digits? 1 2 clock
    let (minute, rest) ← digits? 2 2 (← after? ':' rest)
    let (second, rest) ← digits? 2 2 (← after? ':' rest)
    let (fraction, rest) := match rest with
      | '.' :: more => (more.takeWhile Char.isDigit, more.dropWhile Char.isDigit)
      | _ => ([], rest)
    let zone ← zone? rest
    some ⟨year, month, day, some (hour, minute, second, fraction), zone⟩

/-- A time that needs no tag.  A date alone has two digits for the month and for the day. -/
def isTime (s : List Char) : Bool :=
  match time? s with
  | some t => t.clock.isSome || (t.month.length = 2 && t.day.length = 2)
  | none => false

/-! ## §3. Tags. -/

/-- The words for truth values. -/
def truthWords (older : Bool) : List String :=
  ["true", "True", "TRUE", "false", "False", "FALSE"]
    ++ (if older then
      ["y", "Y", "yes", "Yes", "YES", "n", "N", "no", "No", "NO", "on", "On", "ON",
        "off", "Off", "OFF"]
      else [])

/-- The ways to write null. -/
def nullWords : List String := ["", "~", "null", "Null", "NULL"]

/-- The words that are marks of other nodes where they are not quoted. -/
def markWords : List String := ["!", "&", "*"]

/-- The tag of a plain text.  A line feed at the end of a text counts for nothing, unless the
text begins with it. -/
def implicitTag (older : Bool) (s : List Char) : List Char :=
  let bare := if s.head? = some '\n' then s else Text.withoutLineEnd s
  let word := String.ofList bare
  coreTag (
    if (truthWords older).contains word then "bool"
    else if isFloat older bare then "float"
    else if isInt older bare then "int"
    else if word = "<<" then "merge"
    else if nullWords.contains word then "null"
    else if isTime bare then "timestamp"
    else if word = "=" then "value"
    else if markWords.contains word then "yaml"
    else "str")

/-- The tag of a text: the one given, or that of a plain text. -/
def scalarTag (older : Bool) (tag : Option (List Char)) (s : List Char) : List Char :=
  tag.getD (implicitTag older s)

end EmbeddedExpr.Yaml
