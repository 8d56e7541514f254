/-
  EmbeddedExpr.Data.Print
  ───────────────────────
  **THE TEXT OF A VALUE.**

  `quoted?` writes a value so that its kind can be read off: texts in quotes, items in
  brackets.  `display?` is the same but for texts and calendar values, which it writes plainly.
  A collection inside itself is written as dots.
-/
import EmbeddedExpr.Data.Basic
import EmbeddedExpr.Text.Quoted

namespace EmbeddedExpr

namespace Data

/-! ## §1. Parts. -/

/-- Texts with a comma and a blank between them. -/
def commaSeparated : List (List Char) → List Char
  | [] => []
  | [s] => s
  | s :: more => s ++ ',' :: ' ' :: commaSeparated more

/-- A whole number in decimal. -/
def intText (i : Int) : List Char := (toString i).toList

/-- A whole number in decimal, unless it has too many digits. -/
def intText? (i : Int) : Option (List Char) :=
  if Text.mostDecimalDigits < (intText i.natAbs).length then none else some (intText i)

/-- One octet inside quotes. -/
def octetText (quote : Char) (octet : UInt8) : List Char :=
  if octet < 0x20 || 0x7F ≤ octet then
    if octet = 9 then ['\\', 't'] else if octet = 10 then ['\\', 'n']
    else if octet = 13 then ['\\', 'r'] else '\\' :: 'x' :: Text.hexDigits 2 octet.toNat
  else Text.quotedChar quote (Char.ofNat octet.toNat)

/-- Octets in quotes. -/
def octetsText (octets : List UInt8) : List Char :=
  let quote := Text.quoteFor (octets.map fun o => Char.ofNat o.toNat)
  'b' :: quote :: octets.flatMap (octetText quote) ++ [quote]

/-! ## §2. Calendar values. -/

/-- A word with parts in parentheses. -/
def call (word : String) (parts : List (List Char)) : List Char :=
  word.toList ++ '(' :: commaSeparated parts ++ [')']

/-- A number in decimal. -/
def natText (n : Nat) : List Char := Nat.toDigits 10 n

/-- The numbers of a time of day after the minute; zeros at the end are left out. -/
def secondsOf (t : Timestamp) : List Nat :=
  if t.microsecond ≠ 0 then [t.second, t.microsecond]
  else if t.second ≠ 0 then [t.second] else []

/-- A zone as its distance, in whole days and seconds, and its name. -/
def zoneText (z : Zone) : List Char :=
  let days := z.offset / 86400
  let seconds := z.offset % 86400
  let parts := (if days = 0 then [] else ["days=".toList ++ intText days])
    ++ (if seconds = 0 then [] else ["seconds=".toList ++ intText seconds])
  call "datetime.timezone" [
    call "datetime.timedelta" (if parts.isEmpty then [['0']] else parts),
    Text.quoted z.name.toList]

/-- A date as its numbers. -/
def dateText (d : Date) : List Char :=
  call "datetime.date" ([d.year, d.month, d.day].map natText)

/-- A time as its numbers, with its zone. -/
def timestampText (t : Timestamp) : List Char :=
  let numbers := [t.date.year, t.date.month, t.date.day, t.hour, t.minute] ++ secondsOf t
  call "datetime.datetime" (numbers.map natText
    ++ (match t.zone with
      | some z => ["tzinfo=".toList ++ zoneText z]
      | none => []))

/-! ## §3. Collections. -/

/-- Items in brackets. -/
def listText (items : List (List Char)) : List Char := '[' :: commaSeparated items ++ [']']

/-- Items in parentheses; a single one has a comma after it. -/
def tupleText : List (List Char) → List Char
  | [item] => '(' :: item ++ [',', ')']
  | items => '(' :: commaSeparated items ++ [')']

/-- Items in braces. -/
def bracesText (items : List (List Char)) : List Char := '\x7b' :: commaSeparated items ++ ['\x7d']

/-- Entries in braces. -/
def mapText (entries : List (List Char × List Char)) : List Char :=
  bracesText (entries.map fun e => e.1 ++ ':' :: ' ' :: e.2)

/-- A mapping given as a sequence of entries. -/
def orderedText (entries : List (List Char × List Char)) : List Char :=
  call "ordereddict" (if entries.isEmpty then []
    else [listText (entries.map fun e => tupleText [e.1, e.2])])

/-- What is written for a collection inside itself. -/
def ellipsis : Data → List Char
  | .list _ => "[...]".toList
  | .tuple _ => "(...)".toList
  | .map _ => "\x7b...\x7d".toList
  | _ => "...".toList

/-! ## §4. Values. -/

mutual
/-- The text of a value, from which its kind can be read; `named` writes what places hold. -/
def quotedWith (named : Nat → Option (List Char)) : Data → Option (List Char)
  | .null => some "None".toList
  | .bool true => some "True".toList
  | .bool false => some "False".toList
  | .int i => intText? i
  | .float x => some x.render
  | .str s => some (Text.quoted s.toList)
  | .date d => some (dateText d)
  | .timestamp t => some (timestampText t)
  | .octets o => some (octetsText o)
  | .list items => (quotedItems named items).map listText
  | .tuple items => (quotedItems named items).map tupleText
  | .map entries => (quotedEntries named entries).map mapText
  | .ordered entries => (quotedEntries named entries).map orderedText
  | .set [] => some "set()".toList
  | .set items => (quotedItems named items).map bracesText
  | .shared place => named place
/-- The texts of values. -/
def quotedItems (named : Nat → Option (List Char)) : List Data → Option (List (List Char))
  | [] => some []
  | d :: more =>
    match quotedWith named d, quotedItems named more with
    | some text, some texts => some (text :: texts)
    | _, _ => none
/-- The texts of entries. -/
def quotedEntries (named : Nat → Option (List Char)) :
    List (Data × Data) → Option (List (List Char × List Char))
  | [] => some []
  | (k, v) :: more =>
    match quotedWith named k, quotedWith named v, quotedEntries named more with
    | some key, some value, some texts => some ((key, value) :: texts)
    | _, _, _ => none
end

/-- The text of what a place holds; `around` are the places that hold it. -/
def sharedText (shares : Shares) (fuel : Nat) (around : List Nat) (place : Nat) :
    Option (List Char) :=
  match fuel with
  | 0 => none
  | fuel + 1 =>
    let contents := view shares (.shared place)
    if around.contains place then some (ellipsis contents)
    else quotedWith (sharedText shares fuel (place :: around)) contents

/-- The text of a value, from which its kind can be read.  There is none when a whole number in
it has too many digits.  No more than all places lie around one another. -/
def quoted? (shares : Shares) (d : Data) : Option (List Char) :=
  quotedWith (sharedText shares (shares.length + 1) []) d

/-- The text of a value as a reader would write it. -/
def display? (shares : Shares) : Data → Option String
  | .str s => some s
  | .date d => some (String.ofList d.render)
  | .timestamp t => some (String.ofList t.render)
  | d => (quoted? shares d).map String.ofList

end Data

end EmbeddedExpr
