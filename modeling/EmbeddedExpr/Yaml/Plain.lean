/-
  EmbeddedExpr.Yaml.Plain
  ───────────────────────
  **TEXTS WITHOUT QUOTES.**

  A plain text ends at white space before a comment, at a colon before white space, at a mark
  of a flow collection inside one, and at a line that is indented too little.  A single line
  break inside it is a blank, and of several all but the first remain.
-/
import EmbeddedExpr.Yaml.Cursor

namespace EmbeddedExpr.Yaml

/-- Where a text stands: inside a flow collection or not, and in which version. -/
structure Context where
  inFlow : Bool
  /-- The older version of the language is in force. -/
  older : Bool
  deriving DecidableEq, Repr

/-- A plain text begins here. -/
def beginsPlain (x : Context) (c : Cursor) : Bool :=
  let ch := c.head
  let following := !stopsWord (c.peek 1)
  if !(ch = ending || isSpace ch || isBreak ch || isIndicator ch) then true
  else if ch = '-' then following
  else if ch = ':' then
    if x.inFlow then !x.older && !isSpace (c.peek 1) else following
  else if ch = '?' then following && !x.inFlow
  else false

/-- The character, before the given one, belongs to a plain text. -/
def staysPlain (x : Context) (ch following : Char) : Bool :=
  if ch = ':' && !stopsWord following then true
  else if ch = '?' && !x.older then true
  else !(stopsWord ch || ch = ':' || (x.inFlow && (ch = '?' || isFlowMark ch)))

/-- The characters of a plain text up to white space. -/
def plainRun (x : Context) : List Char → List Char
  | [] => []
  | ch :: rest =>
    if staysPlain x ch (rest.head?.getD ending) then ch :: plainRun x rest else []

/-- What stands between two runs of a plain text. -/
structure Between where
  /-- What it adds to the text; nothing ends the text. -/
  filling : List Char
  place : Cursor
  /-- A line ended. -/
  broke : Bool

/-- The breaks after the first one, with the blanks around them, up to a document's mark at the
head of a line; and whether such a mark was met. -/
def moreBreaks (c : Cursor) : List Char × Cursor × Bool :=
  let blank := c.skipWhile (· = ' ')
  let (made, after) := blank.lineBreak
  if made.isEmpty then ([], blank, false)
  else if after.atDocumentMark then ([], after, true)
  else if after.rest.length < c.rest.length then
    let (more, place, met) := moreBreaks after
    (made ++ more, place, met)
  else ([], after, false)
termination_by c.rest.length

/-- What stands here between two runs of a plain text. -/
def between (c : Cursor) : Between :=
  let (blanks, place) := c.takeWhile (· = ' ')
  let (first, after) := place.lineBreak
  if first.isEmpty then ⟨blanks, place, false⟩
  else if after.atDocumentMark then ⟨[], after, true⟩
  else
    let (more, place, met) := moreBreaks after
    let filling := if first ≠ ['\n'] then first else if more.isEmpty then [' '] else []
    ⟨if met then [] else filling ++ more, place, true⟩

/-- A plain text: what it says, the place after it, and whether a line ended after it. -/
structure PlainText where
  text : List Char
  place : Cursor
  broke : Bool

/-- The plain text that goes on here.  `filling` stands before it, and lines indented less
than `indent` do not belong to it. -/
def plainFrom (x : Context) (indent : Int) (filling : List Char) (broke : Bool) (c : Cursor) :
    PlainText :=
  let run := if c.head = '#' then [] else plainRun x c.rest
  let gap := between (c.advance run.length)
  let said := filling ++ run
  if run.isEmpty then ⟨[], c, broke⟩
  else if gap.filling.isEmpty || gap.place.head = '#'
      || (!x.inFlow && (gap.place.column : Int) < indent) then
    ⟨said, gap.place, gap.broke⟩
  else if gap.place.rest.length < c.rest.length then
    let more := plainFrom x indent gap.filling gap.broke gap.place
    ⟨said ++ more.text, more.place, more.broke⟩
  else ⟨said, gap.place, gap.broke⟩
termination_by c.rest.length

/-- The plain text here. -/
def plain (x : Context) (indent : Int) (c : Cursor) : PlainText := plainFrom x indent [] false c

end EmbeddedExpr.Yaml
