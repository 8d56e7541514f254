/-
  EmbeddedExpr.Yaml.Layout
  ────────────────────────
  **FROM CHARACTERS TO TOKENS.**

  Indentation opens and closes block collections.  A text, alias or flow collection may turn
  out to be a key only when the colon after it is read, so its place in the token sequence is
  remembered: a key's token is put there later.  A key must end on its line and within 1024
  characters.
-/
import EmbeddedExpr.Yaml.Block
import EmbeddedExpr.Yaml.Plain
import EmbeddedExpr.Yaml.Property
import EmbeddedExpr.Yaml.Quoted

namespace EmbeddedExpr.Yaml

/-! ## §1. State. -/

/-- A place in the token sequence at which a key may begin. -/
structure KeyPlace where
  /-- The number of tokens before it. -/
  position : Nat
  /-- The block's contents demand a key here. -/
  required : Bool
  index : Nat
  line : Nat
  column : Nat
  deriving Repr

/-- An open flow collection. -/
inductive Bracket where
  | square
  | curly
  deriving DecidableEq, Repr

/-- What has been read of a text. -/
structure Layout where
  place : Cursor
  tokens : Array Token
  /-- The column of the innermost block collection; −1 outside all. -/
  indent : Int
  /-- The columns of the collections around it. -/
  outer : List Int
  /-- The open flow collections, innermost first. -/
  brackets : List Bracket
  /-- A key may begin at the next token. -/
  keyAllowed : Bool
  /-- The places at which keys may begin, by the number of open flow collections. -/
  keys : List (Nat × KeyPlace)
  version : Version

namespace Layout

/-- Nothing has been read. -/
def start (s : List Char) : Layout :=
  ⟨.start s, #[], -1, [], [], true, [], .usual⟩

/-- The next token is inside a flow collection. -/
def inFlow (l : Layout) : Bool := !l.brackets.isEmpty

/-- The number of open flow collections. -/
def depth (l : Layout) : Nat := l.brackets.length

/-- The older version of the language is in force. -/
def isOlder (l : Layout) : Bool := l.version.isOlder

/-- Where the next text stands. -/
def context (l : Layout) : Context := ⟨l.inFlow, l.isOlder⟩

/-- The tokens with one more at their end. -/
def push (l : Layout) (t : Token) : Layout := { l with tokens := l.tokens.push t }

/-- The tokens with one more, and the place after `n` characters. -/
def pushMark (l : Layout) (t : Token) (n : Nat) : Layout :=
  { l with tokens := l.tokens.push t, place := l.place.advance n }

/-! ## §2. Keys. -/

/-- The key can no longer end in time. -/
def isStale (l : Layout) (k : KeyPlace) : Bool :=
  k.line ≠ l.place.line || 1024 < l.place.index - k.index

/-- Without the keys that can no longer end in time.  One that is required is missing. -/
def dropStale (l : Layout) : Except Fault Layout :=
  if l.keys.any fun k => l.isStale k.2 && k.2.required then .error .malformed
  else .ok { l with keys := l.keys.filter fun k => !l.isStale k.2 }

/-- Without the key of the innermost collection.  One that is required is missing. -/
def dropKey (l : Layout) : Except Fault Layout :=
  match l.keys.lookup l.depth with
  | some k =>
    if k.required then .error .malformed
    else .ok { l with keys := l.keys.filter fun k => k.1 ≠ l.depth }
  | none => .ok l

/-- A key may begin at the next token, if keys are allowed. -/
def markKey (l : Layout) : Except Fault Layout :=
  if l.keyAllowed then do
    let required := !l.inFlow && l.indent = l.place.column
    let k : KeyPlace := ⟨l.tokens.size, required, l.place.index, l.place.line, l.place.column⟩
    let l ← l.dropKey
    pure { l with keys := (l.depth, k) :: l.keys }
  else .ok l

/-! ## §3. Indentation. -/

/-- The block collections that are indented more than `column` are closed. -/
def closeTo (column : Int) (indent : Int) (tokens : Array Token) :
    List Int → Int × List Int × Array Token
  | [] => (indent, [], tokens)
  | around :: outer =>
    if column < indent then closeTo column around (tokens.push .blockEnd) outer
    else (indent, around :: outer, tokens)

/-- The block collections that are indented more than `column` are closed, unless a flow
collection is open. -/
def unwind (l : Layout) (column : Int) : Layout :=
  if l.inFlow then l
  else
    let (indent, outer, tokens) := closeTo column l.indent l.tokens l.outer
    { l with indent, outer, tokens }

/-- A block collection begins at a column that is further in; its token is put at
`position`. -/
def indentTo (l : Layout) (column position : Nat) (t : Token) : Layout :=
  if l.indent < column then
    { l with
      indent := column
      outer := l.indent :: l.outer
      tokens := (l.tokens.toList.take position ++ t :: l.tokens.toList.drop position).toArray }
  else l

/-! ## §4. Marks. -/

/-- White space, comments and line breaks are passed over.  In a block, a line break allows a
key. -/
def skipBlank (l : Layout) : Layout :=
  let blank := l.place.skipWhile fun ch => ch = ' ' || (l.inFlow && ch = '\t')
  let (made, after) := blank.skipComment.lineBreak
  if made.isEmpty then { l with place := after }
  else if after.rest.length < l.place.rest.length then
    skipBlank { l with place := after, keyAllowed := l.keyAllowed || !l.inFlow }
  else { l with place := after }
termination_by l.place.rest.length

/-- A byte order mark at the start of the text is passed over. -/
def skipOrderMark (l : Layout) : Layout :=
  if l.place.index = 0 && l.place.head = '\uFEFF' then { l with place := l.place.next } else l

/-- A directive, or the mark of a document's start or end, closes all block collections. -/
def closeAll (l : Layout) : Except Fault Layout := do
  let l ← (l.unwind (-1)).dropKey
  pure { l with keyAllowed := false }

/-- The directive here.  That of a version takes effect at once. -/
def readDirective (l : Layout) : Except Fault Layout := do
  let l ← l.closeAll
  let (found, place) ← directive l.version.isNewer l.place
  let l := { l.push (.directive found) with place }
  match found with
  | .version v => pure { l with version := v }
  | _ => pure l

/-- The mark of a document's start or end here. -/
def readDocumentMark (l : Layout) (t : Token) : Except Fault Layout := do
  pure ((← l.closeAll).pushMark t 3)

/-- The opening mark of a flow collection here. -/
def openFlow (l : Layout) (b : Bracket) (t : Token) : Except Fault Layout := do
  let l ← l.markKey
  pure ({ l with brackets := b :: l.brackets, keyAllowed := true }.pushMark t 1)

/-- The closing mark of a flow collection here. -/
def closeFlow (l : Layout) (t : Token) : Except Fault Layout := do
  let l ← l.dropKey
  pure ({ l with brackets := l.brackets.drop 1, keyAllowed := false }.pushMark t 1)

/-- A comma here. -/
def readComma (l : Layout) : Except Fault Layout := do
  let l ← l.dropKey
  pure ({ l with keyAllowed := true }.pushMark .flowEntry 1)

/-- The hyphen of a sequence's item here. -/
def readItem (l : Layout) : Except Fault Layout := do
  if !l.inFlow && !l.keyAllowed then .error .malformed
  let l := if l.inFlow then l else l.indentTo l.place.column l.tokens.size .blockSequenceStart
  let l ← l.dropKey
  pure ({ l with keyAllowed := true }.pushMark .blockEntry 1)

/-- The question mark before a key here. -/
def readKey (l : Layout) : Except Fault Layout := do
  if !l.inFlow && !l.keyAllowed then .error .malformed
  let l := if l.inFlow then l else l.indentTo l.place.column l.tokens.size .blockMappingStart
  let l ← l.dropKey
  pure ({ l with keyAllowed := !l.inFlow }.pushMark .key 1)

/-- The colon before a value here.  What stood before it on the line was a key, if it may have
been one. -/
def readValue (l : Layout) : Except Fault Layout := do
  match l.keys.lookup l.depth with
  | some k =>
    let l := { l with keys := l.keys.filter fun k => k.1 ≠ l.depth, keyAllowed := false }
    let tokens := l.tokens.toList.take k.position ++ .key :: l.tokens.toList.drop k.position
    let l := { l with tokens := tokens.toArray }
    let l := if l.inFlow then l else l.indentTo k.column k.position .blockMappingStart
    pure (l.pushMark .value 1)
  | none =>
    if !l.inFlow && !l.keyAllowed then .error .malformed
    let l := if l.inFlow then l else l.indentTo l.place.column l.tokens.size .blockMappingStart
    let l ← { l with keyAllowed := !l.inFlow }.dropKey
    pure (l.pushMark .value 1)

/-- A colon here stands before a value.  `waiting` says that a key may still begin at an
earlier token. -/
def beginsValue (l : Layout) (waiting : Bool) : Bool :=
  let followed := stopsWord (l.place.peek 1)
  match l.brackets with
  | [] => followed
  | b :: _ =>
    if l.isOlder || followed then true
    else match b with
      | .square => false
      | .curly => !(waiting && l.tokens.back? = some .value)

/-- A text, alias, anchor or tag that may begin a key. -/
def readPart (l : Layout) (read : Cursor → Except Fault (Token × Cursor)) :
    Except Fault Layout := do
  let l ← l.markKey
  let (t, place) ← read l.place
  pure { l.push t with place, keyAllowed := false }

/-- The plain text here.  A key may begin after it when a line ended. -/
def readPlain (l : Layout) : Except Fault Layout := do
  let l ← l.markKey
  let found := plain l.context (l.indent + 1) l.place
  pure { l.push (.scalar .plain found.text) with place := found.place, keyAllowed := found.broke }

/-- The block text here. -/
def readBlock (l : Layout) : Except Fault Layout := do
  let l ← l.dropKey
  let (text, place) ← blockText l.indent l.place
  pure { l.push (.scalar .block text) with place, keyAllowed := true }

/-! ## §5. Texts. -/

/-- One more token, which is not the end of the text. -/
def readToken (l : Layout) (waiting : Bool) : Except Fault Layout :=
  let c := l.place
  let followed := stopsWord (c.peek 1)
  if c.head = '%' && c.column = 0 then l.readDirective
  else if c.column = 0 && c.atMark '-' then l.readDocumentMark .documentStart
  else if c.column = 0 && c.atMark '.' then l.readDocumentMark .documentEnd
  else match c.head with
    | '[' => l.openFlow .square .flowSequenceStart
    | '\x7b' => l.openFlow .curly .flowMappingStart
    | ']' => l.closeFlow .flowSequenceEnd
    | '\x7d' => l.closeFlow .flowMappingEnd
    | ',' => l.readComma
    | '*' => l.readPart fun c => (anchorName c).map fun (name, place) => (.alias name, place)
    | '&' => l.readPart fun c => (anchorName c).map fun (name, place) => (.anchor name, place)
    | '!' =>
      l.readPart fun c =>
        (tagName l.version.isNewer c).map fun (name, place) => (.tag name, place)
    | '\x27' | '\x22' => l.readPart quotedText
    | ch =>
      if ch = '-' && followed then l.readItem
      else if ch = '?' && (l.inFlow || followed) then l.readKey
      else if ch = ':' && l.beginsValue waiting then l.readValue
      else if (ch = '|' || ch = '>') && !l.inFlow then l.readBlock
      else if beginsPlain l.context c then l.readPlain
      else .error .malformed

/-- The state before the next token: what can be no key is dropped, white space is passed
over, and block collections are closed. -/
def approach (l : Layout) : Except Fault Layout := do
  let l ← l.skipOrderMark.skipBlank.dropStale
  pure (l.unwind l.place.column)

/-- The tokens that are certain: none at or after which a key may still begin. -/
def certain (l : Layout) : List Token :=
  l.tokens.toList.take (l.keys.foldl (fun least k => min least k.2.position) l.tokens.size)

/-- The tokens up to a fault, and the fault. -/
def stopAt (l : Layout) (fault : Fault) : List Token := l.certain ++ [.unreadable fault]

/-- The end of the text: all block collections are closed. -/
def finish (l : Layout) : List Token :=
  match (l.unwind (-1)).dropKey with
  | .ok last => last.tokens.toList
  | .error fault => l.stopAt fault

/-- All tokens from here on. -/
def readAll (l : Layout) : List Token :=
  match l.dropStale with
  | .error fault => l.stopAt fault
  | .ok fresh =>
    match fresh.approach with
    | .error fault => fresh.stopAt fault
    | .ok near =>
      if near.place.rest.isEmpty then near.finish
      else match near.readToken (!fresh.keys.isEmpty) with
        | .error fault => fresh.stopAt fault
        | .ok after =>
          if after.place.rest.length < l.place.rest.length then readAll after
          else fresh.stopAt .malformed
termination_by l.place.rest.length

end Layout

/-- The tokens of a text, up to its first fault. -/
def tokens (s : List Char) : List Token :=
  if s.all isReadable then Layout.readAll (.start s) else [.unreadable .malformed]

end EmbeddedExpr.Yaml
