/-
  EmbeddedExpr.Yaml.Property
  ──────────────────────────
  **ANCHORS, TAGS AND DIRECTIVES.**

  What is said about a node before its contents, and about a document before its start.
-/
import EmbeddedExpr.Text.Utf8
import EmbeddedExpr.Text.Digits
import EmbeddedExpr.Yaml.Cursor
import EmbeddedExpr.Yaml.Token

namespace EmbeddedExpr.Yaml

/-! ## §1. Anchors. -/

/-- The name after the mark of an anchor or an alias, and the place after it. -/
def anchorName (c : Cursor) : Except Fault (List Char × Cursor) :=
  let (name, place) := c.next.takeWhile isAnchorChar
  let follows := stopsWord place.head || isFlowMark place.head
  if name.isEmpty || !follows then .error .malformed else .ok (name, place)

/-! ## §2. Tags. -/

/-- Octets in hexadecimal digits, each after a percent sign, and the place after them. -/
def percentOctets (c : Cursor) : Except Fault (List UInt8 × Cursor) :=
  if c.head = '%' then
    let digits := c.next.rest.take 2
    match Text.number? 16 digits with
    | some octet =>
      let after := c.next.advance 2
      if digits.length < 2 then .error .malformed
      else if after.rest.length < c.rest.length then do
        let (more, place) ← percentOctets after
        pure (UInt8.ofNat octet :: more, place)
      else .error .malformed
    | none => .error .malformed
  else .ok ([], c)
termination_by c.rest.length

/-- The characters of a tag that stand here, with the escaped ones among them, and the place
after them. -/
def tagChars (numberSign : Bool) (c : Cursor) : Except Fault (List Char × Cursor) :=
  let (plain, place) := c.takeWhile (isTagChar numberSign)
  if place.head = '%' then do
    let (octets, after) ← percentOctets place
    let escaped ← match Text.Utf8.decode? octets with
      | some escaped => pure escaped
      | none => .error .malformed
    if after.rest.length < c.rest.length then
      let (more, last) ← tagChars numberSign after
      pure (plain ++ escaped ++ more, last)
    else .error .malformed
  else .ok (plain, place)
termination_by c.rest.length

/-- A tag or the start of one: at least one character. -/
def tagText (numberSign : Bool) (c : Cursor) : Except Fault (List Char × Cursor) :=
  if isTagChar numberSign c.head || c.head = '%' then tagChars numberSign c
  else .error .malformed

/-- A handle: an exclamation mark, or a name between two of them. -/
def tagHandle (c : Cursor) : Except Fault (List Char × Cursor) :=
  if c.head ≠ '!' then .error .malformed
  else if c.peek 1 = ' ' then .ok (['!'], c.next)
  else
    let (name, place) := c.next.takeWhile isNameChar
    if place.head = '!' then .ok ('!' :: name ++ ['!'], place.next) else .error .malformed

/-- The tag up to the next blank or break has a second exclamation mark. -/
def hasHandle (c : Cursor) : Bool :=
  (c.next.rest.takeWhile fun ch => !stopsProperty ch).contains '!'

/-- The tag that the exclamation mark here begins, and the place after it.  Without a handle of
its own it has the `usual` one. -/
def tagAfter (numberSign : Bool) (usual : List Char) (c : Cursor) :
    Except Fault (TagName × Cursor) :=
  if c.peek 1 = '<' then do
    let (whole, place) ← tagText numberSign (c.advance 2)
    if place.head = '>' then pure (⟨none, whole⟩, place.next) else .error .malformed
  else if stopsWord (c.peek 1) then .ok (⟨none, usual⟩, c.next)
  else if hasHandle c then do
    let (handle, place) ← tagHandle c
    let (suffix, place) ← tagText numberSign place
    pure (⟨some handle, suffix⟩, place)
  else do
    let (suffix, place) ← tagText numberSign c.next
    pure (⟨some usual, suffix⟩, place)

/-- The tag here, and the place after it.  Of two exclamation marks at its head the second one
begins it. -/
def tagName (numberSign : Bool) (c : Cursor) : Except Fault (TagName × Cursor) := do
  let (name, place) ←
    if c.peek 1 = '!' then tagAfter numberSign ['!', '!'] c.next
    else tagAfter numberSign ['!'] c
  if stopsProperty place.head then pure (name, place) else .error .malformed

/-! ## §3. Directives. -/

/-- A character of a directive's name. -/
def isDirectiveChar (c : Char) : Bool := isNameChar c || c = ':' || c = '.'

/-- A number in a directive. -/
def versionNumber (c : Cursor) : Except Fault (Nat × Cursor) :=
  let (digits, place) := c.takeWhile Char.isDigit
  if digits.isEmpty then .error .malformed else .ok (Text.decimal digits, place)

/-- The version that a directive names. -/
def versionDirective (c : Cursor) : Except Fault (Directive × Cursor) := do
  let (major, point) ← versionNumber (c.skipWhile (· = ' '))
  if point.head ≠ '.' then .error .malformed
  let (minor, place) ← versionNumber point.next
  if stopsProperty place.head then pure (.version ⟨major, minor⟩, place) else .error .malformed

/-- The handle that a directive defines, and what it stands for. -/
def tagDirective (numberSign : Bool) (c : Cursor) : Except Fault (Directive × Cursor) := do
  let (handle, place) ← tagHandle (c.skipWhile (· = ' '))
  if place.head ≠ ' ' then .error .malformed
  let (replacement, place) ← tagText numberSign (place.skipWhile (· = ' '))
  if stopsProperty place.head then pure (.tag handle replacement, place)
  else .error .malformed

/-- The directive here, and the place after its line. -/
def directive (numberSign : Bool) (c : Cursor) : Except Fault (Directive × Cursor) := do
  let (name, place) := c.next.takeWhile isDirectiveChar
  if name.isEmpty || !stopsProperty place.head then .error .malformed
  let (found, place) ←
    if name = "YAML".toList then versionDirective place
    else if name = "TAG".toList then tagDirective numberSign place
    else pure (.other, place.skipWhile fun ch => !stopsLine ch)
  let place := (place.skipWhile (· = ' ')).skipComment
  if stopsLine place.head then pure (found, place.lineBreak.2) else .error .malformed

end EmbeddedExpr.Yaml
