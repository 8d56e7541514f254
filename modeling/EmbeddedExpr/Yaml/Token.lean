/-
  EmbeddedExpr.Yaml.Token
  ───────────────────────
  **THE TOKENS OF A YAML TEXT.**

  Besides what is written, tokens say where indented collections begin and end, and which
  texts are keys.
-/
namespace EmbeddedExpr.Yaml

/-- Why a text cannot be read. -/
inductive Fault where
  /-- The text is not well formed, or holds what its reader does not know. -/
  | malformed
  /-- A number, date or character that does not exist. -/
  | badValue
  /-- A number, time or character beyond all that can be told. -/
  | outOfRange
  /-- A number without characters. -/
  | noCharacters
  /-- A word that is no truth value. -/
  | unknownWord
  /-- A text without a tag in a version that does not say what it is. -/
  | unknownVersion
  /-- A key that holds a collection. -/
  | badKey
  /-- A key that comes twice in a sequence of entries. -/
  | repeatedEntry
  /-- A text that is defined by itself. -/
  | endless
  deriving DecidableEq, Repr

/-- How a text is written. -/
inductive Style where
  | plain
  | quoted
  /-- In quotes, with half of a surrogate pair in it. -/
  | unpaired
  | block
  deriving DecidableEq, Repr

/-- A tag as written: a handle and the rest, or the whole tag when there is no handle. -/
structure TagName where
  handle : Option (List Char)
  suffix : List Char
  deriving DecidableEq, Repr

/-- A version of the language. -/
structure Version where
  major : Nat
  minor : Nat
  deriving DecidableEq, Repr

namespace Version

/-- The version of a document that names none. -/
def usual : Version := ⟨1, 2⟩

/-- The version before the usual one. -/
def isOlder (v : Version) : Bool := v = ⟨1, 1⟩

/-- A version after the older one. -/
def isNewer (v : Version) : Bool := 1 < v.major || (v.major = 1 && 1 < v.minor)

/-- A version that says what texts without tags are. -/
def isKnown (v : Version) : Bool := v = usual || v.isOlder

end Version

/-- A directive at the head of a document. -/
inductive Directive where
  | version (v : Version)
  | tag (handle replacement : List Char)
  | other
  deriving DecidableEq, Repr

/-- A token. -/
inductive Token where
  | directive (d : Directive)
  | documentStart
  | documentEnd
  | blockSequenceStart
  | blockMappingStart
  | blockEnd
  | flowSequenceStart
  | flowSequenceEnd
  | flowMappingStart
  | flowMappingEnd
  | flowEntry
  | blockEntry
  | key
  | value
  | alias (name : List Char)
  | anchor (name : List Char)
  | tag (name : TagName)
  | scalar (style : Style) (text : List Char)
  /-- From here on the text cannot be read. -/
  | unreadable (fault : Fault)
  deriving DecidableEq, Repr

end EmbeddedExpr.Yaml
