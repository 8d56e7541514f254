/-
  EmbeddedExpr.Markup.Token
  ─────────────────────────
  **THE TOKENS OF A MARKUP DOCUMENT.**

  A document is cut into pieces that make it up without a rest: tokens, and gaps that belong
  to no token (white space, equals signs and stray characters inside a tag).  `place` gives
  the tokens their offsets.
-/
import EmbeddedExpr.Text.Quoted

namespace EmbeddedExpr.Markup

/-! ## §1. Kinds and tokens. -/

/-- What a token is. -/
inductive Kind where
  /-- Character data. -/
  | text
  /-- The contents of a script or style element. -/
  | rawText
  /-- A comment with its marks. -/
  | comment
  /-- A character data section. -/
  | cdata
  /-- A declaration. -/
  | doctype
  /-- A processing instruction. -/
  | instruction
  /-- The opening angle bracket of a tag and the tag's name. -/
  | tagStart
  /-- The end of a tag. -/
  | tagEnd
  /-- The name of an attribute. -/
  | attrName
  /-- The value of an attribute with its quotes. -/
  | attrValue
  deriving DecidableEq, Repr

/-- The label of a kind in listings. -/
def Kind.label : Kind → String
  | .text => "TEXT"
  | .rawText => "RAW_TEXT"
  | .comment => "COMMENT"
  | .cdata => "CDATA"
  | .doctype => "DOCTYPE"
  | .instruction => "PI"
  | .tagStart => "TAG_START"
  | .tagEnd => "TAG_END"
  | .attrName => "ATTR_NAME"
  | .attrValue => "ATTR_VALUE"

/-- A token at its place in the document.  `name` is the tag's name in lower case for the
start of a tag, and the attribute's name as written for both parts of an attribute. -/
structure Token where
  kind : Kind
  start : Nat
  stop : Nat
  text : List Char
  name : Option (List Char)
  deriving DecidableEq, Repr

/-- The written form of a token. -/
def Token.render (t : Token) : String :=
  s!"MarkupToken({t.kind.label}, {String.ofList (Text.quoted t.text)}, {t.start}:{t.stop})"

/-! ## §2. Pieces and their places. -/

/-- A part of a document: a token, or characters that belong to none. -/
inductive Piece where
  | token (kind : Kind) (text : List Char) (name : Option (List Char))
  | gap (text : List Char)
  deriving DecidableEq, Repr

/-- The characters of a piece. -/
def Piece.text : Piece → List Char
  | .token _ text _ => text
  | .gap text => text

/-- The tokens among pieces that begin at `offset`. -/
def place (offset : Nat) : List Piece → List Token
  | [] => []
  | .gap text :: more => place (offset + text.length) more
  | .token kind text name :: more =>
    ⟨kind, offset, offset + text.length, text, name⟩ :: place (offset + text.length) more

end EmbeddedExpr.Markup
