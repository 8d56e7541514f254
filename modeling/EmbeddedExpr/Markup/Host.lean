/-
  EmbeddedExpr.Markup.Host
  ────────────────────────
  **WHERE EXPRESSIONS MAY STAND.**

  Expressions stand in runs of character data, comments included, and in attribute values.
  A run is as long as possible: it ends only at a token of another kind.
-/
import EmbeddedExpr.Markup.Lexer

namespace EmbeddedExpr.Markup

/-- What a host is. -/
inductive HostKind where
  /-- A run of character data and comments. -/
  | text
  /-- The value of the named attribute, in quotes or not. -/
  | attribute (name : List Char) (quoted : Bool)
  deriving DecidableEq, Repr

/-- The label of a host's kind in listings. -/
def HostKind.label : HostKind → String
  | .text => "text"
  | .attribute _ _ => "attribute"

/-- A part of a document in which expressions may stand. -/
structure Host where
  kind : HostKind
  start : Nat
  text : List Char
  deriving DecidableEq, Repr

namespace Host

/-- The offset just past the host. -/
def stop (h : Host) : Nat := h.start + h.text.length

/-- The name of the attribute whose value the host is. -/
def attribute? (h : Host) : Option (List Char) :=
  match h.kind with
  | .text => none
  | .attribute name _ => some name

/-- The host is a value that begins with a quote. -/
def isQuoted (h : Host) : Bool :=
  match h.kind with
  | .text => false
  | .attribute _ quoted => quoted

end Host

/-- The value begins with a quote. -/
def startsQuoted (s : List Char) : Bool :=
  match s with
  | c :: _ => c = '\x22' || c = '\x27'
  | [] => false

/-- The token belongs to a run of character data. -/
def Token.isData (t : Token) : Bool := t.kind = .text || t.kind = .comment

/-- The host that a token is by itself. -/
def Token.host? (t : Token) : Option Host :=
  match t.kind with
  | .attrValue => some ⟨.attribute (t.name.getD []) (startsQuoted t.text), t.start, t.text⟩
  | _ => none

/-- The hosts among tokens, in order. -/
def hosts (tokens : List Token) : List Host :=
  match tokens with
  | [] => []
  | t :: more =>
    if t.isData then
      ⟨.text, t.start, t.text ++ (more.takeWhile Token.isData).flatMap Token.text⟩ ::
        hosts (more.dropWhile Token.isData)
    else t.host?.toList ++ hosts more
termination_by tokens.length
decreasing_by
  · have := (List.dropWhile_suffix (l := more) Token.isData).length_le
    simp only [List.length_cons]
    omega
  · simp

end EmbeddedExpr.Markup
