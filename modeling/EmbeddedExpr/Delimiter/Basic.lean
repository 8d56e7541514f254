/-
  EmbeddedExpr.Delimiter.Basic
  ────────────────────────────
  **PAIRS OF DELIMITERS AND THEIR CONFLICTS.**

  An expression stands between an opening and a closing marker.  A pair conflicts with a
  document when scanning for it would be ambiguous: a marker is empty, one begins with the
  other, one overlaps the document's comment marks, or the document's own template language
  uses the pair.
-/
import EmbeddedExpr.Text.Search

namespace EmbeddedExpr

/-- An opening and a closing text. -/
structure Delimiters where
  opening : String
  closing : String
  deriving DecidableEq, Repr

namespace Delimiters

/-- The pair that a project uses unless its settings say otherwise. -/
def standard : Delimiters := ⟨"\x7b\x7b", "\x7d\x7d"⟩

/-- Both markers have characters; otherwise nothing is scanned for. -/
def isEnabled (d : Delimiters) : Bool := !d.opening.isEmpty && !d.closing.isEmpty

/-- One text is a part of the other. -/
def overlaps (a b : String) : Bool :=
  Text.hasPart a.toList b.toList || Text.hasPart b.toList a.toList

/-- One text begins with the other. -/
def nested (a b : String) : Bool :=
  a.toList.isPrefixOf b.toList || b.toList.isPrefixOf a.toList

/-- A marker of the pair overlaps a mark of the comment. -/
def meetsComment (d comment : Delimiters) : Bool :=
  overlaps d.opening comment.opening || overlaps d.opening comment.closing
    || overlaps d.closing comment.opening || overlaps d.closing comment.closing

/-- Scanning for the pair would be ambiguous in a document with these comments and these
pairs of its own. -/
def conflicts (d : Delimiters) (comments reserved : List Delimiters) : Bool :=
  !d.isEnabled || nested d.opening d.closing || comments.any d.meetsComment
    || reserved.contains d

end Delimiters

end EmbeddedExpr
