/-
  EmbeddedExpr.Delimiter.Syntax
  ─────────────────────────────
  **COMMENTS AND RESERVED PAIRS BY THE KIND OF A DOCUMENT.**

  The kind of a document is its file's suffix in lower case.  Template languages have
  comments besides those of the markup, and use delimiters of their own.
-/
import EmbeddedExpr.Delimiter.Basic
import EmbeddedExpr.Path
import EmbeddedExpr.Text.Case

namespace EmbeddedExpr

/-- What a kind of document uses for itself. -/
structure DocumentSyntax where
  comments : List Delimiters
  reserved : List Delimiters
  deriving DecidableEq, Repr

namespace DocumentSyntax

/-- The comment of markup. -/
def markupComment : Delimiters := ⟨"<!--", "-->"⟩

/-- Plain markup. -/
def markup : DocumentSyntax := ⟨[markupComment], []⟩

/-- Templates with block tags. -/
def blockTemplate : DocumentSyntax :=
  ⟨[markupComment, ⟨"\x7b#", "#\x7d"⟩], [Delimiters.standard, ⟨"\x7b%", "%\x7d"⟩]⟩

/-- Templates with long comments in double braces. -/
def braceTemplate : DocumentSyntax :=
  ⟨[markupComment, ⟨"\x7b\x7b!--", "--\x7d\x7d"⟩], [Delimiters.standard]⟩

/-- Templates with comments in double braces. -/
def plainTemplate : DocumentSyntax :=
  ⟨[markupComment, ⟨"\x7b\x7b!", "\x7d\x7d"⟩], [Delimiters.standard]⟩

/-- The syntax of documents whose file has the given extension. -/
def ofExtension (extension : String) : DocumentSyntax :=
  if ["jinja", "j2", "twig", "njk"].contains extension then blockTemplate
  else if ["hbs", "handlebars"].contains extension then braceTemplate
  else if extension = "mustache" then plainTemplate
  else markup

/-- The syntax of the documents in a file; plain markup when no file is given. -/
def ofFile (file : Option String) : DocumentSyntax :=
  match file with
  | none => markup
  | some name =>
    let suffix := Text.lower (Path.ofString name).suffix.toList
    ofExtension (String.ofList (suffix.dropWhile (· = '.')))

end DocumentSyntax

/-- Scanning a file's documents for the pair would be ambiguous. -/
def Delimiters.conflictsIn (d : Delimiters) (file : Option String) : Bool :=
  let documents := DocumentSyntax.ofFile file
  d.conflicts documents.comments documents.reserved

end EmbeddedExpr
