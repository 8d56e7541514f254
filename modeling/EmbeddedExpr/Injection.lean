/-
  EmbeddedExpr.Injection
  ──────────────────────
  **THE EXPRESSIONS OF A DOCUMENT.**

  The value of an expression attribute is an expression as a whole, without its quotes.  In
  every other host expressions stand between delimiters; a delimiter inside a comment does not
  count.  Nothing is scanned for when the delimiters conflict with the document's own syntax.
-/
import EmbeddedExpr.Attribute.Registry
import EmbeddedExpr.Delimiter.Syntax
import EmbeddedExpr.Markup.Host
import EmbeddedExpr.Markup.Lookup
import EmbeddedExpr.Scan

namespace EmbeddedExpr

/-- An expression in a host; its region counts from the start of the host. -/
structure Injection where
  host : Markup.Host
  region : Region
  language : String
  deriving DecidableEq, Repr

namespace Injection

/-- The expression's region in the document. -/
def absolute (i : Injection) : Region := i.region.shift i.host.start

/-- The expression. -/
def text (i : Injection) : List Char := i.region.substring i.host.text

end Injection

/-- How expressions are looked for. -/
structure Injector where
  registry : Attribute.Registry
  delimiters : Delimiters
  language : String

namespace Injector

/-- The host is an expression as a whole.  A lone quote is none. -/
def isWhole (j : Injector) (h : Markup.Host) : Bool :=
  match h.kind with
  | .text => false
  | .attribute name quoted =>
    j.registry.isExpression name && (!quoted || 1 < h.text.length)

/-- The expression that a host is as a whole.  A quote that is not closed has no end. -/
def wholeRegions (h : Markup.Host) : List Region :=
  if !h.isQuoted then [⟨0, h.text.length⟩]
  else if h.text.getLast? ≠ h.text.head? then [⟨1, h.text.length⟩]
  else Scan.quotedValue h.text

/-- The delimited expressions of a host. -/
def scannedRegions (j : Injector) (tokens : Array Markup.Token) (h : Markup.Host) :
    List Region :=
  Scan.regions j.delimiters.opening.toList j.delimiters.closing.toList
    (fun offset => Markup.isComment tokens (h.start + offset : Nat)) h.text

/-- The regions of a host's expressions. -/
def regions (j : Injector) (scans : Bool) (tokens : Array Markup.Token) (h : Markup.Host) :
    List Region :=
  (if j.isWhole h then wholeRegions h
    else if scans then j.scannedRegions tokens h else []).filter fun r => !r.isEmpty

/-- The expressions of a document in a file, in order. -/
def injections (j : Injector) (s : List Char) (file : Option String) : List Injection :=
  let tokens := Markup.tokens s
  let scans := !j.delimiters.conflictsIn file
  (Markup.hosts tokens).flatMap fun h =>
    (j.regions scans tokens.toArray h).map fun r => ⟨h, r, j.language⟩

end Injector

end EmbeddedExpr
