/-
  EmbeddedExpr.Command.Report
  ───────────────────────────
  **WHAT COMMANDS REPORT.**

  A report is one mapping in JSON.
-/
import EmbeddedExpr.Injection
import EmbeddedExpr.Json.Writer
import EmbeddedExpr.Manifest.Roots

namespace EmbeddedExpr.Command

/-- A mapping with named fields. -/
def fields (all : List (String × Data)) : Data := .map (all.map fun f => (.str f.1, f.2))

/-- A text, or null. -/
def textOrNull : Option String → Data
  | some s => .str s
  | none => .null

/-- One expression of a document. -/
def expressionReport (i : Injection) : Data :=
  fields [
    ("kind", .str i.host.kind.label),
    ("attribute", textOrNull (i.host.attribute?.map String.ofList)),
    ("start", .int i.absolute.start),
    ("end", .int i.absolute.stop),
    ("text", .str (String.ofList i.text))]

/-- The expressions of a document. -/
def scanReport (file language : String) (found : List Injection) : Data :=
  fields [("file", .str file), ("language", .str language),
    ("injections", .list (found.map expressionReport))]

/-- The manifest of a file with its name, and the package roots. -/
def manifestReport (roots : Manifest.Roots) (name : Option String) : Data :=
  fields [("manifest", textOrNull (roots.manifest.map Location.render)),
    ("name", textOrNull name),
    ("package_roots", .list (roots.packages.map fun l => .str l.render))]

/-- The attributes of a registry. -/
def attributesReport (names : List String) : Data :=
  fields [("attributes", .list (names.map .str))]

end EmbeddedExpr.Command
