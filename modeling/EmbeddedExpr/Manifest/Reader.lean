/-
  EmbeddedExpr.Manifest.Reader
  ────────────────────────────
  **MANIFESTS FROM TEXT.**

  A manifest is a mapping whose scalars are kept as they are written: a version number is a
  text.  Only null is told apart, and only in a text without quotes.  A manifest is often not
  well formed while it is being edited; it then gives no data.

  A text of a manifest may have half of a surrogate pair in it.  The replacement character is kept
  in its place.
-/
import EmbeddedExpr.Data.Basic
import EmbeddedExpr.Yaml.Document

namespace EmbeddedExpr.Manifest

/-- The contents of a manifest: the entries of its mapping, in order. -/
abbrev Info := List (Data × Data)

/-- The ways to write null. -/
def nulls : List String := ["", "~", "null", "Null", "NULL"]

/-- The value of a text. -/
def scalarData (style : Yaml.Style) (text : List Char) : Data :=
  let text := String.ofList text
  if style = .plain && nulls.contains text then .null else .str text

/-- The key that a value is: a sequence of scalars is one too. -/
def keyOf? (value : Data) : Option Data :=
  let key := match value with
    | .list items => .tuple items
    | other => other
  if key.isKey then some key else none

mutual
/-- The value of a node.  Keys are distinct. -/
def ofNode? : Yaml.Node → Option Data
  | .scalar _ _ style text => some (scalarData style text)
  | .sequence _ _ items => (ofNodes? items).map .list
  | .mapping _ _ entries => (ofEntries? [] entries).map .map
  | .enclosing _ => some .null
/-- The values of nodes. -/
def ofNodes? : List Yaml.Node → Option (List Data)
  | [] => some []
  | n :: more =>
    match ofNode? n, ofNodes? more with
    | some d, some ds => some (d :: ds)
    | _, _ => none
/-- The entries of a mapping; `before` holds the keys already seen. -/
def ofEntries? (before : List Data) : List Yaml.Entry → Option Info
  | [] => some []
  | (k, v) :: more =>
    match (ofNode? k).bind keyOf?, ofNode? v with
    | some key, some value =>
      if before.any fun b => b.same key then none
      else (ofEntries? (key :: before) more).map ((key, value) :: ·)
    | _, _ => none
end

/-- The contents of the manifest that a text spells, if it is a mapping. -/
def read? (s : List Char) : Option Info :=
  match Yaml.read? s with
  | .ok (some document) =>
    match ofNode? document.root with
    | some (.map entries) => some entries
    | _ => none
  | _ => none

end EmbeddedExpr.Manifest
