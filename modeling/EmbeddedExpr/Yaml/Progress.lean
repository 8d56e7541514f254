/-
  EmbeddedExpr.Yaml.Progress
  ──────────────────────────
  **WHAT HAS BEEN BUILT OF A DOCUMENT.**

  Values are built collection by collection.  A collection is known by its place from the
  moment it is begun, so that it can stand inside itself; its contents come later.  Merging
  changes the entries of mappings and the tags of some keys.
-/
import EmbeddedExpr.Data.Basic
import EmbeddedExpr.Yaml.Schema

namespace EmbeddedExpr.Yaml

/-- What has been built of a document, and what merging has changed in it. -/
structure Progress where
  /-- The entries of mappings that are no longer those of the document, by their places. -/
  entries : List (Nat × List Entry)
  /-- The entries that mappings have taken in.  A mapping that is here is merged. -/
  taken : List (Nat × List Entry)
  /-- The places of marks for a default value that stand as keys: they are texts. -/
  texts : List Nat
  /-- The collections, with their contents as far as they are built, and the scalars that are
  not texts in the document. -/
  shares : Data.Shares
  /-- The places of collections in keys that are being built; they have no value yet. -/
  opened : List Nat
  /-- The collections whose contents are still to be built, the last one first. -/
  waiting : List Node

namespace Progress

/-- Nothing has been built. -/
def start : Progress := ⟨[], [], [], [], [], []⟩

/-- The entries of the mapping at a place, which were `own` in the document. -/
def entriesAt (p : Progress) (place : Nat) (own : List Entry) : List Entry :=
  (p.entries.lookup place).getD own

/-- The progress with other entries of the mapping at a place. -/
def setEntries (p : Progress) (place : Nat) (entries : List Entry) : Progress :=
  { p with entries := (place, entries) :: p.entries }

/-- The mapping at a place is merged. -/
def isMerged (p : Progress) (place : Nat) : Bool := (p.taken.lookup place).isSome

/-- The progress with a mapping merged: the entries taken in stand before its own. -/
def setMerged (p : Progress) (place : Nat) (taken own : List Entry) : Progress :=
  if taken.isEmpty && p.isMerged place then p
  else { p.setEntries place (taken ++ own) with taken := (place, taken) :: p.taken }

/-- The value of the node at a place, if it has been begun. -/
def valueAt? (p : Progress) (place : Nat) : Option Data :=
  (p.shares.lookup place).map fun contents =>
    if contents.isCollection then .shared place else contents

/-- The progress with the contents of the node at a place. -/
def setContents (p : Progress) (place : Nat) (contents : Data) : Progress :=
  { p with shares := (place, contents) :: p.shares }

/-- The tag of a node: the one given, or that of its kind. -/
def tagOf (p : Progress) (older : Bool) (n : Node) : List Char :=
  if p.texts.contains n.place then coreTag "str"
  else match n with
    | .scalar _ tag _ text => scalarTag older tag text
    | .sequence _ tag _ => tag.getD (coreTag "seq")
    | .mapping _ tag _ => tag.getD (coreTag "map")
    | .enclosing _ => coreTag "null"

end Progress

end EmbeddedExpr.Yaml
