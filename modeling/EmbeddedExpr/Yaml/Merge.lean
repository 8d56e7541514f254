/-
  EmbeddedExpr.Yaml.Merge
  ───────────────────────
  **MAPPINGS THAT TAKE IN OTHERS.**

  An entry under the mark for merging stands for the entries of the mapping, or of the
  mappings, that it names.  They come before the mapping's own entries, so that its own hold;
  of several mappings the first one holds.  A mapping that takes in itself has its other
  entries twice.
-/
import EmbeddedExpr.Yaml.Progress

namespace EmbeddedExpr.Yaml

/-- How the mapping at a place, with the entries that it has in the document, is merged. -/
abbrev Merging := Nat → List Entry → Progress → Except Fault Progress

/-- The entries of a node that is a mapping, which is merged first. -/
def takeOne (d : Document) (merging : Merging) (p : Progress) (n : Node) :
    Except Fault (List Entry × Progress) :=
  match d.node n with
  | .mapping place _ own => do
    let p ← merging place own p
    pure (p.entriesAt place own, p)
  | _ => .error .malformed

/-- The entries of several nodes that are mappings, the last one first. -/
def takeAll (d : Document) (merging : Merging) (p : Progress) :
    List Node → Except Fault (List Entry × Progress)
  | [] => .ok ([], p)
  | n :: more => do
    let (found, p) ← takeOne d merging p n
    let (others, p) ← takeAll d merging p more
    pure (others ++ found, p)

/-- The entries that a node under the mark for merging stands for. -/
def taken (d : Document) (merging : Merging) (p : Progress) (n : Node) :
    Except Fault (List Entry × Progress) :=
  match d.node n with
  | .sequence _ _ items => takeAll d merging p items
  | n => takeOne d merging p n

/-- The mapping at a place merged from an entry on.  The entries before it are `kept`, the last
one first, and those taken in are `found`.  Nothing is taken in after entries have been.  If the
mapping was merged while it took in itself, nothing more is left to do. -/
def mergeFrom (d : Document) (merging : Merging) (place : Nat) (found kept : List Entry) :
    List Entry → Progress → Except Fault Progress
  | [], p => .ok (p.setMerged place found kept.reverse)
  | (key, value) :: more, p =>
    let tag := p.tagOf d.older key
    if tag = coreTag "merge" then
      if found.isEmpty then do
        let others := kept.reverse ++ more
        let (found, p) ← taken d merging (p.setEntries place others) value
        if p.isMerged place then pure (p.setMerged place found (p.entriesAt place others))
        else mergeFrom d merging place found kept more p
      else .error .malformed
    else
      let p := if tag = coreTag "value" then { p with texts := key.place :: p.texts } else p
      mergeFrom d merging place found ((key, value) :: kept) more p

/-- The mapping at a place merged.  Mappings take in one another no deeper than `fuel`. -/
def merge (d : Document) (fuel : Nat) : Merging := fun place own p =>
  match fuel with
  | 0 => .error .malformed
  | fuel + 1 =>
    if p.isMerged place then .ok p
    else mergeFrom d (merge d fuel) place [] [] (p.entriesAt place own) p

end EmbeddedExpr.Yaml
