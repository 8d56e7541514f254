/-
  EmbeddedExpr.Manifest.Store
  ───────────────────────────
  **MANIFESTS BY LOCATION.**

  A store keeps the manifests that have been read, under the stamps of their sources, and
  knows the documents that are open.
-/
import EmbeddedExpr.Manifest.Buffers
import EmbeddedExpr.Manifest.Cache
import EmbeddedExpr.Manifest.Reader

namespace EmbeddedExpr.Manifest

/-- The manifests kept, and the open documents. -/
structure Store where
  cache : Cache Location Stamp Info
  buffers : Buffers

namespace Store

/-- Nothing is kept and no document is open. -/
def empty : Store := ⟨.empty, .empty⟩

/-- Asks for the manifest at a path. -/
def get (s : Store) (tree : Entry) (path : List String) :
    Except Tree.LinkLoop (Option Info × Bool × Store) := do
  let l ← Tree.resolve tree path
  let text := (s.buffers.text tree path l).toOption
  let answer := s.cache.get l (s.buffers.stamp tree path l) text read?
  pure (answer.value, answer.didRead, { s with cache := answer.cache })

/-- The store that a resolver works on: the one given, if its cache is taken, and a new one
otherwise. -/
def forResolver (given : Option Store) : Store :=
  match given with
  | some s => if s.cache.isTaken then s else empty
  | none => empty

/-- The name that a manifest gives, if it is a text. -/
def nameOf? (info : Info) : Option String :=
  match Data.field? "name" info with
  | some (.str name) => some name
  | _ => none

/-- The name that the manifest at a path gives. -/
def nameAt (s : Store) (tree : Entry) (path : List String) :
    Except Tree.LinkLoop (Option String × Store) := do
  let (info, _, s) ← s.get tree path
  pure (info.bind nameOf?, s)

end Store

end EmbeddedExpr.Manifest
