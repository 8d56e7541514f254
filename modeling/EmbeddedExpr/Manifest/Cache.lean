/-
  EmbeddedExpr.Manifest.Cache
  ───────────────────────────
  **VALUES KEPT UNDER STAMPS.**

  A value is kept together with the stamp of the source it was made from, and served only
  while the source has that stamp.  Otherwise it is dropped before the source is read again,
  so that a failed reading leaves nothing behind.
-/
namespace EmbeddedExpr.Manifest

/-- Values of type `ι` under keys of type `κ`, each with a stamp of type `σ`. -/
structure Cache (κ σ ι : Type) where
  entries : List (κ × σ × ι)

namespace Cache

variable {κ σ ι τ : Type} [DecidableEq κ] [DecidableEq σ]

/-- Nothing is kept. -/
def empty : Cache κ σ ι := ⟨[]⟩

/-- The number of values kept. -/
def size (c : Cache κ σ ι) : Nat := c.entries.length

/-- The cache is taken by one that it is given to: values are kept in it. -/
def isTaken (c : Cache κ σ ι) : Bool := c.size ≠ 0

/-- The value kept under a key, with its stamp. -/
def find? (c : Cache κ σ ι) (key : κ) : Option (σ × ι) := c.entries.lookup key

/-- A value is kept under the key. -/
def contains (c : Cache κ σ ι) (key : κ) : Bool := (c.find? key).isSome

/-- Nothing is kept under the key. -/
def invalidate (c : Cache κ σ ι) (key : κ) : Cache κ σ ι :=
  ⟨c.entries.filter fun e => e.1 ≠ key⟩

/-- A value is kept under the key, and no other. -/
def insert (c : Cache κ σ ι) (key : κ) (stamp : σ) (value : ι) : Cache κ σ ι :=
  ⟨(c.invalidate key).entries ++ [(key, stamp, value)]⟩

/-- What asking for a value gives. -/
structure Answer (κ σ ι : Type) where
  value : Option ι
  /-- The source was read. -/
  didRead : Bool
  cache : Cache κ σ ι

/-- The value made from a source that has been read. -/
def refill (c : Cache κ σ ι) (key : κ) (stamp : σ) : Option ι → Answer κ σ ι
  | some value => ⟨some value, true, c.insert key stamp value⟩
  | none => ⟨none, true, c⟩

/-- Asks for the value under a key whose source has the given stamp; a source without a stamp
does not exist.  `text` is what reading the source gives, if it can be read, and `make` makes
a value from it. -/
def get (c : Cache κ σ ι) (key : κ) (stamp : Option σ) (text : Option τ) (make : τ → Option ι) :
    Answer κ σ ι :=
  match stamp with
  | none => ⟨none, false, c.invalidate key⟩
  | some current =>
    match c.find? key with
    | some (kept, value) =>
      if kept = current then ⟨some value, false, c⟩
      else (c.invalidate key).refill key current (text.bind make)
    | none => (c.invalidate key).refill key current (text.bind make)

end Cache

end EmbeddedExpr.Manifest
