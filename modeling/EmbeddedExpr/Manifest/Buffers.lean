/-
  EmbeddedExpr.Manifest.Buffers
  ─────────────────────────────
  **DOCUMENTS THAT ARE NOT SAVED.**

  An open document stands before the file at its location.  Every update gives it a new
  number, greater than all before, so that a number stands for one text.
-/
import EmbeddedExpr.Text.Lines
import EmbeddedExpr.Text.Utf8
import EmbeddedExpr.Tree.Resolve

namespace EmbeddedExpr.Manifest

/-- What changes when a source does. -/
inductive Stamp where
  /-- The number of an open document's last update. -/
  | document (number : Nat)
  /-- The time of a file's last change, and its size. -/
  | file (modified : Int) (size : Nat)
  deriving DecidableEq, Repr

/-- Open documents by their locations. -/
structure Buffers where
  documents : List (Location × Nat × List Char)
  /-- The number of updates so far. -/
  counter : Nat
  deriving Repr

namespace Buffers

/-- No document is open. -/
def empty : Buffers := ⟨[], 0⟩

/-- The number and the text of the document at a location. -/
def document? (b : Buffers) (l : Location) : Option (Nat × List Char) := b.documents.lookup l

/-- The documents without the one at a location. -/
def close (b : Buffers) (l : Location) : Buffers :=
  { b with documents := b.documents.filter fun d => d.1 ≠ l }

/-- The document at a location has a new text. -/
def update (b : Buffers) (l : Location) (text : List Char) : Buffers :=
  ⟨(l, b.counter + 1, text) :: (b.close l).documents, b.counter + 1⟩

/-- The text of the document at a location. -/
def get? (b : Buffers) (l : Location) : Option (List Char) := (b.document? l).map (·.2)

/-- What a path names is open with a new text: the number of this update, and the documents
after it.  An update is counted also when its path leads through a loop of links. -/
def updateAt (b : Buffers) (tree : Entry) (path : List String) (text : List Char) :
    Except Tree.LinkLoop Nat × Buffers :=
  match Tree.resolve tree path with
  | .ok l => (.ok (b.counter + 1), b.update l text)
  | .error loop => (.error loop, { b with counter := b.counter + 1 })

/-- The documents without what a path names. -/
def closeAt (b : Buffers) (tree : Entry) (path : List String) : Except Tree.LinkLoop Buffers :=
  (Tree.resolve tree path).map b.close

end Buffers

/-! ## Files and documents. -/

/-- The stamp of what a path leads to.  A directory has one too. -/
def fileStamp (tree : Entry) (path : List String) : Option Stamp :=
  match Tree.access tree path with
  | .ok (_, .file octets modified) => some (.file modified octets.length)
  | .ok _ => some (.file 0 0)
  | .error _ => none

/-- Why a file's text cannot be had. -/
inductive TextFault where
  | file (fault : Tree.ReadFault)
  /-- The octets are not well-formed text. -/
  | notText
  deriving DecidableEq, Repr

/-- The text of the file that a path leads to. -/
def fileText (tree : Entry) (path : List String) : Except TextFault (List Char) :=
  match Tree.octets tree path with
  | .error fault => .error (.file fault)
  | .ok octets =>
    match Text.Utf8.decode? octets with
    | some text => .ok (Text.unifyBreaks text)
    | none => .error .notText

namespace Buffers

/-- The stamp of a path that names a location: of the document there, or of the file. -/
def stamp (b : Buffers) (tree : Entry) (path : List String) (l : Location) : Option Stamp :=
  match b.document? l with
  | some (number, _) => some (.document number)
  | none => fileStamp tree path

/-- The text of a path that names a location: of the document there, or of the file. -/
def text (b : Buffers) (tree : Entry) (path : List String) (l : Location) :
    Except TextFault (List Char) :=
  match b.document? l with
  | some (_, text) => .ok text
  | none => fileText tree path

/-- The stamp of what a path names. -/
def stampAt (b : Buffers) (tree : Entry) (path : List String) :
    Except Tree.LinkLoop (Option Stamp) :=
  (Tree.resolve tree path).map fun l => b.stamp tree path l

/-- The text of what a path names. -/
def textAt (b : Buffers) (tree : Entry) (path : List String) :
    Except Tree.LinkLoop (Except TextFault (List Char)) :=
  (Tree.resolve tree path).map fun l => b.text tree path l

end Buffers

end EmbeddedExpr.Manifest
