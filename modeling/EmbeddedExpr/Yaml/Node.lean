/-
  EmbeddedExpr.Yaml.Node
  ──────────────────────
  **THE NODES OF A YAML DOCUMENT.**

  A document is a tree of texts, sequences and mappings.  Every node has a place: the number of
  tokens from its start to the end of the text, so that no two nodes share one.  An alias is
  the node that it names; one inside the node that it names is only the name of its place.
-/
import EmbeddedExpr.Yaml.Token

namespace EmbeddedExpr.Yaml

/-- A node of a document.  A tag is there only if the document gives one. -/
inductive Node where
  | scalar (place : Nat) (tag : Option (List Char)) (style : Style) (text : List Char)
  | sequence (place : Nat) (tag : Option (List Char)) (items : List Node)
  | mapping (place : Nat) (tag : Option (List Char)) (entries : List (Node × Node))
  /-- An alias of the node around it that has this place. -/
  | enclosing (place : Nat)
  deriving Repr, Inhabited

/-- A key and its value. -/
abbrev Entry := Node × Node

/-- The beginning of the tags that every reader knows. -/
def tagRoot : String := "tag:yaml.org,2002:"

/-- A tag that every reader knows. -/
def coreTag (word : String) : List Char := (tagRoot ++ word).toList

namespace Node

/-- An empty text without a tag, where no node is written. -/
def empty : Node := .scalar 0 none .plain []

/-- The place of a node. -/
def place : Node → Nat
  | .scalar place _ _ _ => place
  | .sequence place _ _ => place
  | .mapping place _ _ => place
  | .enclosing place => place

/-- The node is a text. -/
def isScalar : Node → Bool
  | .scalar .. => true
  | _ => false

end Node

/-- A document. -/
structure Document where
  root : Node
  /-- The nodes that have names, by their places. -/
  named : List (Nat × Node)
  /-- The older version of the language is in force. -/
  older : Bool

/-- The node itself: for the name of a place, the node there. -/
def Document.node (d : Document) : Node → Node
  | .enclosing place => (d.named.lookup place).getD .empty
  | n => n

end EmbeddedExpr.Yaml
