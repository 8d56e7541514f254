/-
  EmbeddedExpr.Yaml.Value
  ───────────────────────
  **THE VALUES OF A YAML DOCUMENT.**

  Each node is read by its tag.  A collection is begun where it stands, and its contents are
  built when all that was begun before it is built, so that of several faults the one nearest
  to the root is found first.  A key is built at once, with all that is in it, and nothing
  stands there for a collection that is not finished.
-/
import EmbeddedExpr.Data.Print
import EmbeddedExpr.Yaml.Document
import EmbeddedExpr.Yaml.Merge
import EmbeddedExpr.Yaml.Scalar

namespace EmbeddedExpr.Yaml

/-! ## §1. Kinds of values. -/

/-- The kinds of collections. -/
inductive Shape where
  | list
  | map
  | set
  /-- A mapping given as a sequence of entries. -/
  | ordered
  /-- A list of entries. -/
  | pairs
  deriving DecidableEq, Repr

/-- The kind of collection that a tag asks for. -/
def shape? (tag : List Char) : Option Shape :=
  if tag = coreTag "seq" then some .list
  else if tag = coreTag "map" then some .map
  else if tag = coreTag "set" then some .set
  else if tag = coreTag "omap" then some .ordered
  else if tag = coreTag "pairs" then some .pairs
  else none

/-- A collection without contents. -/
def Shape.empty : Shape → Data
  | .list | .pairs => .list []
  | .map => .map []
  | .set => .set []
  | .ordered => .ordered []

/-- The text of a value, which has no gaps: of half a surrogate pair no path can be made. -/
def wholeText (style : Style) (text : List Char) : Except Fault (List Char) :=
  if style = .unpaired then .error .badValue else .ok text

/-- The text of a node that is read as one.  A mapping has the text of its default value; a
default value that is its own never ends. -/
def textOf (d : Document) (p : Progress) (fuel : Nat) (n : Node) : Except Fault (List Char) :=
  match fuel with
  | 0 => .error .endless
  | fuel + 1 =>
    match d.node n with
    | .scalar _ _ style text => wholeText style text
    | .mapping place _ own =>
      match (p.entriesAt place own).find? fun e => p.tagOf d.older e.1 = coreTag "value" with
      | some (_, value) => textOf d p fuel value
      | none => .error .malformed
    | _ => .error .malformed

/-- The value of a node with a tag that asks for no collection.  Only a text is a time. -/
def scalarAt (d : Document) (p : Progress) (fuel : Nat) (tag : List Char) (n : Node) :
    Except Fault Data :=
  match n with
  | .scalar place _ style text => do scalarOf d.older place tag (← wholeText style text)
  | n =>
    if tag = coreTag "timestamp" then .error .malformed
    else do scalarOf d.older n.place tag (← textOf d p fuel n)

/-! ## §2. Contents. -/

/-- How a node is built; `whole` asks for all that is in it. -/
abbrev Building := Bool → Node → Progress → Except Fault (Data × Progress)

/-- The values of nodes. -/
def buildAll (build : Building) (whole : Bool) (p : Progress) :
    List Node → Except Fault (List Data × Progress)
  | [] => .ok ([], p)
  | n :: more => do
    let (value, p) ← build whole n p
    let (values, p) ← buildAll build whole p more
    pure (value :: values, p)

/-- The key that a value is: a list is one by its items, other collections are none. -/
def keyOf? (shares : Data.Shares) (value : Data) : Option Data :=
  match value.view shares with
  | .list items => some (.tuple items)
  | .map _ | .set _ | .ordered _ => none
  | _ => some value

/-- Why a key cannot be entered a second time: the fault tells of the key and of both values,
and a number among them may be too long for that. -/
def repeatedFault (shares : Data.Shares) (key value original : Data) : Fault :=
  if [key, value, original].all fun d => (d.display? shares).isSome then .malformed else .badValue

/-- The entries of a mapping, entered after those `before` them.  Keys may come twice only if
entries were taken in. -/
def enterAll (build : Building) (whole distinct : Bool) (before : List (Data × Data))
    (p : Progress) : List Entry → Except Fault (List (Data × Data) × Progress)
  | [] => .ok (before, p)
  | (k, v) :: more => do
    let (key, p) ← build true k p
    match keyOf? p.shares key with
    | none => .error .malformed
    | some key =>
      let (value, p) ← build whole v p
      if !key.isKey then .error .badKey
      else match distinct, Data.lookup key before with
        | true, some original => .error (repeatedFault p.shares key value original)
        | _, _ => enterAll build whole distinct (Data.insert key value before) p more

/-- The entries of the mapping at a place. -/
def mappingAt (merging : Merging) (build : Building) (whole : Bool) (place : Nat)
    (own : List Entry) (p : Progress) : Except Fault (List (Data × Data) × Progress) := do
  let p ← merging place own p
  let entries := p.entriesAt place own
  match (p.taken.lookup place).getD [] with
  | [] => enterAll build whole true [] p entries
  | taken =>
    let (before, p) ← enterAll build whole false [] p taken
    enterAll build whole false before p entries

/-- The entry that a node is, if it is a mapping with one entry. -/
def single? (d : Document) (p : Progress) (n : Node) : Option Entry :=
  match d.node n with
  | .mapping place _ own =>
    match p.entriesAt place own with
    | [e] => some e
    | _ => none
  | _ => none

/-- The entries that nodes are, entered after those `before` them.  If they are `keyed` no key
may come twice or be a collection. -/
def entriesAll (d : Document) (build : Building) (whole keyed : Bool)
    (before : List (Data × Data)) (p : Progress) :
    List Node → Except Fault (List (Data × Data) × Progress)
  | [] => .ok (before, p)
  | n :: more =>
    match single? d p n with
    | none => .error .malformed
    | some (k, v) => do
      let (key, p) ← build whole k p
      if keyed && !key.isKey then .error .badKey
      else if keyed && (Data.lookup key before).isSome then .error .repeatedEntry
      else
        let (value, p) ← build whole v p
        entriesAll d build whole keyed (before ++ [(key, value)]) p more

/-- Entries as pairs.  A pair that is no key may stand inside itself, so it gets a place after
all those of the document. -/
def pairsOf (d : Document) (p : Progress) : List (Data × Data) → List Data × Progress
  | [] => ([], p)
  | (key, value) :: more =>
    let pair : Data := .tuple [key, value]
    if pair.isKey then
      let (pairs, p) := pairsOf d p more
      (pair :: pairs, p)
    else
      let place := d.root.place + 1 + p.shares.length
      let (pairs, p) := pairsOf d (p.setContents place pair) more
      (.shared place :: pairs, p)

/-- The contents of a node that is read as a collection of a kind. -/
def contentsOf (d : Document) (merging : Merging) (build : Building) (whole : Bool)
    (shape : Shape) (n : Node) (p : Progress) : Except Fault (Data × Progress) :=
  match shape, n with
  | .list, .sequence _ _ items => do
    let (values, p) ← buildAll build whole p items
    pure (.list values, p)
  | .ordered, .sequence _ _ items => do
    let (entries, p) ← entriesAll d build whole true [] p items
    pure (.ordered entries, p)
  | .pairs, .sequence _ _ items => do
    let (entries, p) ← entriesAll d build whole false [] p items
    let (pairs, p) := pairsOf d p entries
    pure (.list pairs, p)
  | .map, .mapping place _ own => do
    let (entries, p) ← mappingAt merging build whole place own p
    pure (.map entries, p)
  | .set, .mapping place _ own => do
    let (entries, p) ← mappingAt merging build whole place own p
    pure (.set (entries.map (·.1)), p)
  | _, _ => .error .malformed

/-! ## §3. Documents. -/

/-- The value of a node.  The places of a document bound how deep its keys go. -/
def build (d : Document) (bound fuel : Nat) : Building := fun whole n p =>
  match fuel with
  | 0 => .error .malformed
  | fuel + 1 =>
    let place := n.place
    match p.valueAt? place with
    | some value => .ok (value, p)
    | none =>
      let n := d.node n
      let tag := p.tagOf d.older n
      match shape? tag with
      | none => do
        let value ← scalarAt d p bound tag n
        pure (value, if n.isScalar then p else p.setContents place value)
      | some shape =>
        if p.opened.contains place then .ok (.null, p)
        else if whole then do
          let (contents, p) ← contentsOf d (merge d bound) (build d bound fuel) true shape n
            { p with opened := place :: p.opened }
          pure (.shared place, { p.setContents place contents with opened := p.opened.drop 1 })
        else
          .ok (.shared place,
            { p.setContents place shape.empty with waiting := n :: p.waiting })

/-- The progress with the contents of collections that were begun. -/
def buildContents (d : Document) (bound : Nat) (p : Progress) : List Node → Except Fault Progress
  | [] => .ok p
  | n :: more =>
    match shape? (p.tagOf d.older n) with
    | none => .error .malformed
    | some shape => do
      let (contents, p) ← contentsOf d (merge d bound) (build d bound bound) false shape n p
      buildContents d bound (p.setContents n.place contents) more

/-- The progress when nothing waits any more. -/
def buildWaiting (d : Document) (bound fuel : Nat) (p : Progress) : Except Fault Progress :=
  match fuel, p.waiting with
  | _, [] => .ok p
  | 0, _ => .error .malformed
  | fuel + 1, waiting => do
    buildWaiting d bound fuel (← buildContents d bound { p with waiting := [] } waiting.reverse)

/-- The value of a document, and what its places hold. -/
def valueOf (d : Document) : Except Fault (Data × Data.Shares) := do
  let bound := d.root.place + 2
  let (value, p) ← build d bound bound false d.root Progress.start
  let p ← buildWaiting d bound bound p
  pure (value, p.shares)

/-- The value of the document that a text spells, and what its places hold; null when there is
no document. -/
def load (s : List Char) : Except Fault (Data × Data.Shares) := do
  match ← read? s with
  | none => pure (.null, [])
  | some d => valueOf d

end EmbeddedExpr.Yaml
