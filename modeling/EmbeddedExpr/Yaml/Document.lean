/-
  EmbeddedExpr.Yaml.Document
  ──────────────────────────
  **FROM TOKENS TO NODES.**

  The tokens of a text are read as one document.  A node may be left out where its place is
  clear; it is then an empty text.  Every reader is given a bound on how deep it may go, which
  the number of tokens sets.
-/
import EmbeddedExpr.Yaml.Layout
import EmbeddedExpr.Yaml.Node

namespace EmbeddedExpr.Yaml

/-! ## §1. State. -/

/-- A name that a document gives, the place of its node, and the node unless it is still being
read. -/
structure Anchor where
  name : List Char
  place : Nat
  node : Option Node

/-- What is known while a document is read. -/
structure Reading where
  rest : List Token
  /-- The names given so far, the last one first. -/
  anchors : List Anchor
  /-- What the handles of tags stand for. -/
  handles : List (List Char × List Char)
  version : Version

namespace Reading

/-- The place of what stands next. -/
def place (r : Reading) : Nat := r.rest.length

/-- The next token. -/
def peek (r : Reading) : Option Token := r.rest.head?

/-- The state after the next token. -/
def skip (r : Reading) : Reading := { r with rest := r.rest.drop 1 }

/-- The next token is one of those given. -/
def at_ (r : Reading) (ts : List Token) : Bool :=
  match r.peek with
  | some t => ts.contains t
  | none => false

/-- Why the next token does not belong here. -/
def fault (r : Reading) : Fault :=
  match r.peek with
  | some (.unreadable fault) => fault
  | _ => .malformed

/-- A node whose text is read by what it looks like, if the version says how. -/
def untagged (r : Reading) (node : Node) : Except Fault Node :=
  if r.version.isKnown then .ok node else .error .unknownVersion

/-- An empty text without a tag. -/
def empty (r : Reading) : Except Fault Node := r.untagged .empty

/-- The state after a token that must come next. -/
def expect (r : Reading) (t : Token) : Except Fault Reading :=
  if r.peek = some t then .ok r.skip else .error r.fault

/-- The state in which a name stands for a node that is still to be read. -/
def begin_ (r : Reading) (name : Option (List Char)) (place : Nat) : Reading :=
  match name with
  | some name => { r with anchors := ⟨name, place, none⟩ :: r.anchors }
  | none => r

/-- The state in which a node has been read; its name, if it has one, stands for it. -/
def finish (r : Reading) (node : Node) : Reading :=
  { r with
    anchors := r.anchors.map fun a =>
      if a.place = node.place then { a with node := some node } else a }

/-- The nodes that have names, by their places. -/
def named (r : Reading) : List (Nat × Node) :=
  r.anchors.filterMap fun a => a.node.map fun node => (a.place, node)

end Reading

/-! ## §2. Properties. -/

/-- What is said about a node before its contents. -/
structure Properties where
  anchor : Option (List Char)
  tag : Option TagName

/-- The properties that stand next: an anchor and a tag in either order. -/
def properties (r : Reading) : Properties × Reading :=
  match r.rest with
  | .anchor a :: .tag t :: rest => (⟨some a, some t⟩, { r with rest })
  | .anchor a :: rest => (⟨some a, none⟩, { r with rest })
  | .tag t :: .anchor a :: rest => (⟨some a, some t⟩, { r with rest })
  | .tag t :: rest => (⟨none, some t⟩, { r with rest })
  | _ => (⟨none, none⟩, r)

/-- The whole of a tag. -/
def wholeTag (r : Reading) (t : TagName) : Except Fault (List Char) :=
  match t.handle with
  | none => .ok t.suffix
  | some handle =>
    match r.handles.lookup handle with
    | some replacement => .ok (replacement ++ t.suffix)
    | none => .error .malformed

/-- The tag of a node; a lone exclamation mark leaves the choice to the contents. -/
structure Tagging where
  tag : Option (List Char)
  /-- The tag is a lone exclamation mark. -/
  open_ : Bool

/-- What a node's properties say about its tag. -/
def tagging (r : Reading) (p : Properties) : Except Fault Tagging :=
  match p.tag with
  | none => .ok ⟨none, false⟩
  | some t => do
    let tag ← wholeTag r t
    pure (if tag = ['!'] then ⟨none, true⟩ else ⟨some tag, false⟩)

/-! ## §3. Nodes. -/

/-- Where a node stands. -/
inductive Position where
  /-- Inside a flow collection. -/
  | flow
  | block
  /-- In a block mapping, where a sequence need not be indented. -/
  | blockEntry
  deriving DecidableEq

/-- The node of a text.  A quoted one with an open tag is read like a plain one. -/
def scalarNode (r : Reading) (place : Nat) (t : Tagging) (style : Style) (text : List Char) :
    Except Fault Node :=
  if t.tag.isSome then .ok (.scalar place t.tag style text)
  else if style ≠ .plain && !t.open_ then .ok (.scalar place (some (coreTag "str")) style text)
  else r.untagged (.scalar place none style text)

/-- The node that a name stands for. -/
def aliased (r : Reading) (name : List Char) : Except Fault Node :=
  match r.anchors.find? fun a => a.name = name with
  | some ⟨_, _, some found⟩ => .ok found
  | some ⟨_, place, none⟩ => .ok (.enclosing place)
  | none => .error .malformed

/-- A node whose contents are left out; only its properties are there. -/
def leftOut (place : Nat) (said : Properties) (t : Tagging) (r : Reading) :
    Except Fault (Node × Reading) :=
  match r.fault with
  | .malformed =>
    if said.anchor.isSome || said.tag.isSome then do pure (← scalarNode r place t .plain [], r)
    else .error .malformed
  | fault => .error fault

mutual
/-- The node that stands next. -/
def node (fuel : Nat) (position : Position) (r : Reading) : Except Fault (Node × Reading) :=
  match fuel with
  | 0 => .error .malformed
  | fuel + 1 =>
    match r.peek with
    | some (.alias name) => do
      pure (← aliased r name, r.skip)
    | _ => do
      let (said, inner) := properties r
      let t ← match inner.peek, said.anchor with
        | some (.unreadable fault), none => .error fault
        | _, _ => tagging r said
      let begun := inner.begin_ said.anchor r.place
      let (found, after) ← contents fuel position r.place said t begun
      pure (found, if said.anchor.isSome then after.finish found else after)

/-- The node with the given properties whose contents stand next. -/
def contents (fuel : Nat) (position : Position) (place : Nat) (said : Properties) (t : Tagging)
    (r : Reading) : Except Fault (Node × Reading) :=
  match fuel with
  | 0 => .error .malformed
  | fuel + 1 =>
    match r.peek, position with
    | some (.scalar style text), _ => do
      pure (← scalarNode r place t style text, r.skip)
    | some .flowSequenceStart, _ => do
      let (items, after) ← flowItems fuel true r.skip
      pure (.sequence place t.tag items, after)
    | some .flowMappingStart, _ => do
      let (entries, after) ← flowEntries fuel true r.skip
      pure (.mapping place t.tag entries, after)
    | some .blockEntry, .blockEntry => do
      let (items, after) ← looseItems fuel r
      pure (.sequence place t.tag items, after)
    | some .blockSequenceStart, .block | some .blockSequenceStart, .blockEntry => do
      let (items, after) ← blockItems fuel r.skip
      pure (.sequence place t.tag items, after)
    | some .blockMappingStart, .block | some .blockMappingStart, .blockEntry => do
      let (entries, after) ← blockEntries fuel r.skip
      pure (.mapping place t.tag entries, after)
    | _, _ => leftOut place said t r

/-- The node that stands next, or an empty one when one of the given tokens does. -/
def nodeUnless (fuel : Nat) (position : Position) (ends : List Token) (r : Reading) :
    Except Fault (Node × Reading) :=
  match fuel with
  | 0 => .error .malformed
  | fuel + 1 =>
    if r.at_ ends then do pure (← r.empty, r)
    else node fuel position r

/-- The items of a block sequence, and what follows its end. -/
def blockItems (fuel : Nat) (r : Reading) : Except Fault (List Node × Reading) :=
  match fuel with
  | 0 => .error .malformed
  | fuel + 1 =>
    if r.peek = some .blockEntry then do
      let (item, after) ← nodeUnless fuel .block [.blockEntry, .blockEnd] r.skip
      let (more, last) ← blockItems fuel after
      pure (item :: more, last)
    else do
      pure ([], ← r.expect .blockEnd)

/-- The items of a sequence that is not indented. -/
def looseItems (fuel : Nat) (r : Reading) : Except Fault (List Node × Reading) :=
  match fuel with
  | 0 => .error .malformed
  | fuel + 1 =>
    if r.peek = some .blockEntry then do
      let (item, after) ← nodeUnless fuel .block [.blockEntry, .key, .value, .blockEnd] r.skip
      let (more, last) ← looseItems fuel after
      pure (item :: more, last)
    else .ok ([], r)

/-- The value of an entry of a block mapping. -/
def blockValue (fuel : Nat) (r : Reading) : Except Fault (Node × Reading) :=
  match fuel with
  | 0 => .error .malformed
  | fuel + 1 =>
    if r.peek = some .value then
      nodeUnless fuel .blockEntry [.key, .value, .blockEnd] r.skip
    else do pure (← r.empty, r)

/-- The entries of a block mapping, and what follows its end. -/
def blockEntries (fuel : Nat) (r : Reading) : Except Fault (List Entry × Reading) :=
  match fuel with
  | 0 => .error .malformed
  | fuel + 1 =>
    if r.peek = some .key then do
      let (key, after) ← nodeUnless fuel .blockEntry [.key, .value, .blockEnd] r.skip
      let (value, after) ← blockValue fuel after
      let (more, last) ← blockEntries fuel after
      pure ((key, value) :: more, last)
    else if r.peek = some .value && r.version.isNewer then do
      let key ← r.empty
      let (value, after) ← blockValue fuel r
      let (more, last) ← blockEntries fuel after
      pure ((key, value) :: more, last)
    else do
      pure ([], ← r.expect .blockEnd)

/-- The value of an entry of a flow collection that `closing` ends. -/
def flowValue (fuel : Nat) (closing : Token) (r : Reading) : Except Fault (Node × Reading) :=
  match fuel with
  | 0 => .error .malformed
  | fuel + 1 =>
    if r.peek = some .value then nodeUnless fuel .flow [.flowEntry, closing] r.skip
    else do pure (← r.empty, r)

/-- The items of a flow sequence, and what follows its end.  An entry with a key is a mapping
of its own. -/
def flowItems (fuel : Nat) (first : Bool) (r : Reading) : Except Fault (List Node × Reading) :=
  match fuel with
  | 0 => .error .malformed
  | fuel + 1 =>
    if r.peek = some .flowSequenceEnd then .ok ([], r.skip)
    else do
      let r ← if first then pure r else r.expect .flowEntry
      if r.peek = some .key then
        let (key, after) ←
          nodeUnless fuel .flow [.value, .flowEntry, .flowSequenceEnd] r.skip
        let (value, after) ← flowValue fuel .flowSequenceEnd after
        let (more, last) ← flowItems fuel false after
        pure (.mapping r.place none [(key, value)] :: more, last)
      else if r.peek = some .flowSequenceEnd then pure ([], r.skip)
      else
        let (item, after) ← node fuel .flow r
        let (more, last) ← flowItems fuel false after
        pure (item :: more, last)

/-- The entries of a flow mapping, and what follows its end.  A node without a colon is a key
without a value. -/
def flowEntries (fuel : Nat) (first : Bool) (r : Reading) :
    Except Fault (List Entry × Reading) :=
  match fuel with
  | 0 => .error .malformed
  | fuel + 1 =>
    if r.peek = some .flowMappingEnd then .ok ([], r.skip)
    else do
      let r ← if first then pure r else r.expect .flowEntry
      if r.peek = some .flowMappingEnd then pure ([], r.skip)
      else
        let (key, value, after) ←
          if r.peek = some .key then do
            let (key, after) ←
              nodeUnless fuel .flow [.value, .flowEntry, .flowMappingEnd] r.skip
            let (value, after) ← flowValue fuel .flowMappingEnd after
            pure (key, value, after)
          else if r.peek = some .value && r.version.isNewer then do
            let key ← r.empty
            let (value, after) ← flowValue fuel .flowMappingEnd r
            pure (key, value, after)
          else do
            let (key, after) ← node fuel .flow r
            pure (key, ← after.empty, after)
        let (more, last) ← flowEntries fuel false after
        pure ((key, value) :: more, last)
end

/-! ## §4. Documents. -/

/-- What handles stand for without directives. -/
def standardHandles : List (List Char × List Char) :=
  [("!".toList, "!".toList), ("!!".toList, tagRoot.toList)]

/-- The state after the directives at the head of a document: the handles, and the version if
there is one.  There is at most one for the version, of the first major one, and one for each
handle. -/
def directives (version : Option Version) (handles : List (List Char × List Char)) :
    List Token → Except Fault Reading
  | .directive (.version v) :: rest =>
    if version.isSome || v.major ≠ 1 then .error .malformed
    else directives (some v) handles rest
  | .directive (.tag handle replacement) :: rest =>
    if (handles.lookup handle).isSome then .error .malformed
    else directives version ((handle, replacement) :: handles) rest
  | .directive .other :: rest => directives version handles rest
  | rest => .ok ⟨rest, [], handles ++ standardHandles, version.getD .usual⟩

/-- Nothing but the end of the document comes next. -/
def atEnd (r : Reading) : Bool := r.rest.isEmpty || r.at_ [.documentStart, .documentEnd]
  || (match r.peek with
    | some (.directive _) => true
    | _ => false)

/-- The mark of a document's end may follow it, in the older version any number of them, and
then nothing. -/
def checkEnd (r : Reading) : Except Fault Unit :=
  let after := if r.version.isOlder then r.rest.dropWhile (· = .documentEnd)
    else if r.peek = some .documentEnd then r.rest.drop 1 else r.rest
  match after with
  | [] => .ok ()
  | .unreadable fault :: _ => .error fault
  | _ => .error .malformed

/-- The document that stands next and ends the text. -/
def documentHere (r : Reading) : Except Fault Document := do
  let (root, after) ←
    if atEnd r then do pure (← r.empty, r) else node (5 * r.rest.length + 10) .block r
  checkEnd after
  pure ⟨root, after.named, r.version.isOlder⟩

/-- The document that tokens spell; none when there is no document. -/
def document? (ts : List Token) : Except Fault (Option Document) :=
  match ts with
  | [] => .ok none
  | .directive _ :: _ | .documentStart :: _ => do
    let r ← (← directives none [] ts).expect .documentStart
    pure (some (← documentHere r))
  | .documentEnd :: _ => .error .malformed
  | _ => do pure (some (← documentHere ⟨ts, [], standardHandles, .usual⟩))

/-- The document of a text; none when there is no document. -/
def read? (s : List Char) : Except Fault (Option Document) := document? (tokens s)

end EmbeddedExpr.Yaml
