/-
  EmbeddedExpr.Data.Basic
  ───────────────────────
  **THE VALUES OF A DATA DOCUMENT.**

  Settings, manifests and package files hold values of one type.  A mapping keeps its entries
  in the order of the document.  Numbers and truth values are compared by what they count, so
  one key may be written in several ways.  A collection that stands in several places, or in
  itself, is given by its place; what such places hold is kept beside the value.
-/
import EmbeddedExpr.Number.Binary64
import EmbeddedExpr.Data.Calendar

namespace EmbeddedExpr

/-- A value of a data document. -/
inductive Data where
  | null
  | bool (value : Bool)
  | int (value : Int)
  | float (value : Binary64)
  | str (value : String)
  | date (value : Date)
  | timestamp (value : Timestamp)
  | octets (value : List UInt8)
  | list (items : List Data)
  /-- A sequence that stands as a key, or as an entry of a list of pairs. -/
  | tuple (items : List Data)
  | map (entries : List (Data × Data))
  /-- A mapping that was given as a sequence of entries. -/
  | ordered (entries : List (Data × Data))
  | set (items : List Data)
  /-- The collection at a place of the document. -/
  | shared (place : Nat)
  deriving Repr, Inhabited

namespace Data

/-! ## §1. Numbers and truth. -/

/-- What a number or a truth value counts. -/
def count? : Data → Option Int
  | .bool b => some (if b then 1 else 0)
  | .int i => some i
  | .float x => x.toInt?
  | _ => none

/-- Null, false, zero and what is empty count as nothing. -/
def isFalsy : Data → Bool
  | .null => true
  | .bool b => !b
  | .int i => i = 0
  | .float x => x.isZero
  | .str s => s.isEmpty
  | .octets o => o.isEmpty
  | .list items => items.isEmpty
  | .tuple items => items.isEmpty
  | .map entries => entries.isEmpty
  | .ordered entries => entries.isEmpty
  | .set items => items.isEmpty
  | _ => false

/-! ## §2. Keys. -/

mutual
/-- Two values are one key. -/
def same : Data → Data → Bool
  | .null, .null => true
  | .str a, .str b => a = b
  | .date a, .date b => a = b
  | .timestamp a, .timestamp b => a.same b
  | .octets a, .octets b => a = b
  | .float (.nan a), .float (.nan b) => a = b
  | .float (.nan _), _ => false
  | .float (.infinite a), .float (.infinite b) => a = b
  | .tuple a, .tuple b => sameItems a b
  | .list a, .list b => sameItems a b
  | .float a, .float b =>
    match a.toInt?, b.toInt? with
    | some i, some j => i = j
    | none, none => a = b
    | _, _ => false
  | a, b =>
    match count? a, count? b with
    | some i, some j => i = j
    | _, _ => false
/-- Two lists of values are the same key by key. -/
def sameItems : List Data → List Data → Bool
  | [], [] => true
  | a :: as, b :: bs => same a b && sameItems as bs
  | _, _ => false
end

mutual
/-- The value may stand as a key: it holds no list, mapping or set. -/
def isKey : Data → Bool
  | .list _ => false
  | .map _ => false
  | .ordered _ => false
  | .set _ => false
  | .shared _ => false
  | .tuple items => allKeys items
  | _ => true
/-- Every value of a list may stand as a key. -/
def allKeys : List Data → Bool
  | [] => true
  | d :: more => isKey d && allKeys more
end

/-! ## §3. Mappings. -/

/-- The value of a key among entries. -/
def lookup (key : Data) (entries : List (Data × Data)) : Option Data :=
  (entries.find? fun e => e.1.same key).map (·.2)

/-- The entries with a key set: in the key's place when it is there, else at the end. -/
def insert (key value : Data) : List (Data × Data) → List (Data × Data)
  | [] => [(key, value)]
  | e :: more => if e.1.same key then (e.1, value) :: more else e :: insert key value more

/-- The value of a text key of a mapping. -/
def field? (name : String) (entries : List (Data × Data)) : Option Data :=
  lookup (.str name) entries

/-- The entries of a value that is a mapping. -/
def entries? : Data → Option (List (Data × Data))
  | .map entries => some entries
  | .ordered entries => some entries
  | _ => none

/-! ## §4. Shared collections. -/

/-- The value is a list, a mapping or a set. -/
def isCollection : Data → Bool
  | .list _ => true
  | .map _ => true
  | .ordered _ => true
  | .set _ => true
  | _ => false

/-- What places of a document hold. -/
abbrev Shares := List (Nat × Data)

/-- The value itself: for a place, what the place holds. -/
def view (shares : Shares) : Data → Data
  | .shared place => (shares.lookup place).getD .null
  | d => d

end Data

end EmbeddedExpr
