/-
  EmbeddedExpr.Scan
  ─────────────────
  **DELIMITED EXPRESSIONS OF A TEXT.**

  An expression begins after an opening marker and ends before the next closing marker, or
  at the end of the text when there is none: a text in the middle of an edit is scanned too.
  A marker that begins at an inert offset does not count, and the search goes on right
  after it.  Equal markers alternate.
-/
import EmbeddedExpr.Region

namespace EmbeddedExpr

/-! ## §1. Markers. -/

/-- A text of at least one character. -/
structure Marker where
  first : Char
  more : List Char
  deriving DecidableEq, Repr

namespace Marker

/-- The marker's characters. -/
def text (m : Marker) : List Char := m.first :: m.more

/-- The marker of the given characters, if there are any. -/
def ofText? : List Char → Option Marker
  | [] => none
  | c :: more => some ⟨c, more⟩

theorem text_of_ofText? {s : List Char} {m : Marker} (h : ofText? s = some m) : m.text = s := by
  cases s with
  | nil => simp [ofText?] at h
  | cons c more =>
    simp only [ofText?, Option.some.injEq] at h
    subst h
    rfl

end Marker

/-! ## §2. Live markers. -/

namespace Scan

/-- The first occurrence of a marker that begins at no inert offset: where it begins, and the
text after it.  The text searched begins at `offset`. -/
def live? (m : Marker) (inert : Nat → Bool) (offset : Nat) (s : List Char) :
    Option (Nat × List Char) :=
  match _h : Text.cut? m.text s with
  | none => none
  | some (before, after) =>
    let found := offset + before.length
    if inert found then live? m inert (found + m.text.length) after
    else some (found, after)
termination_by s.length
decreasing_by
  have := Text.length_of_cut? _h
  simp only [Marker.text, List.length_cons] at this
  omega

theorem live?_length {m : Marker} {inert : Nat → Bool} {offset found : Nat} {s after : List Char}
    (h : live? m inert offset s = some (found, after)) : after.length < s.length := by
  fun_induction live? m inert offset s with
  | case1 => simp at h
  | case2 offset s before rest hc found' hi ih =>
    have := Text.length_of_cut? hc
    have := ih h
    omega
  | case3 offset s before rest hc found' hi =>
    have := Text.length_of_cut? hc
    simp only [Option.some.injEq, Prod.mk.injEq] at h
    obtain ⟨-, rfl⟩ := h
    simp only [Marker.text, List.length_cons] at this
    omega

/-! ## §3. Candidates and regions. -/

/-- The spans between live markers in order, those of no width included.  The text scanned
begins at `offset`. -/
def candidatesFrom (opening closing : Marker) (inert : Nat → Bool) (offset : Nat)
    (s : List Char) : List Region :=
  match _ho : live? opening inert offset s with
  | none => []
  | some (at_, body) =>
    let start := at_ + opening.text.length
    match _hc : live? closing inert start body with
    | none => [⟨start, (start + body.length : Nat)⟩]
    | some (stop, rest) =>
      ⟨start, stop⟩ ::
        candidatesFrom opening closing inert (stop + closing.text.length) rest
termination_by s.length
decreasing_by
  have := live?_length _ho
  have := live?_length _hc
  omega

/-- The spans between live markers of a text; none when a marker has no character. -/
def candidates (opening closing : List Char) (inert : Nat → Bool) (s : List Char) :
    List Region :=
  match Marker.ofText? opening, Marker.ofText? closing with
  | some o, some c => candidatesFrom o c inert 0 s
  | _, _ => []

/-- The expressions of a text: its candidates of some width. -/
def regions (opening closing : List Char) (inert : Nat → Bool) (s : List Char) : List Region :=
  (candidates opening closing inert s).filter fun r => !r.isEmpty

/-- The expression that a quoted value is as a whole: all but the first and last character. -/
def quotedValue (s : List Char) : List Region :=
  if s.length ≤ 1 then []
  else [(⟨1, s.length - 1⟩ : Region)].filter fun r => !r.isEmpty

end Scan

end EmbeddedExpr
