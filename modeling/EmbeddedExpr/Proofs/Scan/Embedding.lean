/-
  EmbeddedExpr.Proofs.Scan.Embedding
  ──────────────────────────────────
  **SCANNING INVERTS EMBEDDING.**

  An `Embedding` is a text in parts: expressions, their markers, and what stands around them.
  It is `Leftmost` when every marker stands at its first occurrence after the marker before
  it.  Each text has exactly one leftmost embedding, whatever its markers are, and the
  candidates of the text are the places of that embedding's expressions:

      d.Leftmost o c  →  Embedding.ofText o c (d.text o c) = d
      d.Leftmost o c  →  candidates o.text c.text (d.text o c) = (d.expressions o c 0).map place
-/
import EmbeddedExpr.Proofs.Scan.Order
import EmbeddedExpr.Proofs.Text.Search

namespace EmbeddedExpr.Scan

/-! ## §1. Embeddings. -/

/-- A text in parts: `t` stands before an opening marker, and `e` is the expression after
it. -/
inductive Embedding where
  /-- A text without an expression. -/
  | plain (t : List Char)
  /-- The last expression has no closing marker and goes on to the end of the text. -/
  | unclosed (t e : List Char)
  /-- An expression and its closing marker, and more of the text. -/
  | closed (t e : List Char) (more : Embedding)
  deriving DecidableEq, Repr

namespace Embedding

variable (o c : Marker)

/-- The text that the parts and the markers between them make up. -/
def text : Embedding → List Char
  | plain t => t
  | unclosed t e => t ++ o.text ++ e
  | closed t e more => t ++ o.text ++ (e ++ c.text ++ more.text)

/-- Every marker stands at its first occurrence after the marker before it, and there is none
where the embedding has none. -/
def Leftmost : Embedding → Prop
  | plain t => ¬ o.text <:+: t
  | unclosed t e => Text.FirstAt o.text (t ++ o.text) t.length ∧ ¬ c.text <:+: e
  | closed t e more => Text.FirstAt o.text (t ++ o.text) t.length
      ∧ Text.FirstAt c.text (e ++ c.text) e.length ∧ more.Leftmost

/-- The expressions in order, each with the offset at which it begins.  The text begins at
`offset`. -/
def expressions (offset : Nat) : Embedding → List (Nat × List Char)
  | plain _ => []
  | unclosed t e => [(offset + t.length + o.text.length, e)]
  | closed t e more =>
    let start := offset + t.length + o.text.length
    (start, e) :: more.expressions (start + e.length + c.text.length)

/-- The embedding of a text, found from left to right. -/
def ofText (s : List Char) : Embedding :=
  match _ho : Text.cut? o.text s with
  | none => plain s
  | some (t, body) =>
    match _hc : Text.cut? c.text body with
    | none => unclosed t body
    | some (e, rest) => closed t e (ofText rest)
termination_by s.length
decreasing_by
  have := Text.length_of_cut? _ho
  have := Text.length_of_cut? _hc
  have := Marker.length_pos o
  omega

end Embedding

/-- The place of a part that begins at the offset. -/
def place (part : Nat × List Char) : Region := ⟨part.1, (part.1 + part.2.length : Nat)⟩

/-! ## §2. One embedding for each text. -/

namespace Embedding

variable {o c : Marker}

theorem text_ofText (s : List Char) : (ofText o c s).text o c = s := by
  fun_induction ofText o c s with
  | case1 s ho => rfl
  | case2 s t body ho hc => exact (Text.eq_of_cut? ho).symm
  | case3 s t body ho e rest hc ih =>
    show t ++ o.text ++ (e ++ c.text ++ (ofText o c rest).text o c) = s
    rw [ih, ← Text.eq_of_cut? hc, ← Text.eq_of_cut? ho]

theorem leftmost_ofText (s : List Char) : (ofText o c s).Leftmost o c := by
  fun_induction ofText o c s with
  | case1 s ho => exact Text.cut?_eq_none_iff.mp ho
  | case2 s t body ho hc =>
    exact ⟨(Text.cut?_eq_some_iff.mp ho).2, Text.cut?_eq_none_iff.mp hc⟩
  | case3 s t body ho e rest hc ih =>
    exact ⟨(Text.cut?_eq_some_iff.mp ho).2, (Text.cut?_eq_some_iff.mp hc).2, ih⟩

/-- **A leftmost embedding is found again in its text.** -/
theorem ofText_text {d : Embedding} (h : d.Leftmost o c) : ofText o c (d.text o c) = d := by
  induction d with
  | plain t =>
    have ho : Text.cut? o.text t = none := Text.cut?_eq_none_iff.mpr h
    show ofText o c t = plain t
    rw [ofText, ho]
  | unclosed t e =>
    have ho : Text.cut? o.text (t ++ o.text ++ e) = some (t, e) :=
      Text.cut?_eq_some_iff.mpr ⟨rfl, h.1⟩
    have hc : Text.cut? c.text e = none := Text.cut?_eq_none_iff.mpr h.2
    show ofText o c (t ++ o.text ++ e) = unclosed t e
    rw [ofText, ho]
    simp only
    rw [hc]
  | closed t e more ih =>
    obtain ⟨hto, hec, hmore⟩ := h
    have ho : Text.cut? o.text (t ++ o.text ++ (e ++ c.text ++ more.text o c))
        = some (t, e ++ c.text ++ more.text o c) := Text.cut?_eq_some_iff.mpr ⟨rfl, hto⟩
    have hc : Text.cut? c.text (e ++ c.text ++ more.text o c) = some (e, more.text o c) :=
      Text.cut?_eq_some_iff.mpr ⟨rfl, hec⟩
    show ofText o c (t ++ o.text ++ (e ++ c.text ++ more.text o c)) = closed t e more
    rw [ofText, ho]
    simp only
    rw [hc]
    simp only
    rw [ih hmore]

end Embedding

/-! ## §3. The candidates are the expressions. -/

/-- Where no offset is inert, the first live marker is the first marker. -/
theorem live?_of_never (m : Marker) (offset : Nat) (s : List Char) :
    live? m (fun _ => false) offset s
      = (Text.cut? m.text s).map fun found => (offset + found.1.length, found.2) := by
  rw [live?]
  cases Text.cut? m.text s <;> rfl

/-- **The candidates of a leftmost embedding's text are the places of its expressions.** -/
theorem candidatesFrom_text {o c : Marker} {d : Embedding} (h : d.Leftmost o c) :
    ∀ offset : Nat, candidatesFrom o c (fun _ => false) offset (d.text o c)
      = (d.expressions o c offset).map place := by
  induction d with
  | plain t =>
    intro offset
    have ho := live?_of_never o offset t
    rw [Text.cut?_eq_none_iff.mpr h] at ho
    show candidatesFrom o c _ offset t = []
    rw [candidatesFrom, ho]
    rfl
  | unclosed t e =>
    intro offset
    have ho := live?_of_never o offset (t ++ o.text ++ e)
    rw [Text.cut?_eq_some_iff.mpr ⟨rfl, h.1⟩] at ho
    have hc := live?_of_never c (offset + t.length + o.text.length) e
    rw [Text.cut?_eq_none_iff.mpr h.2] at hc
    show candidatesFrom o c _ offset (t ++ o.text ++ e) = [place _]
    rw [candidatesFrom, ho]
    simp only [Option.map_some]
    rw [hc]
    rfl
  | closed t e more ih =>
    intro offset
    obtain ⟨hto, hec, hmore⟩ := h
    have ho := live?_of_never o offset (t ++ o.text ++ (e ++ c.text ++ more.text o c))
    rw [Text.cut?_eq_some_iff.mpr ⟨rfl, hto⟩] at ho
    have hc := live?_of_never c (offset + t.length + o.text.length)
      (e ++ c.text ++ more.text o c)
    rw [Text.cut?_eq_some_iff.mpr ⟨rfl, hec⟩] at hc
    show candidatesFrom o c _ offset (t ++ o.text ++ (e ++ c.text ++ more.text o c))
      = place _ :: (more.expressions o c _).map place
    rw [candidatesFrom, ho]
    simp only [Option.map_some]
    rw [hc]
    simp only [Option.map_some]
    rw [ih hmore]
    rfl

theorem ofText?_text (m : Marker) : Marker.ofText? m.text = some m := rfl

theorem candidates_text {o c : Marker} {d : Embedding} (h : d.Leftmost o c) :
    candidates o.text c.text (fun _ => false) (d.text o c)
      = (d.expressions o c 0).map place := by
  unfold candidates
  rw [ofText?_text, ofText?_text]
  exact candidatesFrom_text h 0

theorem isEmpty_place (part : Nat × List Char) : (place part).isEmpty = part.2.isEmpty := by
  rw [Bool.eq_iff_iff, List.isEmpty_iff_length_eq_zero]
  show decide (((part.1 + part.2.length : Nat) : Int) ≤ (part.1 : Int)) = true ↔ _
  rw [decide_eq_true_iff]
  omega

/-- **Scanning inverts embedding.**  Each text has exactly one leftmost embedding.  Its
expressions, those without a character included, are the candidates of the text, and the
others are its regions. -/
theorem exists_embedding (o c : Marker) (s : List Char) :
    ∃ d : Embedding, (d.Leftmost o c ∧ d.text o c = s)
      ∧ (∀ d' : Embedding, d'.Leftmost o c ∧ d'.text o c = s → d' = d)
      ∧ candidates o.text c.text (fun _ => false) s = (d.expressions o c 0).map place
      ∧ regions o.text c.text (fun _ => false) s
        = ((d.expressions o c 0).filter fun part => !part.2.isEmpty).map place := by
  have hleft := Embedding.leftmost_ofText (o := o) (c := c) s
  have htext := Embedding.text_ofText (o := o) (c := c) s
  have hcandidates := candidates_text hleft
  rw [htext] at hcandidates
  refine ⟨.ofText o c s, ⟨hleft, htext⟩, ?_, hcandidates, ?_⟩
  · rintro d' ⟨hleft', rfl⟩
    exact (Embedding.ofText_text hleft').symm
  · unfold regions
    rw [hcandidates, List.filter_map]
    congr 2
    funext part
    exact congrArg not (isEmpty_place part)

/-- Equal markers alternate, and the last expression is not closed. -/
example : Embedding.ofText ⟨'%', []⟩ ⟨'%', []⟩ "a%b%%%c%d".toList
    = .closed ['a'] ['b'] (.closed [] [] (.unclosed ['c'] ['d'])) := by decide +kernel

end EmbeddedExpr.Scan
