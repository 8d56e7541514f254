/-
  EmbeddedExpr.Proofs.Markup.Readers
  ──────────────────────────────────
  **A TOKEN IS WHAT ITS READER TAKES.**

  Each kind of token has one reader, which splits the text at its place into the characters of
  the token and what is left over.  A relation between a kind, these characters and what is
  left over is `ReadBy` the lexer when every reader gives it.  Such a relation holds of every
  token of a document and the text after it:

      ReadBy P  →  t ∈ tokens s  →  P t.kind t.text (s.drop t.stop)
-/
import EmbeddedExpr.Proofs.Markup.Cutting

namespace EmbeddedExpr.Markup

/-! ## §1. Tokens and the text after them. -/

/-- Each token among the pieces is in the relation to the text that follows it.  The text
`rest` follows the pieces. -/
def Fits (P : Kind → List Char → List Char → Prop) (rest : List Char) : List Piece → Prop
  | [] => True
  | .gap _ :: more => Fits P rest more
  | .token kind text _ :: more =>
    P kind text (more.flatMap Piece.text ++ rest) ∧ Fits P rest more

section Fits

variable {P : Kind → List Char → List Char → Prop} {rest : List Char}

theorem Fits.append {ps qs : List Piece} (hq : Fits P rest qs) :
    Fits P (qs.flatMap Piece.text ++ rest) ps → Fits P rest (ps ++ qs) := by
  induction ps with
  | nil => intro _; exact hq
  | cons p more ih =>
    intro h
    cases p with
    | gap text => exact ih h
    | token kind text name =>
      refine ⟨?_, ih h.2⟩
      show P kind text ((more ++ qs).flatMap Piece.text ++ rest)
      rw [List.flatMap_append, List.append_assoc]
      exact h.1

theorem Fits.of_append {ps qs : List Piece} : Fits P rest (ps ++ qs) → Fits P rest qs := by
  induction ps with
  | nil => exact id
  | cons p more ih =>
    intro h
    cases p with
    | gap text => exact ih h
    | token kind text name => exact ih h.2

/-- A token of a document is in the relation to the rest of the document. -/
theorem Fits.of_mem_tokens {s : List Char} {t : Token} (h : Fits P [] (pieces s))
    (ht : t ∈ tokens s) : P t.kind t.text (s.drop t.stop) := by
  obtain ⟨before, after, hts⟩ := List.append_of_mem ht
  obtain ⟨front, back, hps, -, hstart, hstop⟩ := place_eq_append_cons hts
  have hs := pieces_append s
  rw [hps, List.flatMap_append, List.flatMap_cons, ← List.append_assoc] at hs
  have hback : s.drop t.stop = back.flatMap Piece.text := by
    have hlen : t.stop = (front.flatMap Piece.text
        ++ (Piece.token t.kind t.text t.name).text).length := by
      rw [hstop, hstart, List.length_append, Nat.zero_add]
      rfl
    rw [hlen, ← hs, List.drop_left]
  rw [hps] at h
  have hfit := h.of_append.1
  rw [List.append_nil] at hfit
  rw [hback]
  exact hfit

end Fits

/-! ## §2. Relations that the readers give. -/

/-- Every reader of the lexer gives the relation between the characters that it takes for a
token and the text that it leaves over. -/
structure ReadBy (P : Kind → List Char → List Char → Prop) : Prop where
  data : ∀ {c : Char} {rest : List Char}, opening? (c :: rest) = none →
    P .text (c :: (characterData rest).1) (characterData rest).2
  fence : ∀ {kind : Kind} {mark closing s : List Char},
    opening? s = some (.fenced kind mark closing) →
      P kind (fenced mark closing s).1 (fenced mark closing s).2
  /-- The name of a tag is read after the tag's mark. -/
  tagStart : ∀ {closing : Bool} {mark s : List Char}, opening? s = some (.tag closing) →
    mark = (if closing then ['<', '/'] else ['<']) →
      P .tagStart (mark ++ (s.drop mark.length).takeWhile isTagChar)
        ((s.drop mark.length).dropWhile isTagChar)
  attrName : ∀ s : List Char, P .attrName (s.takeWhile isAttrChar) (s.dropWhile isAttrChar)
  attrValue : ∀ s : List Char, P .attrValue (attrValue s).1 (attrValue s).2
  tagEnd : ∀ (ending : Ending) {mark : List Char} (rest : List Char),
    ending.mark? = some mark → P .tagEnd mark rest
  rawText : ∀ {name : List Char} (s : List Char), name ∈ rawNames →
    P .rawText (rawText name s).1 (rawText name s).2

namespace ReadBy

variable {P : Kind → List Char → List Char → Prop}

theorem fits_attributeAt (h : ReadBy P) (s : List Char) :
    Fits P (attributeAt s).2 (attributeAt s).1 := by
  have hsplit : ∃ more, (attributeAt s).1
      = .token .attrName (s.takeWhile isAttrChar) (some (s.takeWhile isAttrChar)) :: more
        ∧ Fits P (attributeAt s).2 more := by
    simp only [attributeAt]
    split
    · split
      · exact ⟨_, rfl, trivial⟩
      · exact ⟨_, rfl, h.attrValue _, trivial⟩
    · exact ⟨[], rfl, trivial⟩
  obtain ⟨more, hmore, hfits⟩ := hsplit
  have hs := attributeAt_append s
  rw [hmore] at hs ⊢
  refine ⟨?_, hfits⟩
  -- what follows the name is what its run leaves over
  rw [List.flatMap_cons, List.append_assoc] at hs
  have hafter := List.append_cancel_left
    (hs.trans (List.takeWhile_append_dropWhile (p := isAttrChar)).symm)
  rw [hafter]
  exact h.attrName s

theorem fits_tagBody (h : ReadBy P) (s : List Char) : Fits P (tagBody s).2.2 (tagBody s).1 := by
  fun_induction tagBody s with
  | case1 => trivial
  | case2 rest => exact ⟨h.tagEnd .selfClosed _ rfl, trivial⟩
  | case3 rest => exact ⟨h.tagEnd .closed _ rfl, trivial⟩
  | case4 rest => trivial
  | case5 c rest _ _ _ hc pieces ending more he ih =>
    rw [he] at ih
    apply Fits.append ih
    -- the rest of the tag is what the attribute leaves over
    have hafter := tagBody_append (attributeAt (c :: rest)).2
    rw [he] at hafter
    rw [hafter]
    exact h.fits_attributeAt (c :: rest)
  | case6 c rest _ _ _ hc pieces ending more he ih =>
    rw [he] at ih
    exact ih

theorem fits_contents (h : ReadBy P) (name : List Char) (closing : Bool) (ending : Ending)
    (s : List Char) :
    Fits P (contents name closing ending s).2 (contents name closing ending s).1 := by
  unfold contents
  split
  · next hraw =>
    simp only [Bool.and_eq_true, List.contains_iff_mem] at hraw
    simp only
    split
    · trivial
    · exact ⟨h.rawText s hraw.2, trivial⟩
  · trivial

theorem fits_tag (h : ReadBy P) {closing : Bool} {s : List Char}
    (ho : opening? s = some (.tag closing)) : Fits P (tag closing s).2 (tag closing s).1 := by
  generalize hmark : (if closing then ['<', '/'] else ['<']) = mark
  have hstart := h.tagStart ho hmark.symm
  have hbody := tagBody_append ((s.drop mark.length).dropWhile isTagChar)
  simp only [tag, hmark]
  refine ⟨?_, Fits.append (h.fits_contents _ _ _ _) ?_⟩
  · rw [List.flatMap_append, List.append_assoc, contents_append, hbody]
    exact hstart
  · rw [contents_append]
    exact h.fits_tagBody _

theorem fits_construct (h : ReadBy P) (c : Char) (rest : List Char) :
    Fits P (construct c rest).2 (construct c rest).1 := by
  unfold construct
  cases ho : opening? (c :: rest) with
  | none => exact ⟨h.data ho, trivial⟩
  | some o =>
    cases o with
    | fenced kind mark closing => exact ⟨h.fence ho, trivial⟩
    | tag closing => exact h.fits_tag ho

theorem fits_pieces (h : ReadBy P) (s : List Char) : Fits P [] (pieces s) := by
  fun_induction pieces s with
  | case1 => trivial
  | case2 c rest ih =>
    apply Fits.append ih
    rw [pieces_append, List.append_nil]
    exact h.fits_construct c rest

/-- **What every reader gives holds of every token of a document.** -/
theorem of_mem_tokens (h : ReadBy P) {s : List Char} {t : Token} (ht : t ∈ tokens s) :
    P t.kind t.text (s.drop t.stop) :=
  (h.fits_pieces s).of_mem_tokens ht

end ReadBy

end EmbeddedExpr.Markup
