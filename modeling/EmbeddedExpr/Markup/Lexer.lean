/-
  EmbeddedExpr.Markup.Lexer
  ─────────────────────────
  **CUTTING A DOCUMENT INTO PIECES.**

  The lexer is tolerant: a construct without its end goes on to the end of the document, and
  no text is refused.  A construct is recognised by its first characters (`opening?`); what
  begins no construct is character data.  Every reader here returns pieces and the rest of
  the text, and the rest is shorter than what it was given.
-/
import EmbeddedExpr.Text.Blank
import EmbeddedExpr.Text.Word
import EmbeddedExpr.Text.Case
import EmbeddedExpr.Text.CaseMatch
import EmbeddedExpr.Text.Search
import EmbeddedExpr.Markup.Token

namespace EmbeddedExpr.Markup

/-! ## §1. Which construct begins here. -/

/-- The constructs that begin with an angle bracket. -/
inductive Opening where
  /-- A construct with a fixed end: its kind, the length of its opening mark, its end mark. -/
  | fenced (kind : Kind) (mark closing : List Char)
  /-- A tag; `closing` when a slash follows the bracket. -/
  | tag (closing : Bool)
  deriving DecidableEq, Repr

/-- An ASCII letter, with which the name of a tag begins. -/
def isTagLetter (c : Char) : Bool := c.isAlpha

/-- A character of a tag's name after its first. -/
def isTagChar (c : Char) : Bool := Text.isWord c || c = ':' || c = '.' || c = '-'

/-- The construct that begins at the head of a text. -/
def opening? : List Char → Option Opening
  | '<' :: rest =>
    if "!--".toList.isPrefixOf rest then some (.fenced .comment "<!--".toList "-->".toList)
    else if "![CDATA[".toList.isPrefixOf rest then
      some (.fenced .cdata "<![CDATA[".toList "]]>".toList)
    else match rest with
      | '!' :: _ => some (.fenced .doctype "<!".toList ">".toList)
      | '?' :: _ => some (.fenced .instruction "<?".toList "?>".toList)
      | '/' :: c :: _ => if isTagLetter c then some (.tag true) else none
      | c :: _ => if isTagLetter c then some (.tag false) else none
      | [] => none
  | _ => none

/-- The characters up to the next construct, and the rest. -/
def characterData : List Char → List Char × List Char
  | [] => ([], [])
  | c :: rest =>
    if (opening? (c :: rest)).isSome then ([], c :: rest)
    else
      let (data, more) := characterData rest
      (c :: data, more)

theorem characterData_append (s : List Char) : (characterData s).1 ++ (characterData s).2 = s := by
  induction s with
  | nil => rfl
  | cons c rest ih => unfold characterData; split <;> simp [ih]

/-- A fenced construct at the head of a text: all of it, and the rest.  The search for the
end mark begins after the opening mark. -/
def fenced (mark closing s : List Char) : List Char × List Char :=
  let (body, rest) := Text.throughMark closing (s.drop mark.length)
  (s.take mark.length ++ body, rest)

theorem fenced_append (mark closing s : List Char) :
    (fenced mark closing s).1 ++ (fenced mark closing s).2 = s := by
  simp [fenced, List.append_assoc, Text.throughMark_append]

/-! ## §2. Attributes. -/

/-- A character of an attribute's name. -/
def isAttrChar (c : Char) : Bool :=
  !(Text.isBlank c || ['/', '>', '=', '\x22', '\x27', '<'].contains c)

/-- A character of a value without quotes. -/
def isValueChar (c : Char) : Bool := !(Text.isBlank c || c = '>')

/-- The value of an attribute at the head of a text: up to the next same quote, or up to
white space or the end of the tag when it has no quotes. -/
def attrValue : List Char → List Char × List Char
  | [] => ([], [])
  | c :: rest =>
    if c = '\x22' || c = '\x27' then
      let (body, more) := Text.throughMark [c] rest
      (c :: body, more)
    else ((c :: rest).takeWhile isValueChar, (c :: rest).dropWhile isValueChar)

theorem attrValue_append (s : List Char) : (attrValue s).1 ++ (attrValue s).2 = s := by
  cases s with
  | nil => rfl
  | cons c rest =>
    simp only [attrValue]
    split
    · simp [Text.throughMark_append]
    · exact List.takeWhile_append_dropWhile

/-- An attribute at the head of a text: its name, and its value when an equals sign and a
value follow. -/
def attributeAt (s : List Char) : List Piece × List Char :=
  let name := s.takeWhile isAttrChar
  let rest := s.dropWhile isAttrChar
  let named := Piece.token .attrName name (some name)
  match rest.dropWhile Text.isBlank with
  | '=' :: more =>
    let (value, after) := attrValue (more.dropWhile Text.isBlank)
    let gap := Piece.gap (rest.takeWhile Text.isBlank ++ '=' :: more.takeWhile Text.isBlank)
    if value.isEmpty then ([named, gap], after)
    else ([named, gap, .token .attrValue value (some name)], after)
  | _ => ([named], rest)

theorem attributeAt_append (s : List Char) :
    (attributeAt s).1.flatMap Piece.text ++ (attributeAt s).2 = s := by
  have hn := List.takeWhile_append_dropWhile (p := isAttrChar) (l := s)
  simp only [attributeAt]
  split
  · next more hm =>
    have hb := List.takeWhile_append_dropWhile (p := Text.isBlank) (l := s.dropWhile isAttrChar)
    have hb' := List.takeWhile_append_dropWhile (p := Text.isBlank) (l := more)
    have hv := attrValue_append (more.dropWhile Text.isBlank)
    rw [hm] at hb
    split
    · next he =>
      rw [List.isEmpty_iff.mp he, List.nil_append] at hv
      simp only [List.flatMap_cons, List.flatMap_nil, Piece.text, List.append_nil,
        List.append_assoc, List.cons_append, hv, hb', hb, hn]
    · simp only [List.flatMap_cons, List.flatMap_nil, Piece.text, List.append_nil,
        List.append_assoc, List.cons_append, hv, hb', hb, hn]
  · simp [Piece.text, hn]

theorem length_attributeAt {c : Char} (rest : List Char) (hc : isAttrChar c = true) :
    (attributeAt (c :: rest)).2.length ≤ rest.length := by
  have hs := congrArg List.length (attributeAt_append (c :: rest))
  have hp : ∃ pieces, (attributeAt (c :: rest)).1 =
      .token .attrName (c :: rest.takeWhile isAttrChar) (some (c :: rest.takeWhile isAttrChar))
        :: pieces := by
    simp only [attributeAt, List.takeWhile_cons, hc, if_true]
    split
    · split <;> exact ⟨_, rfl⟩
    · exact ⟨_, rfl⟩
  obtain ⟨pieces, hp⟩ := hp
  rw [hp] at hs
  simp only [List.flatMap_cons, Piece.text, List.length_append, List.length_cons] at hs
  omega

/-! ## §3. Tags. -/

/-- How a tag ends. -/
inductive Ending where
  /-- With an angle bracket. -/
  | closed
  /-- With a slash and an angle bracket. -/
  | selfClosed
  /-- Without an end: the document ends, or the next construct begins. -/
  | cut
  deriving DecidableEq, Repr

/-- The pieces of a tag after its name, how it ends, and the rest.  White space and the
characters that begin no attribute are gaps. -/
def tagBody (s : List Char) : List Piece × Ending × List Char :=
  match s with
  | [] => ([], .cut, [])
  | '/' :: '>' :: rest => ([.token .tagEnd ['/', '>'] none], .selfClosed, rest)
  | '>' :: rest => ([.token .tagEnd ['>'] none], .closed, rest)
  | '<' :: rest => ([], .cut, '<' :: rest)
  | c :: rest =>
    if _hc : isAttrChar c then
      let (pieces, ending, more) := tagBody (attributeAt (c :: rest)).2
      ((attributeAt (c :: rest)).1 ++ pieces, ending, more)
    else
      let (pieces, ending, more) := tagBody rest
      (.gap [c] :: pieces, ending, more)
termination_by s.length
decreasing_by
  · have := length_attributeAt rest _hc
    simp only [List.length_cons]
    omega
  · simp

theorem tagBody_append (s : List Char) :
    (tagBody s).1.flatMap Piece.text ++ (tagBody s).2.2 = s := by
  fun_induction tagBody s with
  | case1 => rfl
  | case2 rest => simp [Piece.text]
  | case3 rest => simp [Piece.text]
  | case4 rest => simp
  | case5 c rest _ _ _ hc pieces ending more he ih =>
    rw [he] at ih
    simp only [List.flatMap_append, List.append_assoc]
    simp only at ih
    rw [ih, attributeAt_append]
  | case6 c rest _ _ _ hc pieces ending more he ih =>
    rw [he] at ih
    simp only at ih
    simp [Piece.text, ih]

/-- The elements whose contents are no markup. -/
def rawNames : List (List Char) := ["script".toList, "style".toList]

/-- The closing tag of a raw element begins here: its name in any case, then no word
character. -/
def closesRaw (name : List Char) : List Char → Bool
  | '<' :: '/' :: rest =>
    match Text.afterWord? name rest with
    | some [] => true
    | some (c :: _) => !Text.isWord c
    | none => false
  | _ => false

/-- The contents of a raw element, up to its closing tag, and the rest. -/
def rawText (name : List Char) : List Char → List Char × List Char
  | [] => ([], [])
  | c :: rest =>
    if closesRaw name (c :: rest) then ([], c :: rest)
    else
      let (raw, more) := rawText name rest
      (c :: raw, more)

theorem rawText_append (name s : List Char) : (rawText name s).1 ++ (rawText name s).2 = s := by
  induction s with
  | nil => rfl
  | cons c rest ih => unfold rawText; split <;> simp [ih]

/-- The contents after a tag: those of a raw element that the tag opens, or none. -/
def contents (name : List Char) (closing : Bool) (ending : Ending) (s : List Char) :
    List Piece × List Char :=
  if !closing && ending = .closed && rawNames.contains name then
    let (raw, rest) := rawText name s
    (if raw.isEmpty then [] else [.token .rawText raw none], rest)
  else ([], s)

theorem contents_append (name : List Char) (closing : Bool) (ending : Ending) (s : List Char) :
    (contents name closing ending s).1.flatMap Piece.text ++ (contents name closing ending s).2
      = s := by
  unfold contents
  split
  · have h := rawText_append name s
    simp only
    split
    · next he => rw [List.isEmpty_iff.mp he, List.nil_append] at h; simp [h]
    · simp [Piece.text, h]
  · simp

/-- A tag at the head of a text, with the raw contents that follow it. -/
def tag (closing : Bool) (s : List Char) : List Piece × List Char :=
  let mark := if closing then ['<', '/'] else ['<']
  let name := (s.drop mark.length).takeWhile isTagChar
  let lowered := Text.lower name
  let (pieces, ending, rest) := tagBody ((s.drop mark.length).dropWhile isTagChar)
  let (raw, rest) := contents lowered closing ending rest
  (.token .tagStart (mark ++ name) (some lowered) :: (pieces ++ raw), rest)

/-- A tag is recognised by its mark and the letter after it. -/
theorem exists_letter_of_tag {closing : Bool} {s : List Char}
    (h : opening? s = some (.tag closing)) :
    ∃ letter rest, isTagLetter letter = true
      ∧ s = (if closing then ['<', '/'] else ['<']) ++ letter :: rest := by
  unfold opening? at h
  split at h
  · split at h
    · simp at h
    · split at h
      · simp at h
      · split at h
        · simp at h
        · simp at h
        · split at h
          · next hl =>
            obtain rfl := Opening.tag.inj (Option.some.inj h)
            exact ⟨_, _, hl, rfl⟩
          · simp at h
        · split at h
          · next hl =>
            obtain rfl := Opening.tag.inj (Option.some.inj h)
            exact ⟨_, _, hl, rfl⟩
          · simp at h
        · simp at h
  · simp at h

theorem mark_of_tag {closing : Bool} {s : List Char} (h : opening? s = some (.tag closing)) :
    (if closing then ['<', '/'] else ['<']) <+: s := by
  obtain ⟨letter, rest, -, rfl⟩ := exists_letter_of_tag h
  exact List.prefix_append _ _

theorem tag_append {closing : Bool} {s : List Char} (h : opening? s = some (.tag closing)) :
    (tag closing s).1.flatMap Piece.text ++ (tag closing s).2 = s := by
  have hm := List.prefix_iff_eq_append.mp (mark_of_tag h)
  have hn := List.takeWhile_append_dropWhile (p := isTagChar)
    (l := s.drop (if closing then ['<', '/'] else ['<']).length)
  have hb := tagBody_append
    ((s.drop (if closing then ['<', '/'] else ['<']).length).dropWhile isTagChar)
  simp only [tag]
  generalize tagBody _ = body at hb ⊢
  obtain ⟨pieces, ending, rest⟩ := body
  have hr := contents_append (Text.lower ((s.drop (if closing then ['<', '/'] else
    ['<']).length).takeWhile isTagChar)) closing ending rest
  simp only [List.flatMap_cons, List.flatMap_append, Piece.text, List.append_assoc] at hb hr ⊢
  rw [hr, hb, hn, hm]

/-! ## §4. Documents. -/

/-- The construct or the character data at the head of a text of at least one character, and
the rest. -/
def construct (c : Char) (rest : List Char) : List Piece × List Char :=
  match opening? (c :: rest) with
  | some (.fenced kind mark closing) =>
    let (whole, more) := fenced mark closing (c :: rest)
    ([.token kind whole none], more)
  | some (.tag closing) => tag closing (c :: rest)
  | none =>
    let (data, more) := characterData rest
    ([.token .text (c :: data) none], more)

theorem opening?_head {c : Char} {rest : List Char} {o : Opening}
    (h : opening? (c :: rest) = some o) : c = '<' := by
  unfold opening? at h
  split at h
  · next heq => exact (List.cons.inj heq).1
  · simp at h

theorem construct_append (c : Char) (rest : List Char) :
    (construct c rest).1.flatMap Piece.text ++ (construct c rest).2 = c :: rest := by
  unfold construct
  split
  · next kind mark closing _ => simpa [Piece.text] using fenced_append mark closing (c :: rest)
  · next closing h => exact tag_append h
  · simp [Piece.text, characterData_append]

theorem mark_of_fenced {kind : Kind} {mark closing s : List Char}
    (h : opening? s = some (.fenced kind mark closing)) : mark ≠ [] := by
  rintro rfl
  unfold opening? at h
  split at h
  · split at h
    · simp at h
    · split at h
      · simp at h
      · split at h
        · simp at h
        · simp at h
        · split at h <;> simp at h
        · split at h <;> simp at h
        · simp at h
  · simp at h

theorem length_construct (c : Char) (rest : List Char) :
    (construct c rest).2.length < (c :: rest).length := by
  have hs := congrArg List.length (construct_append c rest)
  have hp : (construct c rest).1.flatMap Piece.text ≠ [] := by
    unfold construct
    split
    · next h => simp [Piece.text, fenced, mark_of_fenced h]
    · next closing _ => cases closing <;> simp [tag, Piece.text]
    · simp [Piece.text]
  have := List.length_pos_iff.mpr hp
  simp only [List.length_append] at hs
  omega

/-- The pieces of a document.  Together they are the whole of it. -/
def pieces (s : List Char) : List Piece :=
  match s with
  | [] => []
  | c :: rest => (construct c rest).1 ++ pieces (construct c rest).2
termination_by s.length
decreasing_by exact length_construct c rest

theorem pieces_append (s : List Char) : (pieces s).flatMap Piece.text = s := by
  fun_induction pieces s with
  | case1 => rfl
  | case2 c rest ih => rw [List.flatMap_append, ih, construct_append]

/-- The tokens of a document. -/
def tokens (s : List Char) : List Token := place 0 (pieces s)

end EmbeddedExpr.Markup
