/-
  EmbeddedExpr.Proofs.Markup.Extent
  ─────────────────────────────────
  **HOW FAR EACH TOKEN GOES.**

  `Extent kind text after` says of a token's characters and of the text after it that the
  token goes exactly as far as its kind demands.  It is said in three ways, none of which asks
  the lexer: a construct goes `Through` the first of its end mark, a name or a value without
  quotes is the longest run of a class (`IsRun`), and character data holds no offset at which
  markup begins (`BeginsMarkup`):

      t ∈ tokens s  →  Extent t.kind t.text (s.drop t.stop)
-/
import EmbeddedExpr.Proofs.Markup.Value

namespace EmbeddedExpr

/-! ## §1. First marks and longest runs. -/

namespace Text

/-- The characters `read` end just past the first `mark`, or with the text when there is no
mark in it.  The text goes on with `after`. -/
def Through (mark read after : List Char) : Prop :=
  (∃ body, read = body ++ mark ∧ FirstAt mark (read ++ after) body.length)
    ∨ (after = [] ∧ ¬ mark <:+: read)

theorem through_throughMark (mark s : List Char) :
    Through mark (throughMark mark s).1 (throughMark mark s).2 := by
  unfold throughMark
  cases hcut : cut? mark s with
  | none => exact Or.inr ⟨rfl, cut?_eq_none_iff.mp hcut⟩
  | some found =>
    obtain ⟨before, after⟩ := found
    obtain ⟨-, hfirst⟩ := cut?_eq_some_iff.mp hcut
    exact Or.inl ⟨before, rfl, firstAt_append_iff.mpr hfirst⟩

/-- The characters `read` are of a class, and the text does not go on with another of it. -/
def IsRun (cls : Char → Prop) (read after : List Char) : Prop :=
  (∀ c ∈ read, cls c) ∧ ∀ c ∈ after.head?, ¬ cls c

theorem isRun_takeWhile {p : Char → Bool} {cls : Char → Prop} (hp : ∀ c, p c = true ↔ cls c)
    (s : List Char) : IsRun cls (s.takeWhile p) (s.dropWhile p) := by
  constructor
  · intro c hc
    exact (hp c).mp (List.all_eq_true.mp List.all_takeWhile c hc)
  · intro c hc hcls
    have hneg := List.head?_dropWhile_not p s
    rw [Option.mem_def.mp hc] at hneg
    simp only [(hp c).mpr hcls] at hneg
    cases hneg

end Text

namespace Markup

/-! ## §2. Where markup begins. -/

/-- A tag begins here: a bracket, perhaps a slash, and an ASCII letter. -/
def BeginsTag (s : List Char) : Prop :=
  ∃ mark letter rest, (mark = ['<'] ∨ mark = ['<', '/']) ∧ isTagLetter letter = true
    ∧ s = mark ++ letter :: rest

/-- Markup begins here: a comment, a section, a declaration, an instruction or a tag. -/
def BeginsMarkup (s : List Char) : Prop :=
  "<!".toList <+: s ∨ "<?".toList <+: s ∨ BeginsTag s

theorem not_beginsMarkup_of_opening? {s : List Char} (h : opening? s = none) :
    ¬ BeginsMarkup s := by
  have hsome : ∀ {r : List Char} {o : Opening}, opening? r = some o → opening? r ≠ none := by
    intro r o hr hnone
    rw [hr] at hnone
    cases hnone
  rintro (⟨rest, rfl⟩ | ⟨rest, rfl⟩ | ⟨mark, letter, rest, hmark, hletter, rfl⟩)
  · -- whatever follows the two characters, one of the first three constructs begins
    revert h
    show opening? ('<' :: '!' :: rest) ≠ none
    unfold opening?
    simp only
    split
    · simp
    · split
      · simp
      · simp
  · exact hsome (r := '<' :: '?' :: rest) rfl h
  · rcases hmark with rfl | rfl
    · have hne : ∀ d : Char, isTagLetter d = false → letter ≠ d := by
        rintro d hd rfl
        rw [hd] at hletter
        cases hletter
      have ho := opening?_of_ne (hne '!' (by decide)) (hne '?' (by decide)) (hne '/' (by decide))
        rest
      rw [if_pos hletter] at ho
      exact hsome ho h
    · have ho : opening? ('<' :: '/' :: letter :: rest) = some (.tag true) := if_pos hletter
      exact hsome ho h

/-- A declaration begins where no comment and no section does. -/
theorem not_prefix_of_doctype {mark closing s : List Char}
    (h : opening? s = some (.fenced .doctype mark closing)) :
    ¬ "<!--".toList <+: s ∧ ¬ "<![CDATA[".toList <+: s := by
  constructor
  · rintro ⟨rest, rfl⟩
    have ho : opening? ("<!--".toList ++ rest)
        = some (.fenced .comment "<!--".toList "-->".toList) := rfl
    rw [ho] at h
    cases h
  · rintro ⟨rest, rfl⟩
    have ho : opening? ("<![CDATA[".toList ++ rest)
        = some (.fenced .cdata "<![CDATA[".toList "]]>".toList) := rfl
    rw [ho] at h
    cases h

/-- An ASCII letter is a word character. -/
theorem isWord_of_isTagLetter {c : Char} (h : isTagLetter c = true) : Text.isWord c = true := by
  have h : (decide (c.val ≥ 'A'.val ∧ c.val ≤ 'Z'.val)
      || (decide (c.val ≥ 'a'.val) && decide (c.val ≤ 'z'.val))) = true := h
  simp only [Bool.or_eq_true, Bool.and_eq_true, decide_eq_true_eq, ge_iff_le,
    UInt32.le_iff_toNat_le] at h
  have hZ : 'Z'.val.toNat = 90 := rfl
  have hz : 'z'.val.toNat = 122 := rfl
  have hascii : c.toNat < 0x80 := by
    show c.val.toNat < 128
    omega
  unfold Text.isWord
  rw [if_pos hascii]
  simp only [Text.isAsciiLetter, Bool.or_eq_true, Bool.and_eq_true, decide_eq_true_eq,
    Char.le_def, UInt32.le_iff_toNat_le]
  exact Or.inl (Or.inl h.symm)

/-! ## §3. Extents. -/

/-- The construct begins with its opening mark and goes through the first end mark after it. -/
def Fenced (mark closing text after : List Char) : Prop :=
  ∃ read, text = mark ++ read ∧ Text.Through closing read after

/-- A character of the name of a tag. -/
def InTagName (c : Char) : Prop := Text.isWord c = true ∨ c ∈ [':', '.', '-']

/-- A character that ends the name of an attribute. -/
def EndsAttrName (c : Char) : Prop :=
  Text.isBlank c = true ∨ c ∈ ['/', '>', '=', '\x22', '\x27', '<']

/-- A character that ends a value without quotes. -/
def EndsPlainValue (c : Char) : Prop := Text.isBlank c = true ∨ c = '>'

/-- How far a token of each kind goes: `text` are its characters, and the document goes on with
`after`. -/
def Extent (kind : Kind) (text after : List Char) : Prop :=
  match kind with
  | .comment => Fenced "<!--".toList "-->".toList text after
  | .cdata => Fenced "<![CDATA[".toList "]]>".toList text after
  | .instruction => Fenced "<?".toList "?>".toList text after
  | .doctype => Fenced "<!".toList ">".toList text after
      ∧ ¬ "<!--".toList <+: text ++ after ∧ ¬ "<![CDATA[".toList <+: text ++ after
  | .tagStart => ∃ mark letter name, (mark = ['<'] ∨ mark = ['<', '/'])
      ∧ isTagLetter letter = true ∧ text = mark ++ letter :: name
      ∧ Text.IsRun InTagName name after
  | .tagEnd => text = ['>'] ∨ text = ['/', '>']
  | .attrName => Text.IsRun (fun c => ¬ EndsAttrName c) text after
  | .attrValue =>
      (∃ quote read, isQuote quote = true ∧ text = quote :: read
        ∧ Text.Through [quote] read after)
      ∨ (startsQuoted text = false ∧ Text.IsRun (fun c => ¬ EndsPlainValue c) text after)
  | .text => ∀ k < text.length, ¬ BeginsMarkup ((text ++ after).drop k)
  | .rawText => ∃ name ∈ rawNames,
      (∀ k < text.length, closesRaw name ((text ++ after).drop k) = false)
      ∧ (after = [] ∨ closesRaw name after = true)

theorem fenced_fenced {mark s : List Char} (closing : List Char) (hm : mark <+: s) :
    Fenced mark closing (fenced mark closing s).1 (fenced mark closing s).2 := by
  refine ⟨_, ?_, Text.through_throughMark closing (s.drop mark.length)⟩
  exact congrArg (· ++ _) (List.prefix_iff_eq_take.mp hm).symm

theorem extent_fenced {kind : Kind} {mark closing s : List Char}
    (h : opening? s = some (.fenced kind mark closing)) :
    Extent kind (fenced mark closing s).1 (fenced mark closing s).2 := by
  obtain ⟨hfence, hmark⟩ := fence_of_opening? h
  have hfenced := fenced_fenced closing hmark
  simp only [fences, List.mem_cons, Prod.mk.injEq, List.not_mem_nil, or_false] at hfence
  rcases hfence with ⟨rfl, rfl, rfl⟩ | ⟨rfl, rfl, rfl⟩ | ⟨rfl, rfl, rfl⟩ | ⟨rfl, rfl, rfl⟩
  · exact hfenced
  · exact hfenced
  · refine ⟨hfenced, ?_⟩
    rw [fenced_append]
    exact not_prefix_of_doctype h
  · exact hfenced

theorem isTagChar_iff (c : Char) : isTagChar c = true ↔ InTagName c := by
  simp [isTagChar, InTagName, or_assoc]

theorem isAttrChar_iff (c : Char) : isAttrChar c = true ↔ ¬ EndsAttrName c := by
  simp [isAttrChar, EndsAttrName]

theorem isValueChar_iff (c : Char) : isValueChar c = true ↔ ¬ EndsPlainValue c := by
  simp [isValueChar, EndsPlainValue]

theorem extent_tagStart {closing : Bool} {mark s : List Char}
    (h : opening? s = some (.tag closing))
    (hmark : mark = if closing then ['<', '/'] else ['<']) :
    Extent .tagStart (mark ++ (s.drop mark.length).takeWhile isTagChar)
      ((s.drop mark.length).dropWhile isTagChar) := by
  obtain ⟨letter, rest, hletter, rfl⟩ := exists_letter_of_tag h
  have hchar : isTagChar letter = true :=
    (isTagChar_iff letter).mpr (Or.inl (isWord_of_isTagLetter hletter))
  rw [← hmark, List.drop_left, List.takeWhile_cons_of_pos hchar,
    List.dropWhile_cons_of_pos hchar]
  refine ⟨mark, letter, _, ?_, hletter, rfl, Text.isRun_takeWhile isTagChar_iff rest⟩
  rw [hmark]
  cases closing
  · exact Or.inl rfl
  · exact Or.inr rfl

theorem extent_attrValue (s : List Char) :
    Extent .attrValue (attrValue s).1 (attrValue s).2 := by
  cases s with
  | nil => exact Or.inr ⟨rfl, by simp [attrValue], by simp [attrValue]⟩
  | cons c rest =>
    unfold attrValue
    simp only
    split
    · next hq => exact Or.inl ⟨c, _, hq, rfl, Text.through_throughMark [c] rest⟩
    · next hq =>
      refine Or.inr ⟨?_, Text.isRun_takeWhile isValueChar_iff (c :: rest)⟩
      -- a run of at least one character begins with the first of the text
      rw [List.takeWhile_cons]
      split
      · exact Bool.eq_false_iff.mpr hq
      · rfl

theorem extent_characterData {c : Char} {rest : List Char} (h : opening? (c :: rest) = none) :
    Extent .text (c :: (characterData rest).1) (characterData rest).2 := by
  intro k hk
  rw [List.cons_append, characterData_append]
  apply not_beginsMarkup_of_opening?
  cases k with
  | zero => exact h
  | succ k =>
    have hstop := (upTo_characterData.stops_at rest).1 k (Nat.lt_of_succ_lt_succ hk)
    exact Option.not_isSome_iff_eq_none.mp (Bool.eq_false_iff.mp hstop)

theorem extent_rawText {name : List Char} (s : List Char) (hname : name ∈ rawNames) :
    Extent .rawText (rawText name s).1 (rawText name s).2 := by
  obtain ⟨hbefore, hafter⟩ := (upTo_rawText name).stops_at s
  refine ⟨name, hname, ?_, hafter⟩
  rw [rawText_append]
  exact hbefore

theorem readBy_extent : ReadBy Extent where
  data := extent_characterData
  fence := extent_fenced
  tagStart := extent_tagStart
  attrName := Text.isRun_takeWhile isAttrChar_iff
  attrValue := extent_attrValue
  tagEnd ending _ _ h := by
    cases ending with
    | closed => exact Or.inl (Option.some.inj h).symm
    | selfClosed => exact Or.inr (Option.some.inj h).symm
    | cut => cases h
  rawText := extent_rawText

/-- **Every token of a document goes exactly as far as its kind demands.**  It stands at its
start in the document, and the document goes on after it at its stop. -/
theorem extent_of_mem_tokens {s : List Char} {t : Token} (ht : t ∈ tokens s) :
    s.drop t.start = t.text ++ s.drop t.stop ∧ Extent t.kind t.text (s.drop t.stop) := by
  constructor
  · exact drop_of_mem_tokens ht
  · exact readBy_extent.of_mem_tokens ht

/-- The end mark of a comment does not overlap its opening mark. -/
theorem extent_of_mem_tokens_shortComment :
    (⟨.comment, 0, 8, "<!-->-->".toList, none⟩ : Token) ∈ tokens "<!-->-->b".toList
    ∧ "<!-->-->b".toList.drop 0 = "<!-->-->".toList ++ "<!-->-->b".toList.drop 8
    ∧ Fenced "<!--".toList "-->".toList "<!-->-->".toList ("<!-->-->b".toList.drop 8) := by
  have ht : (⟨.comment, 0, 8, "<!-->-->".toList, none⟩ : Token) ∈ tokens "<!-->-->b".toList := by
    decide +kernel
  exact ⟨ht, extent_of_mem_tokens ht⟩

end Markup

end EmbeddedExpr
