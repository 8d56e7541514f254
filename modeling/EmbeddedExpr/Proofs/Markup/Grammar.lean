/-
  EmbeddedExpr.Proofs.Markup.Grammar
  ──────────────────────────────────
  **THE GRAMMAR OF A DOCUMENT'S TOKENS.**

  The tokens of a document are phrases one after the other.  A phrase is a token that stands
  alone, or a tag:

      tag  =  start  (name  value?)*  end?  raw?

  `TagTokens` and `AttributeTokens` hold the tokens of a tag with the conditions on them, so
  that tokens which break the grammar make no phrase.  What a phrase asks of the phrase after
  it is `Phrase.Precedes`.  Each reader of the lexer gives the tokens of one part of a
  phrase, and each construct one phrase:

      ∃ ps : List Phrase, Grammar (tokens s) ps
-/
import EmbeddedExpr.Proofs.Markup.Cutting
import Mathlib.Data.List.Chain

namespace EmbeddedExpr.Markup

/-! ## §1. Phrases. -/

/-- The tokens of an attribute. -/
structure AttributeTokens where
  name : Token
  value : Option Token
  name_kind : name.kind = .attrName
  value_kind : ∀ v ∈ value, v.kind = .attrValue
  /-- A value bears the name of its attribute as it is written. -/
  value_name : ∀ v ∈ value, v.name = some name.text

/-- The tokens of an attribute in order. -/
def AttributeTokens.tokens (a : AttributeTokens) : List Token := a.name :: a.value.toList

/-- The tokens of a tag, and of the raw contents after it. -/
structure TagTokens where
  start : Token
  attributes : List AttributeTokens
  ending : Option Token
  raw : Option Token
  /-- The tag begins with a slash. -/
  closing : Bool
  /-- The tag's name as it is written. -/
  name : List Char
  start_kind : start.kind = .tagStart
  start_text : start.text = (if closing then ['<', '/'] else ['<']) ++ name
  start_name : start.name = some (Text.lower name)
  name_chars : ∀ c ∈ name, isTagChar c = true
  ending_kind : ∀ e ∈ ending, e.kind = .tagEnd
  raw_kind : ∀ r ∈ raw, r.kind = .rawText
  /-- Raw contents follow the angle bracket of an opening tag of a raw element only. -/
  raw_after : raw ≠ none → closing = false ∧ Text.lower name ∈ rawNames
    ∧ ∃ e ∈ ending, e.text = ['>']

/-- The tokens of a tag in order. -/
def TagTokens.tokens (t : TagTokens) : List Token :=
  t.start :: (t.attributes.flatMap AttributeTokens.tokens ++ t.ending.toList ++ t.raw.toList)

/-- A token of this kind is a phrase by itself. -/
def Kind.standsAlone : Kind → Bool
  | .text | .comment | .cdata | .doctype | .instruction => true
  | _ => false

/-- The tokens of one construct, or of a piece of character data. -/
inductive Phrase where
  | single (t : Token) (h : t.kind.standsAlone = true)
  | tag (t : TagTokens)

namespace Phrase

/-- The tokens of a phrase in order. -/
def tokens : Phrase → List Token
  | single t _ => [t]
  | tag t => t.tokens

/-- The first token of a phrase. -/
def first : Phrase → Token
  | single t _ => t
  | tag t => t.start

/-- The phrase is character data. -/
def IsText : Phrase → Prop
  | single t _ => t.kind = .text
  | tag _ => False

/-- The phrase is a tag without an end. -/
def IsCut : Phrase → Prop
  | single _ _ => False
  | tag t => t.ending = none

/-- The phrase `q` may follow the phrase `p`: character data does not follow character data,
and what follows a tag without an end begins with an angle bracket. -/
def Precedes (p q : Phrase) : Prop :=
  (p.IsText → ¬ q.IsText) ∧ (p.IsCut → q.first.text.head? = some '<')

theorem tokens_eq_cons (p : Phrase) : ∃ more, p.tokens = p.first :: more := by
  cases p with
  | single t h => exact ⟨[], rfl⟩
  | tag t => exact ⟨_, rfl⟩

end Phrase

/-- A tag holds no character data. -/
theorem TagTokens.kind_ne_text {t : TagTokens} {u : Token} (h : u ∈ t.tokens) :
    u.kind ≠ .text := by
  have hattribute : ∀ a ∈ t.attributes, u ∈ a.tokens → u.kind ≠ .text := by
    intro a _ hu
    rcases List.mem_cons.mp hu with rfl | hu
    · rw [a.name_kind]
      decide
    · rw [a.value_kind u (Option.mem_toList.mp hu)]
      decide
  rcases List.mem_cons.mp h with rfl | h
  · rw [t.start_kind]
    decide
  · rcases List.mem_append.mp h with h | h
    · rcases List.mem_append.mp h with h | h
      · obtain ⟨a, ha, hu⟩ := List.mem_flatMap.mp h
        exact hattribute a ha hu
      · rw [t.ending_kind u (Option.mem_toList.mp h)]
        decide
    · rw [t.raw_kind u (Option.mem_toList.mp h)]
      decide

/-- A token of character data belongs to no tag. -/
theorem Phrase.isText_of_mem {p : Phrase} {u : Token} (h : u ∈ p.tokens)
    (hu : u.kind = .text) : p.IsText := by
  cases p with
  | single t ht =>
    obtain rfl : u = t := List.mem_singleton.mp h
    exact hu
  | tag t => exact absurd hu (TagTokens.kind_ne_text h)

/-! ## §2. The tokens of a tag. -/

theorem exists_attributeTokens (s : List Char) (offset : Nat) :
    ∃ a : AttributeTokens, place offset (attributeAt s).1 = a.tokens := by
  unfold attributeAt
  simp only
  split
  · split
    · exact ⟨⟨_, none, rfl, by simp, by simp⟩, rfl⟩
    · refine ⟨⟨⟨.attrName, _, _, _, _⟩, some ⟨.attrValue, _, _, _, _⟩, rfl, ?_, ?_⟩, rfl⟩
      · rintro v ⟨⟩
        rfl
      · rintro v ⟨⟩
        rfl
  · exact ⟨⟨_, none, rfl, by simp, by simp⟩, rfl⟩

/-- **The body of a tag has the tokens of attributes, and then that of the tag's end mark, if
it has one.** -/
theorem exists_tagBodyTokens (s : List Char) :
    ∀ offset : Nat, ∃ (attributes : List AttributeTokens) (ending : Option Token),
      place offset (tagBody s).1
        = attributes.flatMap AttributeTokens.tokens ++ ending.toList
      ∧ ending.map (fun e => (e.kind, e.text))
        = (tagBody s).2.1.mark?.map fun m => (Kind.tagEnd, m) := by
  fun_induction tagBody s with
  | case1 => exact fun offset => ⟨[], none, rfl, rfl⟩
  | case2 rest => exact fun offset => ⟨[], some _, rfl, rfl⟩
  | case3 rest => exact fun offset => ⟨[], some _, rfl, rfl⟩
  | case4 rest => exact fun offset => ⟨[], none, rfl, rfl⟩
  | case5 c rest _ _ _ hc pieces ending more he ih =>
    intro offset
    obtain ⟨a, ha⟩ := exists_attributeTokens (c :: rest) offset
    obtain ⟨attributes, e, hmore, hend⟩ := ih
      (offset + ((attributeAt (c :: rest)).1.flatMap Piece.text).length)
    rw [he] at hmore hend
    refine ⟨a :: attributes, e, ?_, hend⟩
    rw [place_append, ha, hmore, List.flatMap_cons, List.append_assoc]
  | case6 c rest _ _ _ hc pieces ending more he ih =>
    intro offset
    rw [he] at ih
    -- a stray character is a gap, and gives no token
    exact ih (offset + 1)

/-- A tag is cut at the end of the document or where an angle bracket begins. -/
theorem head?_of_cut {s : List Char} (h : (tagBody s).2.1 = .cut) :
    ∀ c ∈ (tagBody s).2.2.head?, c = '<' := by
  fun_induction tagBody s with
  | case1 => intro c hc; cases hc
  | case2 rest => cases h
  | case3 rest => cases h
  | case4 rest => rintro c ⟨⟩; rfl
  | case5 c rest _ _ _ hc pieces ending more he ih =>
    rw [he] at ih
    exact ih h
  | case6 c rest _ _ _ hc pieces ending more he ih =>
    rw [he] at ih
    exact ih h

/-- Raw contents are those of an opening tag that ends with an angle bracket. -/
theorem exists_rawToken (name : List Char) (closing : Bool) (ending : Ending) (s : List Char)
    (offset : Nat) :
    ∃ raw : Option Token, place offset (contents name closing ending s).1 = raw.toList
      ∧ (∀ r ∈ raw, r.kind = .rawText)
      ∧ (raw ≠ none → closing = false ∧ name ∈ rawNames ∧ ending = .closed) := by
  unfold contents
  split
  · next hraw =>
    simp only [Bool.and_eq_true, Bool.not_eq_true', decide_eq_true_eq,
      List.contains_iff_mem] at hraw
    simp only
    split
    · exact ⟨none, rfl, by simp, by simp⟩
    · refine ⟨some ⟨.rawText, _, _, _, _⟩, rfl, ?_, fun _ => ⟨hraw.1.1, hraw.2, hraw.1.2⟩⟩
      rintro r ⟨⟩
      rfl
  · exact ⟨none, rfl, by simp, by simp⟩

theorem contents_of_cut (name : List Char) (closing : Bool) (s : List Char) :
    contents name closing .cut s = ([], s) := by
  unfold contents
  rw [if_neg]
  simp

/-- **A tag has the tokens of one phrase.**  When it is cut, the document ends or an angle
bracket follows. -/
theorem exists_tagTokens (closing : Bool) (s : List Char) (offset : Nat) :
    ∃ t : TagTokens, place offset (tag closing s).1 = t.tokens ∧ t.closing = closing
      ∧ (t.ending = none → ∀ c ∈ (tag closing s).2.head?, c = '<') := by
  obtain ⟨name, rest, hname, htag⟩ := tag_eq closing s
  generalize hmark : (if closing then ['<', '/'] else ['<']) = mark at htag
  obtain ⟨attributes, e, hbody, hend⟩ :=
    exists_tagBodyTokens rest (offset + (mark ++ name).length)
  obtain ⟨raw, hraw, hkind, hafter⟩ :=
    exists_rawToken (Text.lower name) closing (tagBody rest).2.1 (tagBody rest).2.2
      (offset + (mark ++ name).length + ((tagBody rest).1.flatMap Piece.text).length)
  have hending : ∀ u ∈ e, u.kind = .tagEnd := by
    rintro u ⟨⟩
    cases hm : (tagBody rest).2.1.mark? with
    | none => rw [hm] at hend; cases hend
    | some m =>
      rw [hm] at hend
      exact congrArg Prod.fst (Option.some.inj hend)
  refine ⟨⟨⟨.tagStart, offset, offset + (mark ++ name).length, mark ++ name,
    some (Text.lower name)⟩, attributes, e, raw, closing, name, rfl, ?_, rfl, hname, hending,
    hkind, ?_⟩, ?_, rfl, ?_⟩
  · rw [hmark]
  · intro hne
    obtain ⟨hclosing, hmem, hclosed⟩ := hafter hne
    rw [hclosed] at hend
    obtain ⟨u, hu, htext⟩ := Option.map_eq_some_iff.mp hend
    exact ⟨hclosing, hmem, u, hu, congrArg Prod.snd htext⟩
  · rw [htag]
    show _ :: place _ _ = _ :: _
    rw [place_append, hbody, hraw]
  · rintro rfl
    -- without an end mark the tag is cut, and then it has no raw contents
    have hcut : (tagBody rest).2.1 = .cut :=
      Ending.eq_cut_of_mark? (Option.map_eq_none_iff.mp hend.symm)
    have hhead := head?_of_cut hcut
    rw [htag]
    simp only
    rw [hcut, contents_of_cut]
    exact hhead

/-! ## §3. The phrases of a document. -/

theorem opening?_of_characterData (s : List Char) :
    (characterData s).2 = [] ∨ (opening? (characterData s).2).isSome = true :=
  (upTo_characterData.stops_at s).2

/-- The phrase may stand at the head of the text. -/
def Phrase.Begins (p : Phrase) (s : List Char) : Prop :=
  p.first.text.head? = s.head? ∧ (p.IsText → opening? s = none)

/-- The phrase may leave over the text. -/
def Phrase.Leaves (p : Phrase) (s : List Char) : Prop :=
  (p.IsText → s = [] ∨ (opening? s).isSome = true)
    ∧ (p.IsCut → ∀ c ∈ s.head?, c = '<')

theorem Phrase.Leaves.precedes {p q : Phrase} {c : Char} {rest : List Char}
    (hp : p.Leaves (c :: rest)) (hq : q.Begins (c :: rest)) : p.Precedes q := by
  constructor
  · intro hptext hqtext
    rcases hp.1 hptext with h | h
    · cases h
    · rw [hq.2 hqtext] at h
      cases h
  · intro hcut
    rw [hq.1, ← hp.2 hcut c rfl]
    rfl

/-- **A construct has the tokens of one phrase**, which fits the text before and after it. -/
theorem exists_phrase (c : Char) (rest : List Char) (offset : Nat) :
    ∃ p : Phrase, place offset (construct c rest).1 = p.tokens ∧ p.Begins (c :: rest)
      ∧ p.Leaves (construct c rest).2 := by
  unfold construct
  cases ho : opening? (c :: rest) with
  | none =>
    refine ⟨.single ⟨.text, _, _, c :: (characterData rest).1, none⟩ rfl, rfl, ⟨rfl, fun _ => ho⟩,
      fun _ => opening?_of_characterData rest, fun h => h.elim⟩
  | some o =>
    cases o with
    | fenced kind mark closing =>
      obtain ⟨hfence, hmark⟩ := fence_of_opening? ho
      have hkind : ∀ f ∈ fences, f.1.standsAlone = true ∧ f.1 ≠ .text := by decide
      obtain ⟨halone, htext⟩ := hkind _ hfence
      have hhead : (fenced mark closing (c :: rest)).1.head? = some c := by
        obtain ⟨d, mark', rfl⟩ := List.exists_cons_of_ne_nil (mark_of_fenced ho)
        rfl
      exact ⟨.single ⟨kind, _, _, (fenced mark closing (c :: rest)).1, none⟩ halone, rfl,
        ⟨hhead, fun h => absurd h htext⟩, fun h => absurd h htext, fun h => h.elim⟩
    | tag closing =>
      obtain ⟨t, htokens, hclosing, hcut⟩ := exists_tagTokens closing (c :: rest) offset
      refine ⟨.tag t, htokens, ⟨?_, fun h => h.elim⟩, fun h => h.elim, hcut⟩
      show t.start.text.head? = some c
      rw [t.start_text, opening?_head ho]
      cases t.closing <;> rfl

theorem exists_phrases (s : List Char) :
    ∀ offset : Nat, ∃ ps : List Phrase, place offset (pieces s) = ps.flatMap Phrase.tokens
      ∧ ps.IsChain Phrase.Precedes ∧ ∀ p ∈ ps.head?, p.Begins s := by
  fun_induction pieces s with
  | case1 => exact fun offset => ⟨[], rfl, List.IsChain.nil, by simp⟩
  | case2 c rest ih =>
    intro offset
    obtain ⟨p, hp, hbegins, hleaves⟩ := exists_phrase c rest offset
    obtain ⟨ps, hps, hchain, hfirst⟩ :=
      ih (offset + ((construct c rest).1.flatMap Piece.text).length)
    refine ⟨p :: ps, ?_, ?_, ?_⟩
    · rw [place_append, hp, hps, List.flatMap_cons]
    · -- what is left over is not empty when a phrase follows
      refine List.isChain_cons.mpr ⟨?_, hchain⟩
      intro q hq
      cases hmore : (construct c rest).2 with
      | nil =>
        rw [hmore, pieces] at hps
        cases ps with
        | nil => cases hq
        | cons q' ps' =>
          obtain ⟨more, hmore⟩ := q'.tokens_eq_cons
          rw [List.flatMap_cons, hmore] at hps
          cases hps
      | cons d more =>
        rw [hmore] at hleaves hfirst
        exact hleaves.precedes (hfirst q hq)
    · rintro q ⟨⟩
      exact hbegins

/-- How phrases make up tokens. -/
structure Grammar (ts : List Token) (ps : List Phrase) : Prop where
  tokens_eq : ts = ps.flatMap Phrase.tokens
  /-- Each phrase may follow the phrase before it. -/
  chain : ps.IsChain Phrase.Precedes
  /-- Two tokens of character data are never adjacent. -/
  apart : ts.IsChain fun t u => ¬ (t.kind = .text ∧ u.kind = .text)

/-- Phrases that may follow each other keep tokens of character data apart. -/
theorem apart_of_chain {ps : List Phrase} (h : ps.IsChain Phrase.Precedes) :
    (ps.flatMap Phrase.tokens).IsChain fun t u => ¬ (t.kind = .text ∧ u.kind = .text) := by
  have hne : [] ∉ ps.map Phrase.tokens := by
    intro hmem
    obtain ⟨p, -, hp⟩ := List.mem_map.mp hmem
    obtain ⟨more, hmore⟩ := p.tokens_eq_cons
    rw [hmore] at hp
    cases hp
  rw [List.flatMap_def, List.isChain_flatten hne]
  constructor
  · intro l hl
    obtain ⟨p, -, rfl⟩ := List.mem_map.mp hl
    cases p with
    | single t ht => exact List.IsChain.singleton t
    | tag t =>
      refine (List.pairwise_of_forall_mem_list fun u hu v _ hboth => ?_).isChain
      exact TagTokens.kind_ne_text hu hboth.1
  · refine List.isChain_map_of_isChain Phrase.tokens ?_ h
    rintro p q ⟨hpq, -⟩ t ht u hu ⟨htext, hutext⟩
    exact hpq (Phrase.isText_of_mem (List.mem_of_getLast? ht) htext)
      (Phrase.isText_of_mem (List.mem_of_head? hu) hutext)

/-- **The tokens of every document are phrases that may follow each other.** -/
theorem exists_grammar (s : List Char) : ∃ ps : List Phrase, Grammar (tokens s) ps := by
  obtain ⟨ps, hps, hchain, -⟩ := exists_phrases s 0
  refine ⟨ps, hps, hchain, ?_⟩
  show (place 0 (pieces s)).IsChain _
  rw [hps]
  exact apart_of_chain hchain

end EmbeddedExpr.Markup
