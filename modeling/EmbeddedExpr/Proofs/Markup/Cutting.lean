/-
  EmbeddedExpr.Proofs.Markup.Cutting
  ──────────────────────────────────
  **A DOCUMENT MAY BE CUT WHERE A CONSTRUCT ENDS.**

  `Reads s ps rest` says that some whole constructs at the head of a text have the pieces
  `ps` and leave `rest` over.  The constructs of a sealed text are the same without what
  follows it:

      Reads (a ++ b) ps b  →  Sealed a b  →  Reads a ps []

  A token that ends a construct with an end mark seals the text before its end, so the tokens
  of a document come apart there:

      tokens s = before ++ t :: after  →  EndsConstruct before t
        →  tokens s = tokens (s.take t.stop) ++ (tokens (s.drop t.stop)).map (·.shift t.stop)
-/
import EmbeddedExpr.Proofs.Markup.Coverage
import EmbeddedExpr.Proofs.Markup.Sealed
import Mathlib.Data.List.Basic

namespace EmbeddedExpr.Markup

/-! ## §1. Whole constructs. -/

/-- Some whole constructs at the head of a text, by their pieces, and what they leave over. -/
inductive Reads : List Char → List Piece → List Char → Prop where
  | done (s : List Char) : Reads s [] s
  | next {c : Char} {rest left : List Char} {ps : List Piece}
      (h : Reads (construct c rest).2 ps left) :
      Reads (c :: rest) ((construct c rest).1 ++ ps) left

theorem Reads.text {s left : List Char} {ps : List Piece} (h : Reads s ps left) :
    ps.flatMap Piece.text ++ left = s := by
  induction h with
  | done s => rfl
  | @next c rest left ps _ ih =>
    rw [List.flatMap_append, List.append_assoc, ih, construct_append]

/-- The pieces of a text go on with those of what is left over. -/
theorem Reads.pieces {s left : List Char} {ps : List Piece} (h : Reads s ps left) :
    pieces s = ps ++ pieces left := by
  induction h with
  | done s => rfl
  | @next c rest left ps _ ih => rw [Markup.pieces, ih, List.append_assoc]

/-- Whole constructs may go on with one more. -/
theorem Reads.snoc {s rest : List Char} {ps : List Piece} {c : Char} (h : Reads s ps (c :: rest)) :
    Reads s (ps ++ (construct c rest).1) (construct c rest).2 := by
  generalize hleft : c :: rest = left at h
  induction h with
  | done s =>
    rw [← hleft, List.nil_append, ← List.append_nil (construct c rest).1]
    exact .next (.done _)
  | next _ ih =>
    rw [List.append_assoc]
    exact .next (ih hleft)

/-- **Each piece of a document is one of a construct**, and whole constructs stand before it. -/
theorem exists_construct_of_piece {s : List Char} {p : Piece} {back : List Piece} :
    ∀ {front : List Piece}, pieces s = front ++ p :: back →
      ∃ (earlier inner more : List Piece) (c : Char) (rest : List Char),
        Reads s earlier (c :: rest) ∧ front = earlier ++ inner
          ∧ (construct c rest).1 = inner ++ p :: more := by
  fun_induction pieces s with
  | case1 =>
    intro front h
    exact absurd h.symm (List.append_ne_nil_of_right_ne_nil _ (List.cons_ne_nil _ _))
  | case2 c rest ih =>
    intro front h
    -- a piece of a later construct is found there, after all of the first construct
    have later : ∀ {front' : List Piece}, front = (construct c rest).1 ++ front' →
        pieces (construct c rest).2 = front' ++ p :: back →
        ∃ (earlier inner more : List Piece) (d : Char) (rest' : List Char),
          Reads (c :: rest) earlier (d :: rest') ∧ front = earlier ++ inner
            ∧ (construct d rest').1 = inner ++ p :: more := by
      intro front' hfront hmore
      obtain ⟨earlier, inner, more, d, rest', hreads, rfl, hpiece⟩ := ih hmore
      refine ⟨(construct c rest).1 ++ earlier, inner, more, d, rest', .next hreads, ?_, hpiece⟩
      rw [hfront, List.append_assoc]
    rcases List.append_eq_append_iff.mp h with ⟨front', hfront, hmore⟩ | ⟨more, hfirst, hmore⟩
    · exact later hfront hmore
    · cases more with
      | nil => exact @later [] (by rw [hfirst, List.append_nil, List.append_nil]) hmore.symm
      | cons q more =>
        obtain ⟨rfl, -⟩ := List.cons.inj hmore
        exact ⟨[], front, more, c, rest, .done _, rfl, hfirst⟩

theorem Reads.length_le {s left : List Char} {ps : List Piece} (h : Reads s ps left) :
    left.length ≤ s.length :=
  List.IsSuffix.length_le ⟨_, h.text⟩

/-- **The constructs that make up a sealed text are the same without what follows it.** -/
theorem Reads.of_append {s b : List Char} {ps : List Piece} (h : Reads s ps b) :
    ∀ {a : List Char}, s = a ++ b → (a ≠ [] → Sealed a b) → Reads a ps [] := by
  induction h with
  | done s =>
    intro a hs _
    obtain rfl : a = [] := List.append_left_eq_self.mp hs.symm
    exact .done []
  | @next c rest left ps hr ih =>
    intro a hs ha
    have hle := hr.length_le
    cases a with
    | nil =>
      -- the first construct is not empty, so less than all is left over
      obtain rfl : c :: rest = left := hs
      have := length_construct c rest
      omega
    | cons d a =>
      obtain ⟨rfl, hrest⟩ := List.cons.inj hs
      have hrest : rest = a ++ left := hrest
      subst hrest
      have ha := ha (List.cons_ne_nil c a)
      have hc := construct_append_of_le ha (SameStart.refl left) hle
      have hs' : (construct c a).2 ≠ [] → Sealed (construct c a).2 left :=
        ha.suffix ⟨_, construct_append c a⟩
      rw [hc]
      rw [hc] at ih
      exact .next (ih rfl hs')

/-- Constructs that seal their text, or leave nothing over, are all of their text. -/
theorem Reads.pieces_flatMap {s left : List Char} {ps : List Piece} (h : Reads s ps left)
    (hend : left = [] ∨ Sealed (ps.flatMap Piece.text) left) :
    Markup.pieces (ps.flatMap Piece.text) = ps := by
  have htext := h.text
  rcases hend with rfl | hs
  · rw [List.append_nil] at htext
    rw [htext, h.pieces, Markup.pieces, List.append_nil]
  · rw [(h.of_append htext.symm fun _ => hs).pieces, Markup.pieces, List.append_nil]

/-! ## §2. Ends of constructs among tokens. -/

/-- The last tag begun among tokens. -/
def lastTag? (ts : List Token) : Option Token :=
  (ts.filter fun t => t.kind = .tagStart).getLast?

/-- The token begins a tag that opens a raw element. -/
def Token.opensRaw (t : Token) : Bool :=
  rawNames.contains (t.name.getD []) && !(['<', '/'].isPrefixOf t.text)

/-- No name begins with a slash, so a bracket and the name of a raw element open it. -/
theorem Token.opensRaw_of_text {u : Token} {name written : List Char} (hname : u.name = some name)
    (hraw : name ∈ rawNames) (htext : u.text = '<' :: written)
    (hchars : ∀ c ∈ written, isTagChar c = true) : u.opensRaw = true := by
  have hslash : ['<', '/'].isPrefixOf u.text = false := by
    rw [htext]
    cases written with
    | nil => rfl
    | cons c written =>
      have hc : c ≠ '/' := by
        rintro rfl
        exact absurd (hchars '/' List.mem_cons_self) (by decide +kernel)
      simp [List.isPrefixOf, Ne.symm hc]
  rw [Token.opensRaw, hname, hslash]
  simpa using hraw

/-- The token is the angle bracket that ends the opening tag of a raw element. -/
def EndsRawTag (before : List Token) (t : Token) : Prop :=
  t.text = ['>'] ∧ ∃ u ∈ lastTag? before, u.opensRaw = true

instance (before : List Token) (t : Token) : Decidable (EndsRawTag before t) :=
  inferInstanceAs (Decidable (t.text = ['>'] ∧ ∃ u ∈ lastTag? before, u.opensRaw = true))

/-- The token ends a construct that has an end mark; `before` are the tokens before it. -/
def EndsConstruct (before : List Token) (t : Token) : Prop :=
  t.kind = .comment ∨ t.kind = .cdata ∨ t.kind = .doctype ∨ t.kind = .instruction
    ∨ (t.kind = .tagEnd ∧ ¬ EndsRawTag before t)

instance (before : List Token) (t : Token) : Decidable (EndsConstruct before t) :=
  inferInstanceAs (Decidable (t.kind = .comment ∨ t.kind = .cdata ∨ t.kind = .doctype
    ∨ t.kind = .instruction ∨ (t.kind = .tagEnd ∧ ¬ EndsRawTag before t)))

theorem EndsConstruct.kind_ne {before : List Token} {t : Token} (h : EndsConstruct before t) :
    t.kind ≠ .text ∧ t.kind ≠ .tagStart ∧ t.kind ≠ .attrName ∧ t.kind ≠ .attrValue
      ∧ t.kind ≠ .rawText := by
  rcases h with h | h | h | h | ⟨h, -⟩ <;> rw [h] <;> decide

/-- A tag's end that ends a construct does not open a raw element. -/
theorem EndsConstruct.of_tagEnd {before : List Token} {t : Token} (h : EndsConstruct before t)
    (hk : t.kind = .tagEnd) : ¬ EndsRawTag before t := by
  rcases h with h | h | h | h | ⟨-, h⟩
  · exact absurd (h.symm.trans hk) (by decide)
  · exact absurd (h.symm.trans hk) (by decide)
  · exact absurd (h.symm.trans hk) (by decide)
  · exact absurd (h.symm.trans hk) (by decide)
  · exact h

theorem lastTag?_append_cons {t : Token} {ts : List Token} (us : List Token)
    (ht : t.kind = .tagStart) (hts : ∀ u ∈ ts, u.kind ≠ .tagStart) :
    lastTag? (us ++ t :: ts) = some t := by
  have hnil : ts.filter (fun t => t.kind = .tagStart) = [] := by
    rw [List.filter_eq_nil_iff]
    intro u hu
    simp only [decide_eq_true_eq]
    exact hts u hu
  unfold lastTag?
  rw [List.filter_append, List.filter_cons_of_pos (by simp only [decide_eq_true_eq]; exact ht),
    hnil, List.getLast?_append]
  rfl

/-- Placed tokens are split where their pieces are. -/
theorem place_eq_append_cons {t : Token} {after : List Token} {ps : List Piece} :
    ∀ {offset : Nat} {before : List Token}, place offset ps = before ++ t :: after →
      ∃ front back, ps = front ++ .token t.kind t.text t.name :: back
        ∧ place offset front = before
        ∧ t.start = offset + (front.flatMap Piece.text).length
        ∧ t.stop = t.start + t.text.length := by
  induction ps with
  | nil =>
    intro offset before h
    exact absurd h.symm (List.append_ne_nil_of_right_ne_nil _ (List.cons_ne_nil _ _))
  | cons p more ih =>
    intro offset before h
    cases p with
    | gap text =>
      obtain ⟨front, back, rfl, hfront, hstart, hstop⟩ := ih h
      refine ⟨.gap text :: front, back, rfl, hfront, ?_, hstop⟩
      rw [hstart, List.flatMap_cons, List.length_append, Nat.add_assoc offset]
      rfl
    | token kind text name =>
      cases before with
      | nil =>
        obtain ⟨rfl, -⟩ := List.cons.inj h
        exact ⟨[], more, rfl, rfl, rfl, rfl⟩
      | cons u before =>
        obtain ⟨rfl, hmore⟩ := List.cons.inj h
        obtain ⟨front, back, rfl, hfront, hstart, hstop⟩ := ih hmore
        refine ⟨.token kind text name :: front, back, rfl, ?_, ?_, hstop⟩
        · rw [place, hfront]
        · rw [hstart, List.flatMap_cons, List.length_append, Nat.add_assoc offset]
          rfl

theorem piece_of_mem_place {t : Token} {ps : List Piece} {offset : Nat}
    (h : t ∈ place offset ps) : .token t.kind t.text t.name ∈ ps := by
  obtain ⟨before, after, hts⟩ := List.append_of_mem h
  obtain ⟨front, back, rfl, -⟩ := place_eq_append_cons hts
  exact List.mem_append_right front List.mem_cons_self

/-- The piece is a gap, or a part of an attribute. -/
def Piece.IsAttr : Piece → Prop
  | .gap _ => True
  | .token kind _ _ => kind = .attrName ∨ kind = .attrValue

/-- A token of another kind is no part of an attribute. -/
theorem Piece.not_isAttr {kind : Kind} {text : List Char} {name : Option (List Char)}
    (hname : kind ≠ .attrName) (hvalue : kind ≠ .attrValue) :
    ¬ (Piece.token kind text name).IsAttr := by
  intro h
  rcases h with hk | hk
  · exact hname hk
  · exact hvalue hk

/-- The end mark of a tag. -/
def Ending.mark? : Ending → Option (List Char)
  | .closed => some ['>']
  | .selfClosed => some ['/', '>']
  | .cut => none

theorem Ending.getLast?_of_mark? {ending : Ending} {m : List Char} (h : ending.mark? = some m) :
    m.getLast? = some '>' := by
  cases ending with
  | closed => rw [← Option.some.inj h]; rfl
  | selfClosed => rw [← Option.some.inj h]; rfl
  | cut => cases h

theorem Ending.eq_cut_of_mark? {ending : Ending} (h : ending.mark? = none) : ending = .cut := by
  cases ending with
  | closed => cases h
  | selfClosed => cases h
  | cut => rfl

theorem isAttr_of_mem_attributeAt {s : List Char} {p : Piece} (h : p ∈ (attributeAt s).1) :
    p.IsAttr := by
  simp only [attributeAt] at h
  split at h
  · split at h
    · simp only [List.mem_cons, List.not_mem_nil, or_false] at h
      rcases h with rfl | rfl
      · exact Or.inl rfl
      · trivial
    · simp only [List.mem_cons, List.not_mem_nil, or_false] at h
      rcases h with rfl | rfl | rfl
      · exact Or.inl rfl
      · trivial
      · exact Or.inr rfl
  · rw [List.mem_singleton.mp h]
    exact Or.inl rfl

/-- **The body of a tag is gaps and attributes, and then the tag's end mark, if it has one.** -/
theorem tagBody_pieces (s : List Char) :
    ∃ inner, (∀ p ∈ inner, p.IsAttr) ∧ (tagBody s).1 =
      inner ++ ((tagBody s).2.1.mark?.map fun m => Piece.token .tagEnd m none).toList := by
  fun_induction tagBody s with
  | case1 => exact ⟨[], by simp, rfl⟩
  | case2 rest => exact ⟨[], by simp, rfl⟩
  | case3 rest => exact ⟨[], by simp, rfl⟩
  | case4 rest => exact ⟨[], by simp, rfl⟩
  | case5 c rest _ _ _ hc pieces ending more he ih =>
    obtain ⟨inner, hinner, heq⟩ := ih
    rw [he] at heq
    simp only at heq
    refine ⟨(attributeAt (c :: rest)).1 ++ inner, ?_, ?_⟩
    · intro p hp
      rcases List.mem_append.mp hp with hp | hp
      · exact isAttr_of_mem_attributeAt hp
      · exact hinner p hp
    · rw [heq, List.append_assoc]
  | case6 c rest _ _ _ hc pieces ending more he ih =>
    obtain ⟨inner, hinner, heq⟩ := ih
    rw [he] at heq
    simp only at heq
    refine ⟨.gap [c] :: inner, ?_, ?_⟩
    · intro p hp
      rcases List.mem_cons.mp hp with rfl | hp
      · trivial
      · exact hinner p hp
    · rw [heq, List.cons_append]

/-! ## §3. The last piece of a construct. -/

/-- A fenced construct ends with the angle bracket of its end mark, or with the document. -/
theorem fenced_ends {kind : Kind} {mark closing s t : List Char}
    (h : opening? t = some (.fenced kind mark closing)) :
    (fenced mark closing s).2 = [] ∨ (fenced mark closing s).1.getLast? = some '>' := by
  have hall : ∀ f ∈ fences, f.2.2.getLast? = some '>' := by decide
  have hclosing : closing.getLast? = some '>' := hall _ (fence_of_opening? h).1
  unfold fenced Text.throughMark
  cases Text.cut? closing (s.drop mark.length) with
  | none => exact Or.inl rfl
  | some found =>
    refine Or.inr ?_
    show (s.take mark.length ++ (found.1 ++ closing)).getLast? = some '>'
    rw [List.getLast?_append, List.getLast?_append, hclosing]
    rfl

/-- A tag is its start with its name, its body, and raw contents. -/
theorem tag_eq (closing : Bool) (s : List Char) :
    ∃ name rest : List Char, (∀ c ∈ name, isTagChar c = true)
      ∧ tag closing s = (.token .tagStart ((if closing then ['<', '/'] else ['<']) ++ name)
            (some (Text.lower name)) :: ((tagBody rest).1
              ++ (contents (Text.lower name) closing (tagBody rest).2.1 (tagBody rest).2.2).1),
          (contents (Text.lower name) closing (tagBody rest).2.1 (tagBody rest).2.2).2) :=
  ⟨_, _, fun c hc => List.all_eq_true.mp List.all_takeWhile c hc, rfl⟩

/-- **The pieces of a tag.**  They are its start, gaps and attributes, its end mark, if it has
one, and raw contents. -/
theorem tag_pieces (closing : Bool) (s : List Char) :
    ∃ (name : List Char) (inner : List Piece) (ending : Ending) (rest : List Char),
      (∀ c ∈ name, isTagChar c = true) ∧ (∀ p ∈ inner, p.IsAttr)
      ∧ (tag closing s).1 = .token .tagStart ((if closing then ['<', '/'] else ['<']) ++ name)
          (some (Text.lower name)) :: (inner
            ++ (ending.mark?.map fun m => Piece.token .tagEnd m none).toList
            ++ (contents (Text.lower name) closing ending rest).1) := by
  obtain ⟨name, rest, hname, heq⟩ := tag_eq closing s
  obtain ⟨inner, hinner, hbody⟩ := tagBody_pieces rest
  refine ⟨name, inner, (tagBody rest).2.1, (tagBody rest).2.2, hname, hinner, ?_⟩
  rw [heq, hbody]

/-- Raw contents are one token of their kind, or none. -/
theorem kind_of_mem_contents {name text : List Char} {closing : Bool} {ending : Ending}
    {s : List Char} {kind : Kind} {o : Option (List Char)}
    (h : Piece.token kind text o ∈ (contents name closing ending s).1) : kind = .rawText := by
  unfold contents at h
  split at h
  · simp only at h
    split at h
    · cases h
    · exact (Piece.token.inj (List.mem_singleton.mp h)).1
  · cases h

/-- A tag whose end mark does not end the opening tag of a raw element has no raw contents. -/
theorem contents_of_not_endsRawTag {before between : List Token} {u t : Token}
    {name s : List Char} {closing : Bool} {ending : Ending}
    (hu : u.kind = .tagStart) (hname : u.name = some (Text.lower name))
    (htext : u.text = (if closing then ['<', '/'] else ['<']) ++ name)
    (hchars : ∀ c ∈ name, isTagChar c = true) (hbetween : ∀ v ∈ between, v.kind ≠ .tagStart)
    (ht : ending.mark? = some t.text) (h : ¬ EndsRawTag (before ++ u :: between) t) :
    (contents (Text.lower name) closing ending s).1 = [] := by
  unfold contents
  rw [if_neg]
  intro hraw
  simp only [Bool.and_eq_true, Bool.not_eq_true', decide_eq_true_eq] at hraw
  obtain ⟨⟨rfl, rfl⟩, hnames⟩ := hraw
  refine h ⟨(Option.some.inj ht).symm, u, lastTag?_append_cons before hu hbetween, ?_⟩
  exact Token.opensRaw_of_text hname (List.contains_iff_mem.mp hnames) htext hchars

/-- The end mark is the last piece of a tag that opens no raw element, and nothing else in a
tag ends a construct. -/
theorem tag_ends {closing : Bool} {s : List Char} {front back : List Piece} {offset : Nat}
    {earlier : List Token} {t : Token}
    (h : (tag closing s).1 = front ++ .token t.kind t.text t.name :: back)
    (he : EndsConstruct (earlier ++ place offset front) t) :
    back = [] ∧ t.text.getLast? = some '>' := by
  obtain ⟨name, inner, ending, rest, hname, hinner, hpieces⟩ := tag_pieces closing s
  obtain ⟨-, hstart, hattr, hvalue, hraw⟩ := he.kind_ne
  have hnotInner : Piece.token t.kind t.text t.name ∉ inner := by
    intro hmem
    exact Piece.not_isAttr hattr hvalue (hinner _ hmem)
  have hnotRaw : Piece.token t.kind t.text t.name
      ∉ (contents (Text.lower name) closing ending rest).1 :=
    fun hmem => hraw (kind_of_mem_contents hmem)
  rw [hpieces, ← List.cons_append, ← List.cons_append] at h
  have hnotStart : Piece.token t.kind t.text t.name ∉ Piece.token .tagStart
      ((if closing then ['<', '/'] else ['<']) ++ name) (some (Text.lower name)) :: inner := by
    intro hmem
    rcases List.mem_cons.mp hmem with heq | hmem
    · exact hstart (Piece.token.inj heq).1
    · exact hnotInner hmem
  -- `t` is no part of an attribute and no raw text, so it can only be the end mark
  cases hm : ending.mark? with
  | none =>
    -- a tag that is cut has no piece that could end a construct
    have hmem := h ▸ List.mem_append_right front
      (List.mem_cons_self (a := Piece.token t.kind t.text t.name) (l := back))
    rw [hm, Option.map_none, Option.toList_none, List.append_nil] at hmem
    rcases List.mem_append.mp hmem with hmem | hmem
    · exact absurd hmem hnotStart
    · exact absurd hmem hnotRaw
  | some m =>
    rw [hm, Option.map_some, Option.toList_some, List.append_assoc, List.singleton_append,
      List.append_cons_inj_of_notMem hnotStart hnotRaw] at h
    obtain ⟨rfl, hmark, rfl⟩ := h
    obtain ⟨hkind, rfl, -⟩ := Piece.token.inj hmark
    have hno := he.of_tagEnd hkind.symm
    refine ⟨?_, ?_⟩
    · refine contents_of_not_endsRawTag rfl rfl rfl hname ?_ hm hno
      intro v hv hk
      -- a piece of an attribute does not start a tag
      have hp := hinner _ (piece_of_mem_place hv)
      rw [hk] at hp
      exact Piece.not_isAttr (by decide) (by decide) hp
    · exact Ending.getLast?_of_mark? hm

theorem construct_ends {c : Char} {rest : List Char} {front back : List Piece} {offset : Nat}
    {earlier : List Token} {t : Token}
    (h : (construct c rest).1 = front ++ .token t.kind t.text t.name :: back)
    (he : EndsConstruct (earlier ++ place offset front) t) :
    back = [] ∧ ((construct c rest).2 = [] ∨ t.text.getLast? = some '>') := by
  unfold construct at h ⊢
  cases ho : opening? (c :: rest) with
  | none =>
    simp only [ho] at h
    obtain ⟨-, hx⟩ | ⟨-, hx⟩ := List.append_eq_singleton_iff.mp h.symm
    · exact absurd (Piece.token.inj (List.cons.inj hx).1).1 he.kind_ne.1
    · cases hx
  | some o =>
    cases o with
    | fenced kind mark closing =>
      simp only [ho] at h ⊢
      obtain ⟨-, hx⟩ | ⟨-, hx⟩ := List.append_eq_singleton_iff.mp h.symm
      · obtain ⟨hpiece, rfl⟩ := List.cons.inj hx
        rw [(Piece.token.inj hpiece).2.1]
        exact ⟨rfl, fenced_ends ho⟩
      · cases hx
    | tag closing =>
      simp only [ho] at h ⊢
      exact ⟨(tag_ends h he).1, Or.inr (tag_ends h he).2⟩

/-! ## §4. Cutting a document. -/

/-- **What stands up to the end of a construct are whole constructs.**  After them nothing is
left, or the last of them has an angle bracket for its last character. -/
theorem reads_of_endsConstruct {s : List Char} {t : Token} {front back : List Piece}
    (h : pieces s = front ++ .token t.kind t.text t.name :: back)
    (he : EndsConstruct (place 0 front) t) :
    ∃ left, Reads s (front ++ [.token t.kind t.text t.name]) left
      ∧ (left = [] ∨ t.text.getLast? = some '>') := by
  obtain ⟨earlier, inner, more, c, rest, hreads, rfl, hpiece⟩ := exists_construct_of_piece h
  rw [place_append] at he
  obtain ⟨rfl, hend⟩ := construct_ends hpiece he
  refine ⟨(construct c rest).2, ?_, hend⟩
  rw [List.append_assoc, ← hpiece]
  exact hreads.snoc

/-- The token in a document that stands after `n` more characters. -/
def Token.shift (t : Token) (n : Nat) : Token := { t with start := n + t.start, stop := n + t.stop }

theorem place_shift (n : Nat) (ps : List Piece) :
    ∀ offset : Nat, place (n + offset) ps = (place offset ps).map fun t => t.shift n := by
  induction ps with
  | nil => intro offset; rfl
  | cons p more ih =>
    intro offset
    cases p with
    | gap text =>
      show place (n + offset + text.length) more = _
      rw [Nat.add_assoc]
      exact ih (offset + text.length)
    | token kind text name =>
      show _ :: place (n + offset + text.length) more = _
      rw [Nat.add_assoc, ih (offset + text.length)]
      rfl

/-- Where whole constructs end with a token, they are the text up to there, and the document goes
on with what they leave over. -/
theorem Reads.split {s left : List Char} {front : List Piece} {t : Token}
    (h : Reads s (front ++ [.token t.kind t.text t.name]) left)
    (hstart : t.start = (front.flatMap Piece.text).length)
    (hstop : t.stop = t.start + t.text.length) :
    s.take t.stop = (front ++ [Piece.token t.kind t.text t.name]).flatMap Piece.text
      ∧ s.drop t.stop = left
      ∧ tokens s = place 0 front ++ t :: place t.stop (Markup.pieces left) := by
  have hlen : ((front ++ [Piece.token t.kind t.text t.name]).flatMap Piece.text).length
      = t.stop := by
    rw [List.flatMap_append, List.flatMap_singleton, List.length_append, hstop, hstart]
    rfl
  refine ⟨?_, ?_, ?_⟩
  · rw [← h.text, ← hlen, List.take_left]
  · rw [← h.text, ← hlen, List.drop_left]
  · show place 0 (Markup.pieces s) = _
    rw [h.pieces, place_append, hlen, place_append, Nat.zero_add, Nat.zero_add, ← hstart,
      List.append_assoc, place, place, ← hstop]
    rfl

/-- **A document is cut at the end of a construct.**  The tokens up to there are those of the
text up to there, and the tokens after it are those of the rest. -/
theorem tokens_of_endsConstruct {s : List Char} {before after : List Token} {t : Token}
    (h : tokens s = before ++ t :: after) (he : EndsConstruct before t) :
    tokens (s.take t.stop) = before ++ [t]
      ∧ tokens s = tokens (s.take t.stop)
        ++ (tokens (s.drop t.stop)).map fun u => u.shift t.stop := by
  obtain ⟨front, back, hps, hfront, hstart, hstop⟩ := place_eq_append_cons h
  rw [Nat.zero_add] at hstart
  rw [← hfront] at he
  obtain ⟨left, hreads, hleft⟩ := reads_of_endsConstruct hps he
  obtain ⟨htake, hdrop, htokens⟩ := hreads.split hstart hstop
  have hpieces : pieces (s.take t.stop) = front ++ [.token t.kind t.text t.name] := by
    rw [htake]
    -- the last character of the constructs is the one of `t`
    refine hreads.pieces_flatMap (hleft.imp_right fun hgt => Or.inl ?_)
    rw [List.flatMap_append, List.flatMap_singleton, List.getLast?_append, Piece.text, hgt]
    rfl
  have hfirst : tokens (s.take t.stop) = before ++ [t] := by
    show place 0 (pieces (s.take t.stop)) = before ++ [t]
    rw [hpieces, place_append, hfront, Nat.zero_add, ← hstart, place, place, ← hstop]
  refine ⟨hfirst, ?_⟩
  rw [hfirst, hdrop, htokens, hfront, List.append_assoc,
    show place t.stop (pieces left) = place (t.stop + 0) (pieces left) from rfl, place_shift]
  rfl

/-- A construct with an end mark ends at the offset. -/
def ConstructEndsAt (s : List Char) (n : Nat) : Prop :=
  ∃ before t after, tokens s = before ++ t :: after ∧ t.stop = n ∧ EndsConstruct before t

/-- **Lexing is compositional where a construct ends.**  The tokens of a document are those of
its first part, and those of its rest at their places in the document. -/
theorem tokens_eq_append_of_constructEndsAt {s : List Char} {n : Nat} (h : ConstructEndsAt s n) :
    tokens s = tokens (s.take n) ++ (tokens (s.drop n)).map fun t => t.shift n := by
  obtain ⟨before, t, after, htokens, rfl, he⟩ := h
  exact (tokens_of_endsConstruct htokens he).2

/-- After a comment the document goes on with a tag that has no end. -/
theorem tokens_eq_append_of_constructEndsAt_comment :
    ConstructEndsAt "<p>a<!-- b --><i".toList 14
      ∧ tokens "<p>a<!-- b --><i".toList = tokens ("<p>a<!-- b --><i".toList.take 14)
        ++ (tokens ("<p>a<!-- b --><i".toList.drop 14)).map fun t => t.shift 14 := by
  have hend : ConstructEndsAt "<p>a<!-- b --><i".toList 14 :=
    ⟨(tokens "<p>a<!-- b --><i".toList).take 3,
      ⟨.comment, 4, 14, "<!-- b -->".toList, none⟩,
      (tokens "<p>a<!-- b --><i".toList).drop 4,
      by decide +kernel, rfl, Or.inl rfl⟩
  exact ⟨hend, tokens_eq_append_of_constructEndsAt hend⟩

end EmbeddedExpr.Markup
