/-
  EmbeddedExpr.Proofs.Markup.Coverage
  ───────────────────────────────────
  **NOTHING OF A DOCUMENT IS LOST.**

  The tokens of a document stand in order without overlap, and each holds the characters of
  its place.  An offset that no token covers is inside a tag and holds white space or a
  character that begins no attribute:

      Coverage s (tokens s)

  Each reader of the lexer gives `Shaped` pieces, whose gaps follow the tokens of a tag only.
  Placing shaped pieces gives `Aligned` tokens: outside of tags a token begins where the one
  before it ends.
-/
import EmbeddedExpr.Markup.Lexer

namespace EmbeddedExpr.Markup

/-! ## §1. The shape of pieces. -/

/-- After a token of this kind the tag that it belongs to goes on. -/
def Kind.inTag : Kind → Bool
  | .tagStart | .attrName | .attrValue => true
  | _ => false

/-- A character that a tag may hold outside of its tokens. -/
def isStray (c : Char) : Bool := Text.isBlank c || ['=', '/', '\x22', '\x27'].contains c

/-- No token is empty, and gaps hold stray characters and stand in tags only.  `inside` tells
whether a tag goes on before the pieces. -/
def Shaped (inside : Bool) : List Piece → Prop
  | [] => True
  | .gap text :: more => inside = true ∧ (∀ c ∈ text, isStray c = true) ∧ Shaped inside more
  | .token kind text _ :: more => text ≠ [] ∧ Shaped kind.inTag more

theorem Shaped.weaken {ps : List Piece} (h : Shaped false ps) : ∀ inside, Shaped inside ps := by
  intro inside
  cases ps with
  | nil => trivial
  | cons p more =>
    cases p with
    | gap text => exact absurd h.1 Bool.false_ne_true
    | token kind text name => exact h

theorem Shaped.append {qs : List Piece} (hq : Shaped false qs) :
    ∀ {ps : List Piece} {inside : Bool}, Shaped inside ps → Shaped inside (ps ++ qs) := by
  intro ps
  induction ps with
  | nil => intro inside _; exact hq.weaken inside
  | cons p more ih =>
    intro inside h
    cases p with
    | gap text => exact ⟨h.1, h.2.1, ih h.2.2⟩
    | token kind text name => exact ⟨h.1, ih h.2⟩

theorem isStray_of_isBlank {c : Char} (h : Text.isBlank c = true) : isStray c = true := by
  simp [isStray, h]

theorem isBlank_of_mem_takeWhile {c : Char} {s : List Char}
    (h : c ∈ s.takeWhile Text.isBlank) : Text.isBlank c = true :=
  List.all_eq_true.mp List.all_takeWhile c h

/-- An attribute is shaped, whatever follows it in its tag. -/
theorem shaped_attributeAt {c : Char} {rest : List Char} {qs : List Piece}
    (hc : isAttrChar c = true) (hq : Shaped true qs) (inside : Bool) :
    Shaped inside ((attributeAt (c :: rest)).1 ++ qs) := by
  have hname : (c :: rest).takeWhile isAttrChar ≠ [] := by
    rw [List.takeWhile_cons_of_pos hc]
    exact List.cons_ne_nil _ _
  simp only [attributeAt]
  split
  · next more _ =>
    have hgap : ∀ d ∈ ((c :: rest).dropWhile isAttrChar).takeWhile Text.isBlank
        ++ '=' :: more.takeWhile Text.isBlank, isStray d = true := by
      intro d hd
      rcases List.mem_append.mp hd with hd | hd
      · exact isStray_of_isBlank (isBlank_of_mem_takeWhile hd)
      · rcases List.mem_cons.mp hd with rfl | hd
        · simp [isStray]
        · exact isStray_of_isBlank (isBlank_of_mem_takeWhile hd)
    split
    · exact ⟨hname, rfl, hgap, hq⟩
    · next hv => exact ⟨hname, rfl, hgap, fun he => hv (by rw [he]; rfl), hq⟩
  · exact ⟨hname, hq⟩

/-- What begins no attribute, no end of the tag and no new construct is stray. -/
theorem isStray_of_not_isAttrChar {c : Char} (hc : isAttrChar c = false) (hgt : c ≠ '>')
    (hlt : c ≠ '<') : isStray c = true := by
  simp only [isAttrChar, isStray, List.contains_cons, List.contains_nil, Bool.or_false,
    Bool.not_eq_false', Bool.or_eq_true, beq_iff_eq] at hc ⊢
  rcases hc with hb | h | h | h | h | h | h
  · exact Or.inl hb
  · exact Or.inr (Or.inr (Or.inl h))
  · exact absurd h hgt
  · exact Or.inr (Or.inl h)
  · exact Or.inr (Or.inr (Or.inr (Or.inl h)))
  · exact Or.inr (Or.inr (Or.inr (Or.inr h)))
  · exact absurd h hlt

theorem shaped_tagBody (s : List Char) : Shaped true (tagBody s).1 := by
  fun_induction tagBody s with
  | case1 => trivial
  | case2 rest => exact ⟨List.cons_ne_nil _ _, trivial⟩
  | case3 rest => exact ⟨List.cons_ne_nil _ _, trivial⟩
  | case4 rest => trivial
  | case5 c rest _ _ _ hc pieces ending more he ih =>
    rw [he] at ih
    exact shaped_attributeAt hc ih true
  | case6 c rest hend hgt hlt hc pieces ending more he ih =>
    rw [he] at ih
    refine ⟨rfl, ?_, ih⟩
    intro d hd
    rw [List.mem_singleton.mp hd]
    exact isStray_of_not_isAttrChar (Bool.not_eq_true _ ▸ hc) (fun h => hgt h)
      (fun h => hlt h)

theorem shaped_contents (name : List Char) (closing : Bool) (ending : Ending) (s : List Char) :
    Shaped false (contents name closing ending s).1 := by
  unfold contents
  split
  · simp only
    split
    · trivial
    · next he => exact ⟨fun h => he (by rw [h]; rfl), trivial⟩
  · trivial

theorem shaped_tag (closing : Bool) (s : List Char) : Shaped false (tag closing s).1 := by
  refine ⟨?_, (shaped_contents _ _ _ _).append (shaped_tagBody _)⟩
  cases closing <;> exact List.cons_ne_nil _ _

theorem shaped_construct (c : Char) (rest : List Char) :
    Shaped false (construct c rest).1 := by
  unfold construct
  split
  · next h =>
    refine ⟨?_, trivial⟩
    intro he
    have hm := (List.append_eq_nil_iff.mp he).1
    rw [List.take_eq_nil_iff] at hm
    rcases hm with hm | hm
    · exact mark_of_fenced h (List.length_eq_zero_iff.mp hm)
    · exact List.cons_ne_nil _ _ hm
  · exact shaped_tag _ _
  · exact ⟨List.cons_ne_nil _ _, trivial⟩

/-- **The lexer gives shaped pieces.** -/
theorem shaped_pieces (s : List Char) : Shaped false (pieces s) := by
  fun_induction pieces s with
  | case1 => trivial
  | case2 c rest ih => exact ih.append (shaped_construct c rest)

/-! ## §2. The places of tokens. -/

theorem place_append (ps qs : List Piece) :
    ∀ offset : Nat, place offset (ps ++ qs)
      = place offset ps ++ place (offset + (ps.flatMap Piece.text).length) qs := by
  induction ps with
  | nil => intro offset; rfl
  | cons p more ih =>
    intro offset
    have hlen : offset + ((p :: more).flatMap Piece.text).length
        = offset + p.text.length + (more.flatMap Piece.text).length := by
      rw [List.flatMap_cons, List.length_append, Nat.add_assoc]
    rw [hlen]
    cases p with
    | gap text => exact ih (offset + text.length)
    | token kind text name =>
      show _ :: place (offset + text.length) (more ++ qs) = _
      rw [ih (offset + text.length)]
      rfl

/-- A token stands where its characters stand in the document. -/
theorem split_of_mem_place {t : Token} {ps : List Piece} :
    ∀ {offset : Nat}, t ∈ place offset ps →
      ∃ before after, ps.flatMap Piece.text = before ++ t.text ++ after
        ∧ t.start = offset + before.length ∧ t.stop = t.start + t.text.length := by
  induction ps with
  | nil => intro offset h; cases h
  | cons p more ih =>
    intro offset h
    -- a token further on has the characters of `p` before it as well
    have later : t ∈ place (offset + p.text.length) more →
        ∃ before after, (p :: more).flatMap Piece.text = before ++ t.text ++ after
          ∧ t.start = offset + before.length ∧ t.stop = t.start + t.text.length := by
      intro h
      obtain ⟨before, after, heq, hstart, hstop⟩ := ih h
      refine ⟨p.text ++ before, after, ?_, ?_, hstop⟩
      · rw [List.flatMap_cons, heq]
        simp only [List.append_assoc]
      · rw [hstart, List.length_append, Nat.add_assoc]
    cases p with
    | gap text => exact later h
    | token kind text name =>
      rcases List.mem_cons.mp h with rfl | h
      · exact ⟨[], more.flatMap Piece.text, rfl, rfl, rfl⟩
      · exact later h

theorem split_of_mem_tokens {s : List Char} {t : Token} (h : t ∈ tokens s) :
    ∃ before after, s = before ++ t.text ++ after
      ∧ t.start = before.length ∧ t.stop = t.start + t.text.length := by
  obtain ⟨before, after, heq, hstart, hstop⟩ := split_of_mem_place h
  rw [pieces_append] at heq
  exact ⟨before, after, heq, by rw [hstart, Nat.zero_add], hstop⟩

theorem stop_le_length {s : List Char} {t : Token} (h : t ∈ tokens s) : t.stop ≤ s.length := by
  obtain ⟨before, after, rfl, hstart, hstop⟩ := split_of_mem_tokens h
  simp only [List.length_append]
  omega

/-- A token holds the characters of its place. -/
theorem text_eq_of_mem_tokens {s : List Char} {t : Token} (h : t ∈ tokens s) :
    t.text = (s.take t.stop).drop t.start := by
  obtain ⟨before, after, rfl, hstart, hstop⟩ := split_of_mem_tokens h
  rw [hstop, hstart, ← List.length_append, List.take_left, List.drop_left]

/-- Where a token stands, the document goes on with its characters, and then with what stands at
its stop. -/
theorem drop_of_mem_tokens {s : List Char} {t : Token} (h : t ∈ tokens s) :
    s.drop t.start = t.text ++ s.drop t.stop := by
  obtain ⟨before, after, hs, hstart, hstop⟩ := split_of_mem_tokens h
  have hdrop : s.drop t.start = t.text ++ after := by
    rw [hstart, hs, List.append_assoc, List.drop_left]
  rw [hstop, ← List.drop_drop, hdrop, List.drop_left]

/-- Tokens in order from `lower` on, none of them empty.  Outside of a tag a token begins
where the text before it ends; `inside` tells whether a tag goes on before the tokens. -/
def Aligned (lower : Nat) (inside : Bool) : List Token → Prop
  | [] => True
  | t :: more => lower ≤ t.start ∧ (inside = false → t.start = lower) ∧ t.start < t.stop
      ∧ Aligned t.stop t.kind.inTag more

theorem Aligned.weaken {lower upper : Nat} {ts : List Token} (hle : lower ≤ upper)
    (h : Aligned upper true ts) : Aligned lower true ts := by
  cases ts with
  | nil => trivial
  | cons t more => exact ⟨Nat.le_trans hle h.1, fun he => absurd he (by decide), h.2.2⟩

/-- **Shaped pieces have aligned places.** -/
theorem aligned_place {ps : List Piece} :
    ∀ {offset : Nat} {inside : Bool}, Shaped inside ps → Aligned offset inside (place offset ps) := by
  induction ps with
  | nil => intro offset inside _; trivial
  | cons p more ih =>
    intro offset inside h
    cases p with
    | gap text =>
      obtain ⟨rfl, -, hmore⟩ := h
      exact (ih hmore).weaken (Nat.le_add_right _ _)
    | token kind text name =>
      have hpos := List.length_pos_iff.mpr h.1
      exact ⟨Nat.le_refl _, fun _ => rfl, by show offset < offset + text.length; omega, ih h.2⟩

theorem aligned_tokens (s : List Char) : Aligned 0 false (tokens s) :=
  aligned_place (shaped_pieces s)

theorem Aligned.bounds {t : Token} {ts : List Token} :
    ∀ {lower : Nat} {inside : Bool}, Aligned lower inside ts → t ∈ ts →
      lower ≤ t.start ∧ t.start < t.stop := by
  induction ts with
  | nil => intro lower inside _ ht; cases ht
  | cons u more ih =>
    intro lower inside h ht
    obtain ⟨hlow, -, hpos, hmore⟩ := h
    rcases List.mem_cons.mp ht with rfl | ht
    · exact ⟨hlow, hpos⟩
    · obtain ⟨hle, hlt⟩ := ih hmore ht
      exact ⟨by omega, hlt⟩

theorem Aligned.pairwise {ts : List Token} :
    ∀ {lower : Nat} {inside : Bool}, Aligned lower inside ts →
      ts.Pairwise fun t u => t.stop ≤ u.start := by
  induction ts with
  | nil => intro lower inside _; exact List.Pairwise.nil
  | cons t more ih =>
    intro lower inside h
    obtain ⟨-, -, -, hmore⟩ := h
    exact List.Pairwise.cons (fun u hu => (hmore.bounds hu).1) (ih hmore)

/-- Of ranges in order without overlap, no two hold a common offset. -/
theorem eq_of_overlap {α : Type} {start stop : α → Nat} {x y : α} {xs : List α}
    (hp : xs.Pairwise fun x y => stop x ≤ start y) (hx : x ∈ xs) (hy : y ∈ xs)
    (hxy : start x < stop y) (hyx : start y < stop x) : x = y := by
  induction xs with
  | nil => cases hx
  | cons z xs ih =>
    obtain ⟨hz, hxs⟩ := List.pairwise_cons.mp hp
    rcases List.mem_cons.mp hx with rfl | hx' <;> rcases List.mem_cons.mp hy with rfl | hy'
    · rfl
    · have := hz y hy'
      omega
    · have := hz x hx'
      omega
    · exact ih hxs hx' hy'

theorem start_lt_stop {s : List Char} {t : Token} (h : t ∈ tokens s) : t.start < t.stop :=
  ((aligned_tokens s).bounds h).2

theorem tokens_pairwise (s : List Char) : (tokens s).Pairwise fun t u => t.stop ≤ u.start :=
  (aligned_tokens s).pairwise

/-! ## §3. Offsets that no token covers. -/

/-- The token covers the offset. -/
def Token.Covers (t : Token) (i : Nat) : Prop := t.start ≤ i ∧ i < t.stop

/-- `t` is the last token before an offset: it ends there or earlier, and all tokens after it
begin later. -/
def IsLastBefore (ts : List Token) (i : Nat) (t : Token) : Prop :=
  ∃ before after, ts = before ++ t :: after ∧ t.stop ≤ i ∧ ∀ u ∈ after, i < u.start

theorem IsLastBefore.cons {ts : List Token} {i : Nat} {t : Token} (h : IsLastBefore ts i t)
    (u : Token) : IsLastBefore (u :: ts) i t := by
  obtain ⟨before, after, rfl, hle, hafter⟩ := h
  exact ⟨u :: before, after, rfl, hle, hafter⟩

/-- An uncovered offset of shaped pieces holds a stray character.  The last token before it
leaves its tag open; when there is none, the pieces begin inside a tag. -/
theorem Shaped.uncovered {i : Nat} {ps : List Piece} :
    ∀ {offset : Nat} {inside : Bool}, Shaped inside ps → offset ≤ i →
      (∀ t ∈ place offset ps, ¬ t.Covers i) →
      ∀ {c : Char}, (ps.flatMap Piece.text)[i - offset]? = some c →
        isStray c = true ∧ ((∃ t, IsLastBefore (place offset ps) i t ∧ t.kind.inTag = true)
          ∨ (inside = true ∧ ∀ t ∈ place offset ps, i < t.start)) := by
  induction ps with
  | nil => intro offset inside _ _ _ c hc; cases hc
  | cons p more ih =>
    intro offset inside h hle hfree c hc
    rw [List.flatMap_cons, List.getElem?_append] at hc
    cases p with
    | gap text =>
      obtain ⟨rfl, hstray, hmore⟩ := h
      split at hc
      · -- the offset is in the gap, before all tokens that are left
        next hlt =>
        have hlt : i - offset < text.length := hlt
        refine ⟨hstray c (List.mem_of_getElem? hc), Or.inr ⟨rfl, ?_⟩⟩
        intro t ht
        have := ((aligned_place hmore).bounds ht).1
        omega
      · next hge =>
        have hge : ¬ i - offset < text.length := hge
        rw [show i - offset - (Piece.gap text).text.length = i - (offset + text.length) from
          Nat.sub_sub _ _ _] at hc
        exact ih hmore (by omega) hfree hc
    | token kind text name =>
      obtain ⟨-, hmore⟩ := h
      have hhead := hfree ⟨kind, offset, offset + text.length, text, name⟩ List.mem_cons_self
      have hge : offset + text.length ≤ i :=
        Nat.not_lt.mp fun hlt => hhead ⟨hle, hlt⟩
      split at hc
      · next hlt =>
        have hlt : i - offset < text.length := hlt
        omega
      · rw [show i - offset - (Piece.token kind text name).text.length
          = i - (offset + text.length) from Nat.sub_sub _ _ _] at hc
        obtain ⟨hstray, hlast⟩ :=
          ih hmore hge (fun t ht => hfree t (List.mem_cons_of_mem _ ht)) hc
        refine ⟨hstray, Or.inl ?_⟩
        rcases hlast with ⟨t, ht, hopen⟩ | ⟨hopen, hafter⟩
        · exact ⟨t, ht.cons _, hopen⟩
        · -- the piece itself is the last token before the offset
          exact ⟨_, ⟨[], _, rfl, hge, hafter⟩, hopen⟩

/-- What the tokens of a document make of it. -/
structure Coverage (s : List Char) (ts : List Token) : Prop where
  nonempty : ∀ t ∈ ts, t.start < t.stop
  ordered : ts.Pairwise fun t u => t.stop ≤ u.start
  inside : ∀ t ∈ ts, t.stop ≤ s.length
  text_eq : ∀ t ∈ ts, t.text = (s.take t.stop).drop t.start
  /-- What is left out is stray and stands in a tag that goes on. -/
  uncovered : ∀ i (hi : i < s.length), (∀ t ∈ ts, ¬ t.Covers i) →
    isStray s[i] = true ∧ ∃ t, IsLastBefore ts i t ∧ t.kind.inTag = true

/-- **The tokens of every document cover it, up to stray characters inside tags.** -/
theorem tokens_coverage (s : List Char) : Coverage s (tokens s) where
  nonempty _ h := start_lt_stop h
  ordered := tokens_pairwise s
  inside _ h := stop_le_length h
  text_eq _ h := text_eq_of_mem_tokens h
  uncovered := by
    intro i hi hfree
    have hc : ((pieces s).flatMap Piece.text)[i - 0]? = some s[i] := by
      rw [pieces_append, Nat.sub_zero, List.getElem?_eq_getElem hi]
    obtain ⟨hstray, hlast | ⟨houtside, -⟩⟩ :=
      (shaped_pieces s).uncovered (Nat.zero_le i) hfree hc
    · exact ⟨hstray, hlast⟩
    · -- a document does not begin inside a tag
      exact absurd houtside Bool.false_ne_true

end EmbeddedExpr.Markup
