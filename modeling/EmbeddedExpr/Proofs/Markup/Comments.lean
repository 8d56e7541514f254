/-
  EmbeddedExpr.Proofs.Markup.Comments
  ───────────────────────────────────
  **WHAT STANDS IN COMMENTS DOES NOT CHANGE HOW A DOCUMENT IS CUT.**

  `Rewritten s s'` says, by offsets, that two documents of one length differ in the bodies of
  the comments of `s` only, and that no body is given an end mark.  `Redrawn s s'` says the
  same along the constructs of `s`:

      Rewritten s s'  →  Redrawn s s'  →  SameSites (tokens s) (tokens s')

  Each construct is followed by an angle bracket or ends with one, or ends the document, so
  its reader cannot tell what the comments further on hold.
-/
import EmbeddedExpr.Proofs.Markup.Extent
import EmbeddedExpr.Proofs.Markup.Grammar

namespace EmbeddedExpr.Markup

/-! ## §1. Where a construct ends. -/

theorem rawText_ends (name s : List Char) :
    (rawText name s).2 = [] ∨ (rawText name s).2.head? = some '<' := by
  refine ((upTo_rawText name).stops_at s).2.imp_right fun h => ?_
  by_cases hmark : ['<', '/'] <+: (rawText name s).2
  · obtain ⟨rest, hrest⟩ := hmark
    rw [← hrest]
    rfl
  · rw [closesRaw_eq_false hmark] at h
    cases h

theorem contents_ends (name : List Char) (closing : Bool) (ending : Ending) (s : List Char) :
    contents name closing ending s = ([], s) ∨ (contents name closing ending s).2 = []
      ∨ (contents name closing ending s).2.head? = some '<' := by
  unfold contents
  split
  · exact Or.inr (rawText_ends name s)
  · exact Or.inl rfl

theorem sealed_tag (closing : Bool) (s : List Char) :
    (tag closing s).2 = [] ∨ Sealed ((tag closing s).1.flatMap Piece.text) (tag closing s).2 := by
  obtain ⟨name, rest, -, heq⟩ := tag_eq closing s
  rw [heq]
  rcases contents_ends (Text.lower name) closing (tagBody rest).2.1 (tagBody rest).2.2 with hnone | hnil | hlt
  · -- without raw contents the tag ends with its end mark, or it is cut
    rw [hnone]
    obtain ⟨inner, -, hbody⟩ := tagBody_pieces rest
    cases hm : (tagBody rest).2.1.mark? with
    | none =>
      have hhead := head?_of_cut (Ending.eq_cut_of_mark? hm)
      cases hleft : (tagBody rest).2.2 with
      | nil => exact Or.inl rfl
      | cons c more =>
        rw [hleft] at hhead
        exact Or.inr (Or.inr (congrArg some (hhead c rfl)))
    | some m =>
      rw [hm, Option.map_some, Option.toList_some] at hbody
      refine Or.inr (Or.inl ?_)
      rw [hbody, List.append_nil, List.flatMap_cons, List.flatMap_append,
        List.flatMap_singleton, List.getLast?_append, List.getLast?_append,
        show (Piece.token .tagEnd m none).text.getLast? = some '>' from
          Ending.getLast?_of_mark? hm]
      rfl
  · exact Or.inl hnil
  · exact Or.inr (Or.inr hlt)

/-- **A construct ends with the document, or an angle bracket stands where it ends.** -/
theorem sealed_construct (c : Char) (rest : List Char) :
    (construct c rest).2 = []
      ∨ Sealed ((construct c rest).1.flatMap Piece.text) (construct c rest).2 := by
  unfold construct
  cases ho : opening? (c :: rest) with
  | none =>
    refine (opening?_of_characterData rest).imp_right fun hsome => Or.inr ?_
    simp only
    cases hleft : (characterData rest).2 with
    | nil => rw [hleft] at hsome; cases hsome
    | cons d more =>
      rw [hleft] at hsome
      obtain ⟨o, hd⟩ := Option.isSome_iff_exists.mp hsome
      exact congrArg some (opening?_head hd)
  | some o =>
    cases o with
    | fenced kind mark closing =>
      refine (fenced_ends ho).imp_right fun hgt => Or.inl ?_
      rw [List.flatMap_singleton]
      exact hgt
    | tag closing => exact sealed_tag closing (c :: rest)

/-! ## §2. Comments. -/

/-- The mark that begins a comment. -/
def commentMark : List Char := "<!--".toList

/-- The mark that ends a comment. -/
def commentEnd : List Char := "-->".toList

theorem length_commentMark : commentMark.length = 4 := rfl

theorem length_commentEnd : commentEnd.length = 3 := rfl

theorem construct_comment (body : List Char) :
    construct '<' ("!--".toList ++ body)
      = ([.token .comment (commentMark ++ (Text.throughMark commentEnd body).1) none],
        (Text.throughMark commentEnd body).2) := rfl

/-- A comment up to its first end mark. -/
theorem construct_closed {body : List Char} (rest : List Char)
    (h : Text.FirstAt commentEnd (body ++ commentEnd) body.length) :
    construct '<' ("!--".toList ++ (body ++ commentEnd ++ rest))
      = ([.token .comment (commentMark ++ (body ++ commentEnd)) none], rest) := by
  have hcut : Text.cut? commentEnd (body ++ commentEnd ++ rest) = some (body, rest) :=
    Text.cut?_eq_some_iff.mpr ⟨rfl, h⟩
  rw [construct_comment]
  simp only [Text.throughMark, hcut]

theorem pieces_closed {body : List Char} (rest : List Char)
    (h : Text.FirstAt commentEnd (body ++ commentEnd) body.length) :
    pieces (commentMark ++ (body ++ commentEnd ++ rest))
      = .token .comment (commentMark ++ (body ++ commentEnd)) none :: pieces rest := by
  show pieces ('<' :: ("!--".toList ++ (body ++ commentEnd ++ rest))) = _
  rw [pieces, construct_closed rest h, List.singleton_append]

/-- A comment without an end mark goes on to the end of the document. -/
theorem pieces_unclosed {body : List Char} (h : ¬ commentEnd <:+: body) :
    pieces (commentMark ++ body) = [.token .comment (commentMark ++ body) none] := by
  have hcut := Text.cut?_eq_none_iff.mpr h
  show pieces ('<' :: ("!--".toList ++ body)) = _
  rw [pieces, construct_comment]
  simp only [Text.throughMark, hcut, pieces, List.append_nil]

/-- Two documents with the same constructs, up to the bodies of comments, which are as
long. -/
inductive Redrawn : List Char → List Char → Prop where
  | nil : Redrawn [] []
  /-- The first construct is no comment, and is the same in both. -/
  | same {c : Char} {a b b' : List Char} (hc : (construct c (a ++ b)).2 = b)
      (hkind : ∀ text name, Piece.token .comment text name ∉ (construct c (a ++ b)).1)
      (h : Redrawn b b') : Redrawn (c :: (a ++ b)) (c :: (a ++ b'))
  | closed {body body' b b' : List Char} (hlen : body'.length = body.length)
      (hend : Text.FirstAt commentEnd (body ++ commentEnd) body.length)
      (hend' : Text.FirstAt commentEnd (body' ++ commentEnd) body'.length)
      (h : Redrawn b b') :
      Redrawn (commentMark ++ (body ++ commentEnd ++ b)) (commentMark ++ (body' ++ commentEnd ++ b'))
  | unclosed {body body' : List Char} (hlen : body'.length = body.length)
      (hend : ¬ commentEnd <:+: body) (hend' : ¬ commentEnd <:+: body') :
      Redrawn (commentMark ++ body) (commentMark ++ body')

theorem sameStart_comment (body body' : List Char) :
    SameStart (commentMark ++ body) (commentMark ++ body') := ⟨rfl, rfl, fun _ _ => rfl⟩

theorem sealed_of_construct {c : Char} {a b : List Char} (hc : (construct c (a ++ b)).2 = b) :
    b = [] ∨ Sealed (c :: a) b := by
  have htext := construct_append c (a ++ b)
  rw [hc, ← List.cons_append] at htext
  have h := sealed_construct c (a ++ b)
  rw [hc, List.append_cancel_right htext] at h
  exact h

/-- **The reader of a construct before redrawn documents cannot tell them apart.** -/
theorem Redrawn.sameStart {s s' : List Char} (h : Redrawn s s') : SameStart s s' := by
  induction h with
  | nil => exact SameStart.refl []
  | @same c a b b' hc _ _ ih =>
    rcases sealed_of_construct hc with hnil | hs
    · rw [hnil, ih.eq_nil hnil]
      exact SameStart.refl _
    · -- what begins the first construct is told by its own characters
      have hs' := ih.sealed hs
      have hne := List.cons_ne_nil c a
      rw [← List.cons_append, ← List.cons_append]
      refine ⟨rfl, by rw [opening?_append hs hne, opening?_append hs' hne], fun name hname => ?_⟩
      obtain ⟨hgt, hlt⟩ := rawNames_angles hname
      rw [closesRaw_append hgt hlt hs hne, closesRaw_append hgt hlt hs' hne]
  | closed _ _ _ _ _ => exact sameStart_comment _ _
  | unclosed _ _ _ => exact sameStart_comment _ _

/-- **A construct is the same before texts that its reader cannot tell apart.** -/
theorem construct_of_sameStart {c : Char} {a b b' : List Char}
    (hc : (construct c (a ++ b)).2 = b) (hb : SameStart b b') :
    construct c (a ++ b') = ((construct c (a ++ b)).1, b') := by
  rcases sealed_of_construct hc with hnil | hs
  · subst hnil
    rw [hb.eq_nil rfl]
    exact Prod.ext rfl hc
  · have hle : b.length ≤ (construct c (a ++ b)).2.length := by rw [hc]
    have hread := construct_append_of_le hs (SameStart.refl b) hle
    rw [construct_append_of_le hs hb hle, hread]
    rw [hread] at hc
    -- the construct ends where `a` ends
    rw [List.append_left_eq_self.mp hc, List.nil_append]

/-! ## §3. The tokens of redrawn documents. -/

/-- Tokens that are the same up to the texts of comments, which stand at the same places.  A
comment begins with an angle bracket, and ends with one unless it is the last token. -/
inductive SameSites : List Token → List Token → Prop where
  | nil : SameSites [] []
  | same {t : Token} {ts ts' : List Token} (hk : t.kind ≠ .comment) (h : SameSites ts ts') :
      SameSites (t :: ts) (t :: ts')
  | comment {t t' : Token} {ts ts' : List Token} (hk : t.kind = .comment)
      (hk' : t'.kind = .comment) (hstart : t'.start = t.start) (hstop : t'.stop = t.stop)
      (hfirst : t.text.head? = some '<' ∧ t'.text.head? = some '<')
      (hlast : ts = [] ∨ t.text.getLast? = some '>' ∧ t'.text.getLast? = some '>')
      (h : SameSites ts ts') : SameSites (t :: ts) (t' :: ts')

theorem SameSites.append_left {us ts ts' : List Token} (h : SameSites ts ts')
    (hus : ∀ u ∈ us, u.kind ≠ .comment) : SameSites (us ++ ts) (us ++ ts') := by
  induction us with
  | nil => exact h
  | cons u us ih =>
    exact .same (hus u List.mem_cons_self) (ih fun v hv => hus v (List.mem_cons_of_mem _ hv))

theorem SameSites.place_comment {text text' : List Char} {ps ps' : List Piece} {offset : Nat}
    (hlen : text'.length = text.length) (hfirst : text.head? = some '<' ∧ text'.head? = some '<')
    (hlast : ps = [] ∨ text.getLast? = some '>' ∧ text'.getLast? = some '>')
    (h : SameSites (place (offset + text.length) ps) (place (offset + text.length) ps')) :
    SameSites (place offset (.token .comment text none :: ps))
      (place offset (.token .comment text' none :: ps')) := by
  rw [place, place, hlen]
  refine .comment rfl rfl rfl rfl hfirst (hlast.imp_left ?_) h
  rintro rfl
  rfl

/-- **Redrawn documents have their tokens at the same places.** -/
theorem Redrawn.place {s s' : List Char} (h : Redrawn s s') :
    ∀ offset : Nat, SameSites (place offset (pieces s)) (place offset (pieces s')) := by
  induction h with
  | nil => intro offset; rw [pieces]; exact .nil
  | @same c a b b' hc hkind hr ih =>
    intro offset
    -- the tokens of the first construct are the same, and none is a comment
    rw [pieces, pieces, construct_of_sameStart hc hr.sameStart, hc, place_append, place_append]
    refine (ih _).append_left fun u hu => ?_
    intro hk
    exact hkind u.text u.name (hk ▸ piece_of_mem_place hu)
  | @closed body body' b b' hlen hend hend' hr ih =>
    intro offset
    rw [pieces_closed b hend, pieces_closed b' hend']
    have hgt : ∀ x : List Char, (commentMark ++ (x ++ commentEnd)).getLast? = some '>' := by
      intro x
      rw [List.getLast?_append, List.getLast?_append]
      rfl
    refine .place_comment ?_ ⟨rfl, rfl⟩ (Or.inr ⟨hgt body, hgt body'⟩) (ih _)
    simp only [List.length_append, hlen]
  | @unclosed body body' hlen hend hend' =>
    intro offset
    rw [pieces_unclosed hend, pieces_unclosed hend']
    refine .place_comment ?_ ⟨rfl, rfl⟩ (Or.inl rfl) .nil
    simp only [List.length_append, hlen]

/-! ## §4. Documents that differ in the bodies of comments. -/

/-- The length of a comment's end mark; a comment that the document ends has none. -/
def Token.endLength (t : Token) : Nat :=
  if commentEnd.isSuffixOf (t.text.drop commentMark.length) then commentEnd.length else 0

/-- The offset is in the body of the comment: after its mark and before its end mark. -/
def Token.InBody (t : Token) (k : Nat) : Prop :=
  t.kind = .comment ∧ t.start + commentMark.length ≤ k ∧ k + t.endLength < t.stop

/-- The second document is the first one with other bodies of comments.  It is as long, and no
end mark of a comment begins in a body. -/
structure Rewritten (s s' : List Char) : Prop where
  length_eq : s'.length = s.length
  outside : ∀ k, (∀ t ∈ tokens s, ¬ t.InBody k) → s'[k]? = s[k]?
  inside : ∀ t ∈ tokens s, ∀ k, t.InBody k → ¬ commentEnd <+: s'.drop k

instance (t : Token) (k : Nat) : Decidable (t.InBody k) :=
  inferInstanceAs (Decidable (t.kind = .comment ∧ t.start + commentMark.length ≤ k
    ∧ k + t.endLength < t.stop))

/-- Only the offsets of the first document have to be looked at. -/
theorem rewritten_iff {s s' : List Char} :
    Rewritten s s' ↔ s'.length = s.length
      ∧ (∀ k < s.length, (∀ t ∈ tokens s, ¬ t.InBody k) → s'[k]? = s[k]?)
      ∧ ∀ t ∈ tokens s, ∀ k < s.length, t.InBody k → ¬ commentEnd <+: s'.drop k := by
  constructor
  · intro h
    exact ⟨h.length_eq, fun k _ hk => h.outside k hk, fun t ht k _ hk => h.inside t ht k hk⟩
  · rintro ⟨hlen, hout, hin⟩
    refine ⟨hlen, fun k hk => ?_, fun t ht k hk => ?_⟩
    · by_cases hlt : k < s.length
      · exact hout k hlt hk
      · rw [List.getElem?_eq_none (by omega), List.getElem?_eq_none (by omega)]
    · have hstop := stop_le_length ht
      have hlt := hk.2.2
      exact hin t ht k (by omega) hk

instance (s s' : List Char) : Decidable (Rewritten s s') := decidable_of_iff _ rewritten_iff.symm

theorem Token.inBody_shift {t : Token} {n k : Nat} :
    (t.shift n).InBody (n + k) ↔ t.InBody k := by
  unfold InBody
  rw [show (t.shift n).endLength = t.endLength from rfl]
  simp only [Token.shift]
  refine and_congr_right fun _ => and_congr ?_ ?_ <;> omega

theorem tokens_cons (c : Char) (rest : List Char) :
    tokens (c :: rest) = place 0 (construct c rest).1
      ++ (tokens (construct c rest).2).map
        fun t => t.shift ((construct c rest).1.flatMap Piece.text).length := by
  unfold tokens
  rw [pieces, place_append, Nat.zero_add, ← place_shift, Nat.add_zero]

/-- The tokens of the first construct end where it ends. -/
theorem not_inBody_of_mem_place {ps : List Piece} {t : Token} {k : Nat} (ht : t ∈ place 0 ps)
    (hk : (ps.flatMap Piece.text).length ≤ k) : ¬ t.InBody k := by
  obtain ⟨before, after, htext, hstart, hstop⟩ := split_of_mem_place ht
  have hlen := congrArg List.length htext
  rintro ⟨-, -, hlt⟩
  simp only [List.length_append] at hlen
  omega

/-- What follows the first construct is rewritten as well. -/
theorem Rewritten.rest {c : Char} {rest s' : List Char} (h : Rewritten (c :: rest) s') :
    Rewritten (construct c rest).2
      (s'.drop ((construct c rest).1.flatMap Piece.text).length) := by
  generalize hn : ((construct c rest).1.flatMap Piece.text).length = n
  have hlen := congrArg List.length (construct_append c rest)
  have hdrop : (construct c rest).2 = (c :: rest).drop n := by
    rw [← construct_append c rest, ← hn, List.drop_left]
  have htokens := tokens_cons c rest
  rw [hn] at htokens
  rw [List.length_append, hn] at hlen
  refine ⟨?_, fun k hk => ?_, fun t ht k hk => ?_⟩
  · rw [List.length_drop, h.length_eq]
    omega
  · -- an offset of the rest is in a body when it is in one in the whole document
    have hout := h.outside (n + k) fun t ht => by
      rw [htokens] at ht
      rcases List.mem_append.mp ht with ht | ht
      · exact not_inBody_of_mem_place ht (by omega)
      · obtain ⟨u, hu, rfl⟩ := List.mem_map.mp ht
        exact fun hin => hk u hu (Token.inBody_shift.mp hin)
    rw [List.getElem?_drop, hout, hdrop, List.getElem?_drop]
  · have hmem : t.shift n ∈ tokens (c :: rest) := by
      rw [htokens]
      exact List.mem_append_right _ (List.mem_map_of_mem ht)
    rw [List.drop_drop]
    exact h.inside _ hmem (n + k) (Token.inBody_shift.mpr hk)

/-- No body of a comment further on begins in the first construct. -/
theorem le_of_inBody_shift {t : Token} {n k : Nat} (h : (t.shift n).InBody k) : n ≤ k := by
  have hstart := h.2.1
  simp only [Token.shift] at hstart
  omega

/-- Only a comment has the piece of a comment. -/
theorem comment_of_mem_construct {c : Char} {rest text : List Char} {name : Option (List Char)}
    (h : Piece.token .comment text name ∈ (construct c rest).1) :
    commentMark <+: c :: rest := by
  unfold construct at h
  cases ho : opening? (c :: rest) with
  | none =>
    rw [ho] at h
    cases (Piece.token.inj (List.mem_singleton.mp h)).1
  | some o =>
    rw [ho] at h
    cases o with
    | fenced kind mark closing =>
      obtain ⟨hfence, hmark⟩ := fence_of_opening? ho
      have hall : ∀ f ∈ fences, f.1 = .comment → f.2.1 = commentMark := by decide
      have hkind := (Piece.token.inj (List.mem_singleton.mp h)).1
      rw [← hall _ hfence hkind.symm]
      exact hmark
    | tag closing =>
      obtain ⟨tagName, inner, ending, left, -, hinner, hpieces⟩ := tag_pieces closing (c :: rest)
      simp only [hpieces, List.append_assoc] at h
      -- a tag has pieces of four other kinds
      rcases List.mem_cons.mp h with h | h
      · cases h
      · rcases List.mem_append.mp h with h | h
        · exact absurd (hinner _ h) (Piece.not_isAttr (by decide) (by decide))
        · rcases List.mem_append.mp h with h | h
          · obtain ⟨m, -, hm⟩ := Option.map_eq_some_iff.mp (Option.mem_toList.mp h)
            cases hm
          · cases kind_of_mem_contents h

/-- **A comment begins with its mark.** -/
theorem commentMark_prefix_drop {s : List Char} {t : Token} (ht : t ∈ tokens s)
    (hk : t.kind = .comment) : commentMark <+: s.drop t.start := by
  obtain ⟨read, hread, -⟩ : Fenced commentMark commentEnd t.text (s.drop t.stop) := by
    have hextent := readBy_extent.of_mem_tokens ht
    rw [hk] at hextent
    exact hextent
  rw [drop_of_mem_tokens ht, hread, List.append_assoc]
  exact List.prefix_append _ _

/-- A rewritten document is the same where no body of a comment stands. -/
theorem Rewritten.slice {s s' : List Char} (h : Rewritten s s') {a b : Nat}
    (hout : ∀ t ∈ tokens s, ∀ k, t.InBody k → k < a ∨ b ≤ k) :
    (s'.take b).drop a = (s.take b).drop a := by
  refine Text.slice_congr fun k ha hb => h.outside k fun t ht hin => ?_
  have := hout t ht k hin
  omega

/-- A rewritten document begins with the same construct, if that is no comment. -/
theorem Rewritten.head {c : Char} {rest s' : List Char} (h : Rewritten (c :: rest) s')
    (hno : ¬ commentMark <+: c :: rest) :
    s'.take ((construct c rest).1.flatMap Piece.text).length
      = (construct c rest).1.flatMap Piece.text := by
  have hagree : (s'.take ((construct c rest).1.flatMap Piece.text).length).drop 0
      = ((c :: rest).take ((construct c rest).1.flatMap Piece.text).length).drop 0 := by
    refine h.slice fun t ht k hin => ?_
    rw [tokens_cons] at ht
    rcases List.mem_append.mp ht with ht | ht
    · exact absurd (comment_of_mem_construct (hin.1 ▸ piece_of_mem_place ht)) hno
    · obtain ⟨u, -, rfl⟩ := List.mem_map.mp ht
      exact Or.inr (le_of_inBody_shift hin)
  rw [List.drop_zero, List.drop_zero] at hagree
  rw [hagree]
  conv => lhs; rw [← construct_append c rest, List.take_left]

theorem inBody_closed_iff {body : List Char} {k : Nat} :
    (⟨.comment, 0, (commentMark ++ (body ++ commentEnd)).length,
        commentMark ++ (body ++ commentEnd), none⟩ : Token).InBody k
      ↔ 4 ≤ k ∧ k < 4 + body.length := by
  have hsuffix : commentEnd.isSuffixOf (body ++ commentEnd) = true :=
    List.isSuffixOf_iff_suffix.mpr (List.suffix_append body commentEnd)
  unfold Token.InBody Token.endLength
  simp only
  rw [List.drop_left, if_pos hsuffix, List.length_append, List.length_append, length_commentMark,
    length_commentEnd]
  constructor
  · rintro ⟨-, hlow, hup⟩
    exact ⟨by omega, by omega⟩
  · rintro ⟨hlow, hup⟩
    exact ⟨trivial, by omega, by omega⟩

theorem inBody_unclosed_iff {body : List Char} (hend : ¬ commentEnd <:+: body) {k : Nat} :
    (⟨.comment, 0, (commentMark ++ body).length, commentMark ++ body, none⟩ : Token).InBody k
      ↔ 4 ≤ k ∧ k < 4 + body.length := by
  have hsuffix : ¬ commentEnd.isSuffixOf body = true := fun h =>
    hend (List.isSuffixOf_iff_suffix.mp h).isInfix
  unfold Token.InBody Token.endLength
  simp only
  rw [List.drop_left, if_neg hsuffix, List.length_append, length_commentMark, Nat.zero_add,
    Nat.add_zero]
  exact and_iff_right trivial

/-- A comment that is not closed is not closed when it is rewritten. -/
theorem Rewritten.unclosed {body s' : List Char} (h : Rewritten (commentMark ++ body) s')
    (hend : ¬ commentEnd <:+: body) : Redrawn (commentMark ++ body) s' := by
  have htokens : tokens (commentMark ++ body)
      = [⟨.comment, 0, (commentMark ++ body).length, commentMark ++ body, none⟩] := by
    unfold tokens
    rw [pieces_unclosed hend, place, Nat.zero_add, place]
  have hlen := h.length_eq
  rw [List.length_append, length_commentMark] at hlen
  have hmark : (s'.take 4).drop 0 = commentMark := by
    refine (h.slice fun t ht k hin => ?_).trans rfl
    rw [htokens, List.mem_singleton] at ht
    rw [ht, inBody_unclosed_iff hend] at hin
    exact Or.inr hin.1
  rw [List.drop_zero] at hmark
  rw [← List.take_append_drop 4 s', hmark]
  refine .unclosed ?_ hend ?_
  · rw [List.length_drop]
    omega
  · rintro ⟨before, after, hbody⟩
    -- an end mark in the body would begin in it
    have hbefore := congrArg List.length hbody
    rw [List.length_append, List.length_append, length_commentEnd, List.length_drop] at hbefore
    refine h.inside _ (htokens ▸ List.mem_singleton_self _) (4 + before.length)
      ((inBody_unclosed_iff hend).mpr ⟨by omega, by omega⟩) ?_
    rw [← List.drop_drop, ← hbody, List.append_assoc, List.drop_left]
    exact List.prefix_append commentEnd after

theorem tokens_closed {body : List Char} (left : List Char)
    (hend : Text.FirstAt commentEnd (body ++ commentEnd) body.length) :
    tokens (commentMark ++ (body ++ commentEnd ++ left))
      = ⟨.comment, 0, (commentMark ++ (body ++ commentEnd)).length,
          commentMark ++ (body ++ commentEnd), none⟩
        :: (tokens left).map
          fun t => t.shift (commentMark ++ (body ++ commentEnd)).length := by
  show tokens ('<' :: ("!--".toList ++ (body ++ commentEnd ++ left))) = _
  rw [tokens_cons, construct_closed left hend, List.flatMap_singleton, place, Nat.zero_add, place]
  rfl

/-- The bodies of comments stand between the marks of the first one, or after it. -/
theorem inBody_of_mem_closed {body left : List Char} {t : Token} {k : Nat}
    (hend : Text.FirstAt commentEnd (body ++ commentEnd) body.length)
    (ht : t ∈ tokens (commentMark ++ (body ++ commentEnd ++ left))) (hin : t.InBody k) :
    4 ≤ k ∧ k < 4 + body.length ∨ 4 + body.length + 3 ≤ k := by
  rw [tokens_closed left hend] at ht
  rcases List.mem_cons.mp ht with rfl | ht
  · exact Or.inl (inBody_closed_iff.mp hin)
  · obtain ⟨u, -, rfl⟩ := List.mem_map.mp ht
    have hle := le_of_inBody_shift hin
    simp only [List.length_append, length_commentMark, length_commentEnd] at hle
    exact Or.inr (by omega)

/-- A text with both marks of a comment is cut there. -/
theorem eq_of_marks {s : List Char} {m : Nat} (hlen : 4 + m + 3 ≤ s.length)
    (hmark : (s.take 4).drop 0 = commentMark)
    (hclose : (s.take (4 + m + 3)).drop (4 + m) = commentEnd) :
    ∃ body : List Char, body.length = m
      ∧ s = commentMark ++ (body ++ commentEnd ++ s.drop (4 + m + 3)) := by
  refine ⟨(s.take (4 + m)).drop 4, ?_, ?_⟩
  · rw [List.length_drop, List.length_take]
    omega
  · conv => lhs; rw [← List.take_append_drop (4 + m + 3) s]
    rw [← hmark, ← hclose, ← List.append_assoc, ← List.append_assoc,
      Text.slice_join (Nat.zero_le 4) (by omega) (by omega),
      Text.slice_join (Nat.zero_le _) (by omega) hlen, List.drop_zero]

/-- A closed comment ends where it ended when it is rewritten. -/
theorem Rewritten.closed {body left s' : List Char}
    (h : Rewritten (commentMark ++ (body ++ commentEnd ++ left)) s')
    (hend : Text.FirstAt commentEnd (body ++ commentEnd) body.length)
    (ih : ∀ {b'}, Rewritten left b' → Redrawn left b') :
    Redrawn (commentMark ++ (body ++ commentEnd ++ left)) s' := by
  have hlen := h.length_eq
  simp only [List.length_append, length_commentMark, length_commentEnd] at hlen
  -- both marks stand where they stood
  have hmark : (s'.take 4).drop 0 = commentMark := by
    refine (h.slice fun t ht k hin => ?_).trans rfl
    have := inBody_of_mem_closed hend ht hin
    omega
  have hclose : (s'.take (4 + body.length + 3)).drop (4 + body.length) = commentEnd := by
    rw [h.slice fun t ht k hin => by have := inBody_of_mem_closed hend ht hin; omega,
      List.append_assoc body, ← List.append_assoc commentMark, List.drop_take, List.drop_left' (by
        rw [List.length_append, length_commentMark]), Nat.add_sub_cancel_left]
    rfl
  obtain ⟨body', hlen', hs'⟩ := eq_of_marks (by omega) hmark hclose
  have hdrop : s'.drop 4 = body' ++ commentEnd ++ s'.drop (4 + body.length + 3) := by
    conv => lhs; rw [hs']
    rfl
  -- no end mark begins in the new body
  have hfirst : Text.FirstAt commentEnd (s'.drop 4) body'.length := by
    refine ⟨?_, fun k hk hp => ?_⟩
    · rw [hdrop, List.append_assoc, List.drop_left]
      exact List.prefix_append commentEnd _
    · rw [List.drop_drop] at hp
      exact h.inside _ (tokens_closed left hend ▸ List.mem_cons_self) (4 + k)
        (inBody_closed_iff.mpr ⟨by omega, by omega⟩) hp
  have hend' := Text.firstAt_append_iff.mp (hdrop ▸ hfirst)
  have hrest := @Rewritten.rest '<' ("!--".toList ++ (body ++ commentEnd ++ left)) s' h
  rw [construct_closed left hend, List.flatMap_singleton] at hrest
  simp only [Piece.text, List.length_append, length_commentMark, length_commentEnd,
    ← Nat.add_assoc] at hrest
  rw [hs']
  exact .closed hlen' hend hend' (ih hrest)

/-- **Documents that differ in the bodies of comments have the same constructs**, up to those
bodies. -/
theorem Rewritten.redrawn {s s' : List Char} (h : Rewritten s s') : Redrawn s s' := by
  -- by the constructs of the first document, which the second one follows step by step
  fun_induction pieces s generalizing s' with
  | case1 =>
    rw [List.length_eq_zero_iff.mp h.length_eq]
    exact .nil
  | case2 c rest ih =>
    by_cases hmark : commentMark <+: c :: rest
    · obtain ⟨more, hmore⟩ := hmark
      have hmore : '<' :: ("!--".toList ++ more) = c :: rest := hmore
      obtain ⟨rfl, rfl⟩ := List.cons.inj hmore
      cases hcut : Text.cut? commentEnd more with
      | none => exact Rewritten.unclosed h (Text.cut?_eq_none_iff.mp hcut)
      | some found =>
        obtain ⟨rfl, hend⟩ := Text.cut?_eq_some_iff.mp hcut
        rw [construct_closed _ hend] at ih
        exact Rewritten.closed h hend ih
    · -- the first construct is kept as it is
      have hhead := h.head hmark
      have hrest := ih h.rest
      have htext := construct_append c rest
      have hlt := length_construct c rest
      generalize hps : (construct c rest).1.flatMap Piece.text = text at hhead hrest htext
      cases text with
      | nil =>
        rw [← htext, List.nil_append] at hlt
        exact absurd hlt (Nat.lt_irrefl _)
      | cons d a =>
        obtain ⟨rfl, ha⟩ := List.cons.inj htext
        have ha : a ++ (construct d rest).2 = rest := ha
        rw [← List.take_append_drop (d :: a).length s', hhead, List.cons_append]
        generalize hleft : (construct d rest).2 = left at hrest ha
        subst ha
        refine .same hleft (fun text name hmem => ?_) hrest
        exact hmark (comment_of_mem_construct hmem)

theorem Rewritten.sameSites {s s' : List Char} (h : Rewritten s s') :
    SameSites (tokens s) (tokens s') := h.redrawn.place 0

end EmbeddedExpr.Markup
