/-
  EmbeddedExpr.Proofs.Markup.RawText
  ──────────────────────────────────
  **WHERE RAW TEXT BEGINS AND ENDS.**

  Raw text stands right after the opening tag of a raw element, and goes on to the end of the
  document or to where `closesRaw` sees the element's name, in any case and with no word
  character after it.  The tag that is read there has the element's name when its letters are
  the name in ASCII and no other character of a name follows them:

      ClosedBy name offset after  ↔  letters.map Char.toLower = name
                                       ∧ ∀ c ∈ rest.head?, c ∉ [':', '.', '-']

  Otherwise the raw text ends before a tag of another name, or before character data.
-/
import EmbeddedExpr.Proofs.Markup.Extent
import EmbeddedExpr.Proofs.Text.Case

namespace EmbeddedExpr.Markup

/-! ## §1. What is read where raw text ends. -/

/-- A closing tag with the name begins at the offset, before all other tokens. -/
def ClosedBy (name : List Char) (offset : Nat) (after : List Token) : Prop :=
  ∃ closer ∈ after.head?, closer.kind = .tagStart ∧ closer.start = offset
    ∧ ['<', '/'] <+: closer.text ∧ closer.name = some name

/-- A raw element is closed by its name in any case. -/
theorem exists_letters_of_closesRaw {name s : List Char} (h : closesRaw name s = true) :
    ∃ letters rest, s = '<' :: '/' :: (letters ++ rest) ∧ Text.Recased name letters
      ∧ ∀ c ∈ rest.head?, Text.isWord c = false := by
  unfold closesRaw at h
  split at h
  · next more =>
    split at h
    · next hword =>
      obtain ⟨letters, hmore, hcase⟩ := Text.exists_letters_of_afterWord? hword
      refine ⟨letters, [], by rw [hmore], hcase, ?_⟩
      intro c hc
      cases hc
    · next d rest hword =>
      obtain ⟨letters, hmore, hcase⟩ := Text.exists_letters_of_afterWord? hword
      refine ⟨letters, d :: rest, by rw [hmore], hcase, ?_⟩
      intro c hc
      obtain rfl := Option.some.inj hc
      simpa using h
    · cases h
  · cases h

/-- The names of raw elements are small ASCII letters other than `k`. -/
theorem rawNames_letters {name : List Char} (h : name ∈ rawNames) :
    name ≠ [] ∧ ∀ letter ∈ name,
      isTagLetter letter = true ∧ letter.toNat < 128 ∧ letter ≠ 'k' := by
  have hall : ∀ name ∈ rawNames, name ≠ [] ∧ (name.all fun letter =>
      isTagLetter letter && decide (letter.toNat < 128) && decide (letter ≠ 'k')) = true := by decide
  obtain ⟨hne, hletters⟩ := hall name h
  refine ⟨hne, fun letter hl => ?_⟩
  have hletter := List.all_eq_true.mp hletters letter hl
  simp only [Bool.and_eq_true, decide_eq_true_eq] at hletter
  exact ⟨hletter.1.1, hletter.1.2, hletter.2⟩

theorem isTagLetter_of_toLower {c : Char} (hascii : c.toLower.toNat < 128)
    (h : isTagLetter c.toLower = true) : isTagLetter c = true := by
  have heq := Text.isAlpha_toLower_of_ascii (Text.ascii_of_toLower hascii)
  exact heq.symm.trans h

/-- What is a letter of a raw element's name up to case may stand in the name of a tag. -/
theorem isTagChar_of_isCaseOf {letter c : Char} (hletter : isTagLetter letter = true)
    (hascii : letter.toNat < 128) (hk : letter ≠ 'k') (h : Text.isCaseOf letter c = true) :
    isTagChar c = true := by
  rcases Text.eq_of_isCaseOf h hk with rfl | ⟨-, rfl⟩ | ⟨-, rfl⟩ | ⟨-, rfl⟩
  · refine (isTagChar_iff c).mpr (Or.inl ?_)
    exact isWord_of_isTagLetter (isTagLetter_of_toLower hascii hletter)
  · decide +kernel
  · decide +kernel
  · decide +kernel

section Closing

variable {name letters rest : List Char}

theorem takeWhile_isTagChar_eq_nil_iff (hrest : ∀ c ∈ rest.head?, Text.isWord c = false) :
    rest.takeWhile isTagChar = [] ↔ ∀ c ∈ rest.head?, c ∉ [':', '.', '-'] := by
  cases rest with
  | nil => simp
  | cons d more =>
    have hchar : isTagChar d = true ↔ d ∈ [':', '.', '-'] := by
      rw [isTagChar_iff, InTagName, hrest d rfl]
      simp only [Bool.false_eq_true, false_or]
    have hhead : (∀ c ∈ (d :: more).head?, c ∉ [':', '.', '-']) ↔ ¬ isTagChar d = true := by
      rw [hchar]
      simp
    rw [hhead, List.takeWhile_cons]
    split
    · next hd => simp [hd]
    · next hd => simp [hd]

/-- The name of the tag is that of the element only when its letters are so in ASCII, and it
does not go on after them. -/
theorem lower_written_iff (hname : name ∈ rawNames)
    (hcase : Text.Recased name letters) (hrest : ∀ c ∈ rest.head?, Text.isWord c = false) :
    Text.lower ((letters ++ rest).takeWhile isTagChar) = name
      ↔ letters.map Char.toLower = name ∧ ∀ c ∈ rest.head?, c ∉ [':', '.', '-'] := by
  obtain ⟨-, hletters⟩ := rawNames_letters hname
  have hword : ∀ letter ∈ name, letter.toNat < 128 ∧ letter ≠ 'k' :=
    fun letter hl => (hletters letter hl).2
  have hchars : ∀ c ∈ letters, isTagChar c = true := by
    intro c hc
    obtain ⟨letter, hmem, hc⟩ := hcase.exists_of_mem hc
    obtain ⟨hl, hascii, hne⟩ := hletters letter hmem
    exact isTagChar_of_isCaseOf hl hascii hne hc
  rw [List.takeWhile_append_of_pos hchars, ← takeWhile_isTagChar_eq_nil_iff hrest]
  constructor
  · intro heq
    -- the letters alone make up the length of the name
    have hlen := Text.length_le_lowerAfter (letters ++ rest.takeWhile isTagChar) []
    have hle : (letters ++ rest.takeWhile isTagChar).length ≤ name.length := heq ▸ hlen
    rw [List.length_append, hcase.length_eq] at hle
    have hnil : rest.takeWhile isTagChar = [] := List.length_eq_zero_iff.mp (by omega)
    rw [hnil, List.append_nil] at heq
    exact ⟨(Text.lowerAfter_eq_iff hword hcase []).mp heq, hnil⟩
  · intro h
    obtain ⟨hmap, hnil⟩ := h
    rw [hnil, List.append_nil]
    exact (Text.lowerAfter_eq_iff hword hcase []).mpr hmap

/-- The tag that is read where raw text ends begins with the whole name that stands there. -/
theorem closedBy_iff_lower {letter : Char} {more : List Char} (hl : isTagLetter letter = true)
    (offset : Nat) :
    ClosedBy name offset (place offset (pieces ('<' :: '/' :: letter :: more)))
      ↔ Text.lower ((letter :: more).takeWhile isTagChar) = name := by
  have hopening : opening? ('<' :: '/' :: letter :: more) = some (.tag true) := if_pos hl
  have hpieces : ∃ ps, pieces ('<' :: '/' :: letter :: more)
      = .token .tagStart ('<' :: '/' :: (letter :: more).takeWhile isTagChar)
          (some (Text.lower ((letter :: more).takeWhile isTagChar))) :: ps := by
    rw [pieces, construct, hopening]
    exact ⟨_, rfl⟩
  obtain ⟨ps, hps⟩ := hpieces
  rw [hps]
  constructor
  · intro h
    obtain ⟨closer, hcloser, -, -, -, hname⟩ := h
    obtain rfl := Option.some.inj hcloser
    exact Option.some.inj hname
  · intro heq
    exact ⟨_, rfl, rfl, rfl, List.prefix_append ['<', '/'] _, congrArg some heq⟩

/-- Where no letter follows the slash, character data is read. -/
theorem not_closedBy_of_not_isTagLetter {letter : Char} {more : List Char}
    (hl : ¬ isTagLetter letter = true) (offset : Nat) :
    ¬ ClosedBy name offset (place offset (pieces ('<' :: '/' :: letter :: more))) := by
  have hopening : opening? ('<' :: '/' :: letter :: more) = none := if_neg hl
  intro h
  obtain ⟨closer, hcloser, hk, -⟩ := h
  rw [pieces, construct, hopening] at hcloser
  obtain rfl := Option.some.inj hcloser
  cases hk

/-- **The tag that is read where raw text ends is a closing tag of the element when its letters
are the name in ASCII and no other character of a name follows, and in no other case.** -/
theorem closedBy_iff (hname : name ∈ rawNames)
    (hcase : Text.Recased name letters) (hrest : ∀ c ∈ rest.head?, Text.isWord c = false)
    (offset : Nat) :
    ClosedBy name offset (place offset (pieces ('<' :: '/' :: (letters ++ rest))))
      ↔ letters.map Char.toLower = name ∧ ∀ c ∈ rest.head?, c ∉ [':', '.', '-'] := by
  obtain ⟨hne, hletters⟩ := rawNames_letters hname
  have hwritten := lower_written_iff hname hcase hrest
  cases hcase with
  | nil => exact absurd rfl hne
  | @cons small letter word more hc hmore =>
    by_cases hl : isTagLetter letter = true
    · rw [← hwritten]
      exact closedBy_iff_lower hl offset
    · refine iff_of_false (not_closedBy_of_not_isTagLetter hl offset) ?_
      -- the name begins with a letter in ASCII
      intro h
      have hsmall : letter.toLower = small := (List.cons.inj h.1).1
      obtain ⟨hletter, hascii, -⟩ := hletters small List.mem_cons_self
      rw [← hsmall] at hletter hascii
      exact hl (isTagLetter_of_toLower hascii hletter)

end Closing

/-! ## §2. The opening tag. -/

/-- The pieces end with the opening tag of a raw element. -/
def Opens (name : List Char) (front : List Piece) : Prop :=
  ∃ (earlier : List Piece) (written : List Char) (inner : List Piece),
    front = earlier ++ .token .tagStart ('<' :: written) (some name)
      :: (inner ++ [.token .tagEnd ['>'] none])
    ∧ (∀ c ∈ written, isTagChar c = true) ∧ ∀ p ∈ inner, p.IsAttr

theorem Opens.append_left {name : List Char} {front : List Piece} (h : Opens name front)
    (earlier : List Piece) : Opens name (earlier ++ front) := by
  obtain ⟨earlier', written, inner, rfl, hchars, hinner⟩ := h
  exact ⟨earlier ++ earlier', written, inner, (List.append_assoc ..).symm, hchars, hinner⟩

/-- The contents after a tag are none, or raw text up to a closing tag or to the end. -/
theorem contents_eq_rawText {name : List Char} {closing : Bool} {ending : Ending} {s : List Char}
    (h : (contents name closing ending s).1 ≠ []) :
    closing = false ∧ ending = .closed ∧ name ∈ rawNames
      ∧ (∃ raw, (contents name closing ending s).1 = [.token .rawText raw none])
      ∧ ((contents name closing ending s).2 = []
        ∨ closesRaw name (contents name closing ending s).2 = true) := by
  unfold contents at h ⊢
  split at h
  · next hraw =>
    rw [if_pos hraw]
    simp only [Bool.and_eq_true, Bool.not_eq_true', decide_eq_true_eq,
      List.contains_iff_mem] at hraw
    refine ⟨hraw.1.1, hraw.1.2, hraw.2, ⟨(rawText name s).1, ?_⟩, ((upTo_rawText name).stops_at s).2⟩
    simp only at h ⊢
    split at h
    · exact absurd rfl h
    · next hempty => rw [if_neg hempty]
  · exact absurd rfl h

/-- Raw text in a tag is the last piece of it, and stands after its end mark. -/
theorem tag_rawText {closing : Bool} {s text : List Char} {o : Option (List Char)}
    {front back : List Piece} (h : (tag closing s).1 = front ++ .token .rawText text o :: back) :
    ∃ name ∈ rawNames, Opens name front ∧ back = []
      ∧ ((tag closing s).2 = [] ∨ closesRaw name (tag closing s).2 = true) := by
  obtain ⟨written, rest, hchars, heq⟩ := tag_eq closing s
  obtain ⟨inner, hinner, hbody⟩ := tagBody_pieces rest
  generalize hmark : (tagBody rest).2.1.mark? = mark at hbody
  have hnot : ∀ (raw : List Char) (o' : Option (List Char)),
      Piece.token .rawText raw o' ∉ Piece.token .tagStart
        ((if closing then ['<', '/'] else ['<']) ++ written) (some (Text.lower written))
          :: (tagBody rest).1 := by
    intro raw o' hmem
    rw [hbody] at hmem
    rcases List.mem_cons.mp hmem with hp | hmem
    · cases (Piece.token.inj hp).1
    · rcases List.mem_append.mp hmem with hp | hp
      · exact Piece.not_isAttr (by decide) (by decide) (hinner _ hp)
      · cases mark with
        | none => cases hp
        | some m => cases (Piece.token.inj (List.mem_singleton.mp hp)).1
  rw [heq] at h ⊢
  simp only at h ⊢
  rw [← List.cons_append] at h
  by_cases hnil : (contents (Text.lower written) closing (tagBody rest).2.1
      (tagBody rest).2.2).1 = []
  · -- without contents the tag has no raw text
    rw [hnil, List.append_nil] at h
    exact absurd (h ▸ List.mem_append_right front List.mem_cons_self) (hnot text o)
  · obtain ⟨rfl, hclosed, hname, ⟨raw, hraw⟩, hleft⟩ := contents_eq_rawText hnil
    rw [hraw, List.append_cons_inj_of_notMem (hnot text o) (List.not_mem_nil)] at h
    obtain ⟨rfl, -, rfl⟩ := h
    refine ⟨Text.lower written, hname, ⟨[], written, inner, ?_, hchars, hinner⟩, rfl, hleft⟩
    rw [hclosed] at hmark
    rw [hbody, ← hmark]
    rfl

/-- Raw text is the last piece of a construct, and stands after an opening tag. -/
theorem construct_rawText {c : Char} {rest text : List Char} {o : Option (List Char)}
    {front back : List Piece}
    (h : (construct c rest).1 = front ++ .token .rawText text o :: back) :
    ∃ name ∈ rawNames, Opens name front ∧ back = []
      ∧ ((construct c rest).2 = [] ∨ closesRaw name (construct c rest).2 = true) := by
  have hmem : Piece.token .rawText text o ∈ (construct c rest).1 :=
    h ▸ List.mem_append_right front List.mem_cons_self
  unfold construct at h hmem ⊢
  cases ho : opening? (c :: rest) with
  | none =>
    rw [ho] at hmem
    cases (Piece.token.inj (List.mem_singleton.mp hmem)).1
  | some opening =>
    cases opening with
    | fenced kind mark closing =>
      -- no fence is that of raw text
      have hkind : ∀ f ∈ fences, f.1 ≠ .rawText := by decide
      rw [ho] at hmem
      exact absurd (Piece.token.inj (List.mem_singleton.mp hmem)).1.symm
        (hkind _ (fence_of_opening? ho).1)
    | tag closing =>
      rw [ho] at h
      exact tag_rawText h

/-- **Raw text is the end of whole constructs**, the last of which begins with an opening tag. -/
theorem reads_of_rawText {s text : List Char} {o : Option (List Char)} {front back : List Piece}
    (h : pieces s = front ++ .token .rawText text o :: back) :
    ∃ name ∈ rawNames, Opens name front
      ∧ ∃ left, Reads s (front ++ [.token .rawText text o]) left
        ∧ (left = [] ∨ closesRaw name left = true) := by
  obtain ⟨earlier, inner, more, c, rest, hreads, rfl, hpiece⟩ := exists_construct_of_piece h
  obtain ⟨name, hname, hopens, rfl, hleft⟩ := construct_rawText hpiece
  refine ⟨name, hname, hopens.append_left earlier, (construct c rest).2, ?_, hleft⟩
  rw [List.append_assoc, ← hpiece]
  exact hreads.snoc

/-- The last tag among placed pieces that end with an opening tag is that one. -/
theorem Opens.lastTag {name : List Char} {front : List Piece} (h : Opens name front)
    (hname : name ∈ rawNames) (offset : Nat) :
    ∃ opener ∈ lastTag? (place offset front), opener.opensRaw = true ∧ opener.name = some name := by
  obtain ⟨earlier, written, inner, rfl, hchars, hinner⟩ := h
  rw [place_append, place]
  refine ⟨_, lastTag?_append_cons _ rfl ?_, ?_, rfl⟩
  · intro u hu hk
    have hp := piece_of_mem_place hu
    rw [hk] at hp
    rcases List.mem_append.mp hp with hp | hp
    · exact Piece.not_isAttr (by decide) (by decide) (hinner _ hp)
    · cases (Piece.token.inj (List.mem_singleton.mp hp)).1
  · exact Token.opensRaw_of_text rfl hname rfl hchars

/-! ## §3. Raw text in a document. -/

/-- **Raw text stands after the opening tag of a raw element.**  It goes on to the end of the
document or to the element's name after `</`, in any case and with no word character after
it.  The tag that is read there closes the element when the letters are its name in ASCII and
the name does not go on with a colon, a stop or a dash; otherwise it does not. -/
theorem rawText_closed {s : List Char} {before after : List Token} {r : Token}
    (h : tokens s = before ++ r :: after) (hr : r.kind = .rawText) :
    ∃ opener ∈ lastTag? before, opener.opensRaw = true ∧ ∃ name ∈ rawNames,
      opener.name = some name
      ∧ ((r.stop = s.length ∧ after = [])
        ∨ ∃ letters rest, s.drop r.stop = '<' :: '/' :: (letters ++ rest)
          ∧ Text.Recased name letters ∧ (∀ c ∈ rest.head?, Text.isWord c = false)
          ∧ (ClosedBy name r.stop after
            ↔ letters.map Char.toLower = name ∧ ∀ c ∈ rest.head?, c ∉ [':', '.', '-'])) := by
  obtain ⟨front, back, hps, hfront, hstart, hstop⟩ := place_eq_append_cons h
  rw [Nat.zero_add] at hstart
  rw [hr] at hps
  obtain ⟨name, hname, hopens, left, hreads, hleft⟩ := reads_of_rawText hps
  rw [← hr] at hreads
  obtain ⟨-, hdrop, htokens⟩ := hreads.split hstart hstop
  obtain ⟨opener, hlast, hraw, hopener⟩ := hopens.lastTag hname 0
  rw [hfront] at hlast htokens
  have hafter : after = place r.stop (pieces left) := by
    have heq := List.append_cancel_left (h.symm.trans htokens)
    exact (List.cons.inj heq).2
  refine ⟨opener, hlast, hraw, name, hname, hopener, ?_⟩
  rcases hleft with rfl | hclose
  · refine Or.inl ⟨?_, ?_⟩
    · have hle := stop_le_length (h ▸ List.mem_append_right before List.mem_cons_self)
      have hlen := List.drop_eq_nil_iff.mp hdrop
      omega
    · rw [hafter, pieces, place]
  · obtain ⟨letters, rest, rfl, hcase, hrest⟩ := exists_letters_of_closesRaw hclose
    refine Or.inr ⟨letters, rest, hdrop, hcase, hrest, ?_⟩
    rw [hafter]
    exact closedBy_iff hname hcase hrest r.stop

/-- A closing tag in capital letters closes its element. -/
theorem rawText_closed_capitals :
    ∃ before r after, tokens "<script>a</SCRIPT>".toList = before ++ r :: after
      ∧ r.kind = .rawText ∧ (∃ opener ∈ lastTag? before, opener.name = some "script".toList)
      ∧ ClosedBy "script".toList r.stop after := by
  have htokens : tokens "<script>a</SCRIPT>".toList
      = [⟨.tagStart, 0, 7, "<script".toList, some "script".toList⟩,
          ⟨.tagEnd, 7, 8, ">".toList, none⟩]
        ++ ⟨.rawText, 8, 9, "a".toList, none⟩
        :: [⟨.tagStart, 9, 17, "</SCRIPT".toList, some "script".toList⟩,
          ⟨.tagEnd, 17, 18, ">".toList, none⟩] := by decide +kernel
  obtain ⟨opener, hlast, -, name, -, hname, hend⟩ := rawText_closed htokens rfl
  obtain rfl := Option.some.inj hlast
  obtain rfl := Option.some.inj hname
  refine ⟨_, _, _, htokens, rfl, ⟨_, hlast, rfl⟩, ?_⟩
  rcases hend with ⟨hstop, -⟩ | ⟨letters, rest, hdrop, hcase, -, hiff⟩
  · exact absurd hstop (by decide)
  · have happend : "SCRIPT".toList ++ ">".toList = letters ++ rest :=
      (List.cons.inj (List.cons.inj hdrop).2).2
    have hlen : "SCRIPT".toList.length = letters.length := by
      rw [← hcase.length_eq]
      decide +kernel
    obtain ⟨rfl, rfl⟩ := List.append_inj happend hlen
    refine hiff.mpr ⟨by decide, ?_⟩
    intro c hc
    obtain rfl := Option.some.inj hc
    decide

/-- Raw text may end before a tag whose name only begins with that of the element. -/
theorem exists_not_closedBy :
    ¬ ∀ (s : List Char) (before after : List Token) (r : Token),
      tokens s = before ++ r :: after → r.kind = .rawText → r.stop = s.length
        ∨ ∃ opener ∈ lastTag? before, ∃ name, opener.name = some name
          ∧ ClosedBy name r.stop after := by
  intro h
  have htokens : tokens "<script>a</script-x>b</script>".toList
      = [⟨.tagStart, 0, 7, "<script".toList, some "script".toList⟩,
          ⟨.tagEnd, 7, 8, ">".toList, none⟩]
        ++ ⟨.rawText, 8, 9, "a".toList, none⟩
        :: [⟨.tagStart, 9, 19, "</script-x".toList, some "script-x".toList⟩,
          ⟨.tagEnd, 19, 20, ">".toList, none⟩, ⟨.text, 20, 21, "b".toList, none⟩,
          ⟨.tagStart, 21, 29, "</script".toList, some "script".toList⟩,
          ⟨.tagEnd, 29, 30, ">".toList, none⟩] := by decide +kernel
  rcases h _ _ _ _ htokens rfl with hstop | ⟨opener, hlast, name, hname, closer, hcloser, -, -, -, heq⟩
  · exact absurd hstop (by decide)
  · obtain rfl := Option.some.inj hlast
    obtain rfl := Option.some.inj hcloser
    exact absurd (hname.trans heq.symm) (by decide)

end EmbeddedExpr.Markup
