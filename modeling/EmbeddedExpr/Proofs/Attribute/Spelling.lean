/-
  EmbeddedExpr.Proofs.Attribute.Spelling
  ──────────────────────────────────────
  **ALL SPELLINGS OF AN ATTRIBUTE ARE ONE ATTRIBUTE.**

  A registry asks for the directive of a name.  Its steps come in a fixed order: white space, case,
  lead, separators.  In ASCII the order does not matter: case and separators can be folded first,
  character by character (`directive_of_ascii`),

      directive name = withoutLead (trim (name.map folded))

  so that names that are spelled alike (`Respelled`) have one directive, and a lead in front of a
  name that has none changes nothing (`Registry.isExpression_spelling`).
-/
import EmbeddedExpr.Proofs.Attribute.Listed

namespace EmbeddedExpr

/-! ## §1. Texts of ASCII. -/

namespace Text

/-- The characters of the text are those of ASCII. -/
def IsAscii (s : List Char) : Prop := ∀ c ∈ s, c.toNat < 128

instance : DecidablePred IsAscii := fun s => List.decidableBAll (fun c : Char => c.toNat < 128) s

theorem lowerAfter_of_ascii {s : List Char} :
    ∀ before : List Char, IsAscii s → lowerAfter before s = s.map Char.toLower := by
  induction s with
  | nil => intro before _; rfl
  | cons c rest ih =>
    intro before h
    rw [lowerAfter_cons_of_ascii (h c List.mem_cons_self), List.map_cons,
      ih (c :: before) fun d hd => h d (List.mem_cons_of_mem _ hd)]

theorem lower_of_ascii {s : List Char} (h : IsAscii s) : lower s = s.map Char.toLower :=
  lowerAfter_of_ascii [] h

/-- A map that keeps white space apart from the rest can be carried out before trimming. -/
theorem trimLeft_map {f : Char → Char} {s : List Char} (h : ∀ c ∈ s, isBlank (f c) = isBlank c) :
    trimLeft (s.map f) = (trimLeft s).map f := by
  induction s with
  | nil => rfl
  | cons c rest ih =>
    have hrest := ih fun d hd => h d (List.mem_cons_of_mem _ hd)
    unfold trimLeft at hrest ⊢
    rw [List.map_cons, List.dropWhile_cons, List.dropWhile_cons, h c List.mem_cons_self, hrest]
    split
    · rfl
    · rfl

theorem trimRight_map {f : Char → Char} {s : List Char} (h : ∀ c ∈ s, isBlank (f c) = isBlank c) :
    trimRight (s.map f) = (trimRight s).map f := by
  show (trimLeft (s.map f).reverse).reverse = ((trimLeft s.reverse).reverse).map f
  rw [← List.map_reverse, trimLeft_map, List.map_reverse]
  intro c hc
  exact h c (List.mem_reverse.mp hc)

theorem trimLeft_suffix (s : List Char) : trimLeft s <:+ s := List.dropWhile_suffix isBlank

theorem trim_map {f : Char → Char} {s : List Char} (h : ∀ c ∈ s, isBlank (f c) = isBlank c) :
    trim (s.map f) = (trim s).map f := by
  unfold trim
  rw [trimLeft_map h, trimRight_map]
  intro c hc
  exact h c ((trimLeft_suffix s).subset hc)

/-- Trimming leaves alone what stands in front of a text, if there is no white space in it and none
at the head of the text. -/
theorem trim_append {front s : List Char} (hne : front ≠ []) (hfront : front.any isBlank = false)
    (hs : ∀ c ∈ s.head?, isBlank c = false) : trim (front ++ s) = front ++ trim s := by
  have hclean : ∀ c ∈ front, isBlank c = false := by
    intro c hc
    exact Bool.eq_false_iff.mpr (List.any_eq_false.mp hfront c hc)
  have htrim : trim s = trimRight s := by
    unfold trim
    rw [trimLeft_of_head hs]
  obtain ⟨back, heq, hback⟩ := trimRight_eq s
  symm
  apply IsTrimmed.eq_trim
  constructor
  case around =>
    refine ⟨[], back, ?_, by simp, hback⟩
    rw [htrim, List.nil_append, List.append_assoc, ← heq]
  case head =>
    intro c hc
    rw [List.head?_append_of_ne_nil _ hne] at hc
    exact hclean c (List.mem_of_mem_head? hc)
  case last =>
    intro c hc
    rw [List.getLast?_append] at hc
    cases hlast : (trim s).getLast? with
    | none =>
      rw [hlast] at hc
      exact hclean c (List.mem_of_getLast? hc)
    | some last =>
      rw [hlast] at hc
      exact (isTrimmed_trim s).last c (hlast.trans hc)

end Text

namespace Attribute

open Text (IsAscii isBlank forall_ascii)

/-! ## §2. Spellings. -/

/-- Two names of one length differ only in the case of letters, and in which separator stands where
either has one. -/
def Respelled (name other : List Char) : Prop :=
  List.Forall₂ (fun c d => c.toLower = d.toLower ∨ isSeparator c = true ∧ isSeparator d = true)
    name other

/-- There is no separator in the text. -/
def IsWord (s : List Char) : Prop := ∀ c ∈ s, isSeparator c = false

instance : DecidablePred IsWord := fun s => List.decidableBAll (fun c => isSeparator c = false) s

/-- The word `data` or `x` in any case, with any separator after it. -/
def IsLead (lead : List Char) : Prop :=
  ∃ word c, lead = word ++ [c] ∧ isSeparator c = true
    ∧ (word.map Char.toLower = "data".toList ∨ word.map Char.toLower = "x".toList)

/-- The character in lower case, and a hyphen for every separator. -/
def folded (c : Char) : Char := if isSeparator c then '-' else c.toLower

variable {name other lead s : List Char} {c : Char}

theorem isSeparator_toLower (hc : c.toNat < 128) : isSeparator c.toLower = isSeparator c :=
  forall_ascii (P := fun c => isSeparator c.toLower = isSeparator c) (by decide +kernel) hc

theorem isBlank_folded (hc : c.toNat < 128) : isBlank (folded c) = isBlank c :=
  forall_ascii (P := fun c => isBlank (folded c) = isBlank c) (by decide +kernel) hc

/-- Lower case first and hyphens then fold a character. -/
theorem hyphenate_toLower (hc : c.toNat < 128) :
    (if c.toLower = ':' || c.toLower = '_' then '-' else c.toLower) = folded c :=
  forall_ascii (P := fun c => (if c.toLower = ':' || c.toLower = '_' then '-' else c.toLower)
    = folded c) (by decide +kernel) hc

theorem toNat_lt_of_isSeparator (h : isSeparator c = true) : c.toNat < 128 := by
  simp only [isSeparator, Bool.or_eq_true, decide_eq_true_eq] at h
  rcases h with (rfl | rfl) | rfl
  · decide
  · decide
  · decide

theorem isAscii_of_respelled (h : Respelled name other) (hname : IsAscii name) : IsAscii other := by
  induction h with
  | nil => exact hname
  | @cons c d name other hcd _ ih =>
    have hrest := ih fun e he => hname e (List.mem_cons_of_mem _ he)
    intro e he
    rcases List.mem_cons.mp he with rfl | he
    · rcases hcd with hlower | ⟨-, hd⟩
      · have hc : c.toLower.toNat < 128 :=
          forall_ascii (P := fun c => c.toLower.toNat < 128) (by decide +kernel)
            (hname c List.mem_cons_self)
        rw [hlower] at hc
        exact Text.ascii_of_toLower hc
      · exact toNat_lt_of_isSeparator hd
    · exact hrest e he

/-- **Spellings of one name are folded into one text.** -/
theorem map_folded_of_respelled (h : Respelled name other) (hname : IsAscii name) :
    name.map folded = other.map folded := by
  have hother := isAscii_of_respelled h hname
  induction h with
  | nil => rfl
  | @cons c d name other hcd _ ih =>
    have hrest := ih (fun e he => hname e (List.mem_cons_of_mem _ he))
      (fun e he => hother e (List.mem_cons_of_mem _ he))
    have hhere : folded c = folded d := by
      unfold folded
      rcases hcd with hlower | ⟨hc, hd⟩
      · have hsame : isSeparator c = isSeparator d := by
          rw [← isSeparator_toLower (hname c List.mem_cons_self), hlower,
            isSeparator_toLower (hother d List.mem_cons_self)]
        rw [hsame, hlower]
      · rw [if_pos hc, if_pos hd]
    rw [List.map_cons, List.map_cons, hhere, hrest]

/-! ## §3. Leads. -/

/-- A hyphen in place of a separator is a separator. -/
theorem isSeparator_hyphen (c : Char) :
    isSeparator (if c = ':' || c = '_' then '-' else c) = isSeparator c := by
  split
  · next h =>
    rcases Bool.or_eq_true _ _ ▸ h with h | h
    · rw [of_decide_eq_true h]
      rfl
    · rw [of_decide_eq_true h]
      rfl
  · rfl

/-- Hyphens take part in no lead but as its separator. -/
theorem hasLead_of_hyphenate (h : HasLead (hyphenate s)) : HasLead s := by
  have hletter : ∀ {c l : Char}, (if c = ':' || c = '_' then '-' else c) = l → l ≠ '-' → c = l := by
    intro c l hc hl
    split at hc
    · exact absurd hc.symm hl
    · exact hc
  unfold HasLead hyphenate at h
  simp only [List.map_eq_cons_iff] at h
  obtain ⟨c, rest, hc, heq | heq⟩ := h
  · obtain ⟨d, _, rfl, hd, a, _, rfl, ha, t, _, rfl, ht, a', _, rfl, ha', b, more, rfl, rfl, -⟩ := heq
    rw [hletter hd (by decide), hletter ha (by decide), hletter ht (by decide),
      hletter ha' (by decide)]
    rw [isSeparator_hyphen] at hc
    exact ⟨b, more, hc, Or.inl rfl⟩
  · obtain ⟨x, _, rfl, hx, b, more, rfl, rfl, -⟩ := heq
    rw [hletter hx (by decide)]
    rw [isSeparator_hyphen] at hc
    exact ⟨b, more, hc, Or.inr rfl⟩

/-- Taking the lead away and writing hyphens can change places. -/
theorem hyphenate_withoutLead (s : List Char) :
    hyphenate (withoutLead s) = withoutLead (hyphenate s) := by
  by_cases h : HasLead s
  · obtain ⟨c, rest, hc, rfl | rfl⟩ := h
    · show hyphenate (if isSeparator c then rest else _)
        = if isSeparator (if c = ':' || c = '_' then '-' else c) then hyphenate rest else _
      rw [isSeparator_hyphen, if_pos hc, if_pos hc]
    · show hyphenate (if isSeparator c then rest else _)
        = if isSeparator (if c = ':' || c = '_' then '-' else c) then hyphenate rest else _
      rw [isSeparator_hyphen, if_pos hc, if_pos hc]
  · rw [withoutLead_of_not_hasLead h, withoutLead_of_not_hasLead]
    intro hlead
    exact h (hasLead_of_hyphenate hlead)

/-- **In ASCII, the directive of a name is told by its folded characters.** -/
theorem directive_of_ascii (h : IsAscii name) :
    directive name = withoutLead (Text.trim (name.map folded)) := by
  have htrimmed : IsAscii (Text.trim name) := by
    obtain ⟨front, back, heq, -, -⟩ := (Text.isTrimmed_trim name).around
    intro c hc
    apply h c
    rw [heq]
    exact List.mem_append_left _ (List.mem_append_right _ hc)
  unfold directive
  rw [hyphenate_withoutLead, Text.lower_of_ascii htrimmed,
    Text.trim_map fun c hc => isBlank_folded (h c hc)]
  unfold hyphenate
  rw [List.map_map]
  congr 1
  apply List.map_congr_left
  intro c hc
  exact hyphenate_toLower (htrimmed c hc)

/-- A word without separators is folded as it is lowered. -/
theorem map_folded_eq_iff {word letters : List Char} (hword : IsAscii word)
    (h : IsWord letters) :
    word.map folded = letters ↔ word.map Char.toLower = letters := by
  have hhyphen : ∀ l ∈ letters, l ≠ '-' := by
    intro l hl heq
    have hfalse := h l hl
    rw [heq] at hfalse
    exact absurd hfalse (by decide)
  constructor
  · intro heq
    rw [← heq]
    apply List.map_congr_left
    intro c hc
    have hne := hhyphen (folded c) (heq ▸ List.mem_map_of_mem hc)
    unfold folded at hne ⊢
    split at hne
    · exact absurd rfl hne
    · next hc => rw [if_neg hc]
  · intro heq
    rw [← heq]
    apply List.map_congr_left
    intro c hc
    have hfalse := h c.toLower (heq ▸ List.mem_map_of_mem hc)
    rw [isSeparator_toLower (hword c hc)] at hfalse
    unfold folded
    rw [if_neg (by simp [hfalse])]

theorem isAscii_of_map_toLower {word letters : List Char} (hletters : IsAscii letters)
    (h : word.map Char.toLower = letters) : IsAscii word := by
  intro c hc
  apply Text.ascii_of_toLower
  exact hletters _ (h ▸ List.mem_map_of_mem hc)

/-- A lead is folded into one of two. -/
theorem IsLead.map_folded (h : IsLead lead) :
    IsAscii lead ∧ (lead.map folded = "data-".toList ∨ lead.map folded = "x-".toList) := by
  obtain ⟨word, c, rfl, hc, hword⟩ := h
  have hsep : folded c = '-' := if_pos hc
  have hascii : IsAscii word := by
    rcases hword with hword | hword
    · exact isAscii_of_map_toLower (by decide) hword
    · exact isAscii_of_map_toLower (by decide) hword
  constructor
  · intro d hd
    rcases List.mem_append.mp hd with hd | hd
    · exact hascii d hd
    · rw [List.mem_singleton.mp hd]
      exact toNat_lt_of_isSeparator hc
  · rw [List.map_append, List.map_singleton, hsep]
    rcases hword with hword | hword
    · rw [(map_folded_eq_iff hascii (by decide)).mpr hword]
      exact Or.inl rfl
    · rw [(map_folded_eq_iff hascii (by decide)).mpr hword]
      exact Or.inr rfl

/-- A text whose folded characters have a lead begins with one. -/
theorem exists_isLead_of_hasLead (hname : IsAscii name) (h : HasLead (name.map folded)) :
    ∃ lead, IsLead lead ∧ lead <+: name := by
  have hsplit : ∀ (letters : List Char) {c : Char} {rest : List Char},
      IsWord letters → isSeparator c = true →
        (letters = "data".toList ∨ letters = "x".toList) →
          name.map folded = letters ++ c :: rest → ∃ lead, IsLead lead ∧ lead <+: name := by
    intro letters c rest hletters hc heither heq
    obtain ⟨word, more, rfl, hword, hmore⟩ := List.map_eq_append_iff.mp heq
    obtain ⟨d, after, rfl, rfl, -⟩ := List.map_eq_cons_iff.mp hmore
    have hascii : IsAscii word := fun e he => hname e (List.mem_append_left _ he)
    rw [map_folded_eq_iff hascii hletters] at hword
    have hd : isSeparator d = true := by
      have hlower := isSeparator_toLower (hname d (by simp))
      unfold folded at hc
      split at hc
      · next hd => exact hd
      · rwa [hlower] at hc
    refine ⟨word ++ [d], ⟨word, d, rfl, hd, ?_⟩, after, ?_⟩
    · rw [hword]
      exact heither
    · rw [List.append_assoc]
      rfl
  obtain ⟨c, rest, hc, heq | heq⟩ := h
  · exact hsplit "data".toList (by decide) hc (Or.inl rfl) heq
  · exact hsplit "x".toList (by decide) hc (Or.inr rfl) heq

/-! ## §4. One directive for all spellings. -/

theorem directive_of_respelled (h : Respelled name other) (hname : IsAscii name) :
    directive name = directive other := by
  -- Beyond ASCII the separator counts: the end of a word is looked for past a colon, but not past a
  -- hyphen, and a capital sigma is lowered by where its word ends.
  rw [directive_of_ascii hname, directive_of_ascii (isAscii_of_respelled h hname),
    map_folded_of_respelled h hname]

/-- A lead in front of a name without one does not change its directive. -/
theorem directive_of_lead (hlead : IsLead lead) (hname : IsAscii name)
    (hhead : ∀ c ∈ name.head?, isBlank c = false) (hnone : ∀ l, IsLead l → ¬ l <+: name) :
    directive (lead ++ name) = directive name := by
  obtain ⟨hascii, hfolded⟩ := hlead.map_folded
  have hboth : IsAscii (lead ++ name) := by
    intro c hc
    exact (List.mem_append.mp hc).elim (hascii c) (hname c)
  have hfoldedHead : ∀ c ∈ (name.map folded).head?, isBlank c = false := by
    intro c hc
    rw [List.head?_map] at hc
    obtain ⟨d, hd, rfl⟩ := Option.map_eq_some_iff.mp hc
    rw [isBlank_folded (hname d (List.mem_of_mem_head? hd))]
    exact hhead d hd
  -- what is left of the folded name after trimming has no lead either
  have hnoLead : ¬ HasLead (Text.trim (name.map folded)) := by
    intro hlead
    obtain ⟨back, heq, -⟩ := Text.trimRight_eq (name.map folded)
    have htrim : Text.trim (name.map folded) = Text.trimRight (name.map folded) := by
      unfold Text.trim
      rw [Text.trimLeft_of_head hfoldedHead]
    have hwhole : HasLead (name.map folded) := by
      rw [heq, ← htrim]
      obtain ⟨c, rest, hc, h | h⟩ := hlead
      · exact ⟨c, rest ++ back, hc, Or.inl (by rw [h]; rfl)⟩
      · exact ⟨c, rest ++ back, hc, Or.inr (by rw [h]; rfl)⟩
    obtain ⟨l, hl, hprefix⟩ := exists_isLead_of_hasLead hname hwhole
    exact hnone l hl hprefix
  rw [directive_of_ascii hboth, directive_of_ascii hname, List.map_append,
    withoutLead_of_not_hasLead hnoLead]
  rcases hfolded with hfolded | hfolded
  · rw [hfolded, Text.trim_append (by decide) (by decide +kernel) hfoldedHead]
    rfl
  · rw [hfolded, Text.trim_append (by decide) (by decide +kernel) hfoldedHead]
    rfl

/-- **All spellings of an attribute are one attribute**, in every registry: names that differ in
case and separators only, and a name with a lead in front that has none of its own. -/
theorem Registry.isExpression_spelling (r : Registry) :
    (∀ name other : List Char, IsAscii name → IsAscii other → Respelled name other →
      r.isExpression name = r.isExpression other)
    ∧ ∀ lead name : List Char, IsLead lead → IsAscii name →
        (∀ c ∈ name.head?, isBlank c = false) → (∀ l, IsLead l → ¬ l <+: name) →
          r.isExpression (lead ++ name) = r.isExpression name := by
  constructor
  · intro name other hname _ h
    unfold isExpression
    rw [directive_of_respelled h hname]
  · intro lead name hlead hname hhead hnone
    unfold isExpression
    rw [directive_of_lead hlead hname hhead hnone]

/-- Two spellings of a name that a project adds, and a lead in front of one of them. -/
theorem Registry.isExpression_spelling_myExpr :
    (IsAscii "My:Expr ".toList ∧ IsAscii "mY_eXPR ".toList
      ∧ Respelled "My:Expr ".toList "mY_eXPR ".toList ∧ IsLead "DaTa_".toList
      ∧ (∀ c ∈ "My:Expr ".toList.head?, isBlank c = false)
      ∧ ∀ l, IsLead l → ¬ l <+: "My:Expr ".toList)
    ∧ (ofExtra addedNames).isExpression "My:Expr ".toList = true
    ∧ (ofExtra addedNames).isExpression "mY_eXPR ".toList = true
    ∧ (ofExtra addedNames).isExpression ("DaTa_".toList ++ "My:Expr ".toList) = true := by
  have hname : IsAscii "My:Expr ".toList := by decide
  have hother : IsAscii "mY_eXPR ".toList := by decide
  have hspelled : Respelled "My:Expr ".toList "mY_eXPR ".toList := by unfold Respelled; decide
  have hlead : IsLead "DaTa_".toList := ⟨"DaTa".toList, '_', rfl, rfl, Or.inl (by decide)⟩
  have hhead : ∀ c ∈ "My:Expr ".toList.head?, isBlank c = false := by
    intro c hc
    rw [← Option.some.inj hc]
    decide +kernel
  have hnone : ∀ l, IsLead l → ¬ l <+: "My:Expr ".toList := by
    -- the name begins with neither letter that leads begin with
    rintro l ⟨word, c, rfl, -, hword⟩ hprefix
    cases word with
    | nil => rcases hword with hword | hword <;> cases hword
    | cons first more =>
      obtain ⟨rfl, -⟩ := List.cons_prefix_cons.mp hprefix
      rcases hword with hword | hword
      · exact absurd (List.cons.inj hword).1 (by decide)
      · exact absurd (List.cons.inj hword).1 (by decide)
  have hrecognised : (ofExtra addedNames).isExpression "My:Expr ".toList = true := by
    decide +kernel
  obtain ⟨hsame, hled⟩ := isExpression_spelling (ofExtra addedNames)
  refine ⟨⟨hname, hother, hspelled, hlead, hhead, hnone⟩, hrecognised, ?_, ?_⟩
  · rw [← hsame _ _ hname hother hspelled]
    exact hrecognised
  · rw [hled _ _ hlead hname hhead hnone]
    exact hrecognised

end Attribute

end EmbeddedExpr
