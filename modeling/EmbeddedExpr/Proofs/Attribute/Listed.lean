/-
  EmbeddedExpr.Proofs.Attribute.Listed
  ────────────────────────────────────
  **WHICH LISTED ATTRIBUTES ARE RECOGNISED.**

  A registry lists directives, and an attribute is recognised when its directive is listed.  A
  directive is in lower case, with hyphens only and no white space at its end (`IsDirective`).
  As the name of an attribute it stands for what is left of it without a lead:

      IsDirective d  →  d does not begin with white space  →  directive d = withoutLead d

  So a listed directive is recognised as it is written if it has no lead, and with a lead in front
  in any case (`Recognised`).  One word is taken away and not two: the directive of
  `data-data-user` is listed as `data-user`, which is not recognised
  (`not_forall_listed_isExpression`).
-/
import EmbeddedExpr.Attribute.Registry
import EmbeddedExpr.Proofs.Text.Lower
import EmbeddedExpr.Proofs.Text.Pieces

namespace EmbeddedExpr.Attribute

open Text (IsSmall isBlank)

/-! ## §1. Leads. -/

/-- The name begins with the word `data` or `x` and a separator. -/
def HasLead (name : List Char) : Prop :=
  ∃ c rest, isSeparator c = true
    ∧ (name = 'd' :: 'a' :: 't' :: 'a' :: c :: rest ∨ name = 'x' :: c :: rest)

variable {s : List Char}

theorem withoutLead_of_not_hasLead (h : ¬ HasLead s) : withoutLead s = s := by
  unfold withoutLead
  split
  · next c rest => exact if_neg fun hc => h ⟨c, rest, hc, Or.inl rfl⟩
  · next c rest => exact if_neg fun hc => h ⟨c, rest, hc, Or.inr rfl⟩
  · rfl

theorem withoutLead_suffix (s : List Char) : withoutLead s <:+ s := by
  unfold withoutLead
  split
  · next c rest =>
    split
    · exact ⟨['d', 'a', 't', 'a', c], rfl⟩
    · exact List.suffix_refl _
  · next c rest =>
    split
    · exact ⟨['x', c], rfl⟩
    · exact List.suffix_refl _
  · exact List.suffix_refl _

/-! ## §2. Directives. -/

/-- A text as the names of directives are written. -/
structure IsDirective (d : List Char) : Prop where
  small : ∀ c ∈ d, IsSmall c
  hyphenated : ∀ c ∈ d, c ≠ ':' ∧ c ≠ '_'
  last : ∀ c ∈ d.getLast?, isBlank c = false

variable {d : List Char}

theorem hyphenate_of_hyphenated (h : ∀ c ∈ s, c ≠ ':' ∧ c ≠ '_') : hyphenate s = s := by
  unfold hyphenate
  refine (List.map_congr_left fun c hc => ?_).trans s.map_id
  obtain ⟨hcolon, hbar⟩ := h c hc
  simp [hcolon, hbar]

theorem isDirective_hyphenate (hsmall : ∀ c ∈ s, IsSmall c)
    (hlast : ∀ c ∈ s.getLast?, isBlank c = false) : IsDirective (hyphenate s) := by
  have hhyphen : IsSmall '-' := ⟨by decide +kernel, by decide, by decide⟩
  unfold hyphenate
  constructor
  case small =>
    intro c hc
    obtain ⟨b, hb, rfl⟩ := List.mem_map.mp hc
    split
    · exact hhyphen
    · exact hsmall b hb
  case hyphenated =>
    intro c hc
    obtain ⟨b, -, rfl⟩ := List.mem_map.mp hc
    split
    · decide
    · next h => simpa using h
  case last =>
    intro c hc
    rw [List.getLast?_map] at hc
    obtain ⟨b, hb, rfl⟩ := Option.map_eq_some_iff.mp hc
    split
    · decide +kernel
    · exact hlast b hb

/-- **The directive of an attribute is written as directives are.** -/
theorem isDirective_directive (name : List Char) : IsDirective (directive name) := by
  have hsuffix := withoutLead_suffix (Text.lower (Text.trim name))
  refine isDirective_hyphenate (fun c hc => Text.isSmall_of_mem_lower (hsuffix.subset hc)) ?_
  intro c hc
  refine Text.isBlank_getLast?_lower (Text.isTrimmed_trim name).last c ?_
  -- the end of what is left is the end of the whole
  obtain ⟨front, heq⟩ := hsuffix
  show c ∈ (Text.lower (Text.trim name)).getLast?
  rw [← heq, List.getLast?_append, Option.mem_def.mp hc]
  rfl

/-- **As the name of an attribute, a directive stands for what is left without its lead.** -/
theorem IsDirective.directive_eq (h : IsDirective d) (hhead : ∀ c ∈ d.head?, isBlank c = false) :
    directive d = withoutLead d := by
  have htrim : d = Text.trim d :=
    Text.IsTrimmed.eq_trim ⟨⟨[], [], by simp, by simp, by simp⟩, hhead, h.last⟩
  unfold directive
  rw [← htrim, Text.lower_of_small h.small]
  exact hyphenate_of_hyphenated fun c hc => h.hyphenated c ((withoutLead_suffix d).subset hc)

/-- A lead in front of a directive leads to it. -/
theorem IsDirective.directive_append (h : IsDirective d) {lead : List Char}
    (hlead : lead = "data-".toList ∨ lead = "x-".toList) : directive (lead ++ d) = d := by
  have hwritten : IsDirective lead := by
    rcases hlead with rfl | rfl
    · exact (by decide +kernel : directive "x-data-".toList = "data-".toList) ▸ isDirective_directive _
    · exact (by decide +kernel : directive "x-x-".toList = "x-".toList) ▸ isDirective_directive _
  have hboth : IsDirective (lead ++ d) := by
    constructor
    case small => exact fun c hc => (List.mem_append.mp hc).elim (hwritten.small c) (h.small c)
    case hyphenated =>
      exact fun c hc => (List.mem_append.mp hc).elim (hwritten.hyphenated c) (h.hyphenated c)
    case last =>
      intro c hc
      rw [List.getLast?_append] at hc
      cases hd : d.getLast? with
      | none => exact hwritten.last c (by rwa [hd] at hc)
      | some last =>
        rw [hd] at hc
        exact h.last c (hd.trans hc)
  rcases hlead with rfl | rfl
  · exact hboth.directive_eq fun c hc => (Option.some.inj hc) ▸ (by decide +kernel)
  · exact hboth.directive_eq fun c hc => (Option.some.inj hc) ▸ (by decide +kernel)

/-! ## §3. Registries. -/

namespace Registry

variable {r : Registry} {extra : List (List Char)} {name : List Char}

theorem isExpression_iff : r.isExpression name = true ↔ directive name ∈ r.directives :=
  List.contains_iff_mem

theorem mem_names_iff {n : String} : n ∈ r.names ↔ n.toList ∈ r.directives := by
  unfold names
  rw [List.mem_mergeSort, List.mem_map]
  constructor
  · rintro ⟨d, hd, rfl⟩
    rwa [String.toList_ofList]
  · exact fun h => ⟨n.toList, h, String.ofList_toList⟩

/-- The built-in directives name themselves. -/
theorem directive_builtIn : ∀ name ∈ builtIn, directive name.toList = name.toList := by
  decide +kernel

theorem isDirective_of_mem (h : d ∈ (ofExtra extra).directives) : IsDirective d := by
  unfold ofExtra at h
  rcases List.mem_append.mp (List.mem_eraseDups.mp h) with h | h
  · obtain ⟨name, hname, rfl⟩ := List.mem_map.mp h
    exact directive_builtIn name hname ▸ isDirective_directive _
  · obtain ⟨name, -, rfl⟩ := List.mem_map.mp h
    exact isDirective_directive name

/-- What can be relied on for a name that a registry lists. -/
structure Recognised (r : Registry) (n : String) : Prop where
  /-- It is recognised with a lead in front. -/
  led : r.isExpression ("data-".toList ++ n.toList) = true
    ∧ r.isExpression ("x-".toList ++ n.toList) = true
  /-- Without a lead of its own it is its own directive, and recognised as it is written. -/
  plain : (∀ c ∈ n.toList.head?, isBlank c = false) → ¬ HasLead n.toList →
    directive n.toList = n.toList ∧ r.isExpression n.toList = true
  /-- With one it is recognised exactly when what is left of it is listed. -/
  leading : HasLead n.toList →
    (r.isExpression n.toList = true ↔ String.ofList (withoutLead n.toList) ∈ r.names)

/-- **Listed attributes are recognised**, as far as they do not begin with a lead or with white
space, and in any case with a lead in front of them. -/
theorem listed_recognised {n : String} (h : n ∈ (ofExtra extra).names) :
    (ofExtra extra).Recognised n := by
  have hmem := mem_names_iff.mp h
  have hdirective := isDirective_of_mem hmem
  constructor
  case led =>
    rw [isExpression_iff, isExpression_iff, hdirective.directive_append (Or.inl rfl),
      hdirective.directive_append (Or.inr rfl)]
    exact ⟨hmem, hmem⟩
  case plain =>
    intro hhead hlead
    have heq := (hdirective.directive_eq hhead).trans (withoutLead_of_not_hasLead hlead)
    exact ⟨heq, isExpression_iff.mpr (heq.symm ▸ hmem)⟩
  case leading =>
    intro hlead
    have hhead : ∀ c ∈ n.toList.head?, isBlank c = false := by
      obtain ⟨c, rest, -, heq | heq⟩ := hlead
      · rw [heq]
        exact fun c hc => (Option.some.inj hc) ▸ (by decide +kernel)
      · rw [heq]
        exact fun c hc => (Option.some.inj hc) ▸ (by decide +kernel)
    rw [isExpression_iff, mem_names_iff, String.toList_ofList, hdirective.directive_eq hhead]

/-- Names that a project adds: with a lead, with two, and with white space after it. -/
def addedNames : List (List Char) :=
  ["X_My:Expr".toList, "data-data-user".toList, "data- other".toList]

/-- A name with a lead and other separators is listed, and recognised, in the form of directives. -/
theorem listed_recognised_myExpr :
    "my-expr" ∈ (ofExtra addedNames).names ∧ (ofExtra addedNames).Recognised "my-expr" := by
  have h : "my-expr" ∈ (ofExtra addedNames).names := mem_names_iff.mpr (by decide +kernel)
  exact ⟨h, listed_recognised h⟩

/-- A listed name with a lead of its own need not be recognised. -/
theorem not_forall_listed_isExpression :
    ¬ ∀ (extra : List (List Char)) (n : String), n ∈ (ofExtra extra).names →
      (ofExtra extra).isExpression n.toList = true := by
  intro h
  have hlisted : "data-user" ∈ (ofExtra addedNames).names := mem_names_iff.mpr (by decide +kernel)
  exact absurd (h addedNames "data-user" hlisted) (by decide +kernel)

end Registry

end EmbeddedExpr.Attribute
