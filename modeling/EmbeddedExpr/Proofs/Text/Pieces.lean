/-
  EmbeddedExpr.Proofs.Text.Pieces
  ───────────────────────────────
  **PIECES BETWEEN SEPARATORS, AND WHITE SPACE AROUND THEM.**

  The pieces of a text are what stands between the occurrences of one character: joined with it
  they give the text back, and none of them holds it (`ArePieces`).  Trimming takes white space
  away on both sides, as long as there is any (`IsTrimmed`).  Both laws leave one answer only.
-/
import EmbeddedExpr.Text.Blank
import EmbeddedExpr.Text.Search
import Mathlib.Data.List.TakeWhile

namespace EmbeddedExpr.Text

/-! ## §1. Pieces. -/

/-- The pieces of a text between the occurrences of one character. -/
structure ArePieces (sep : Char) (s : List Char) (pieces : List (List Char)) : Prop where
  joined : [sep].intercalate pieces = s
  free : ∀ piece ∈ pieces, sep ∉ piece
  nonempty : pieces ≠ []

theorem splitOn_eq (sep : Char) (s : List Char) : splitOn sep s = s.splitOn sep := by
  induction s with
  | nil => rfl
  | cons c rest ih =>
    rw [splitOn, ih]
    show _ = (c :: rest).splitOnP (· == sep)
    rw [List.splitOnP_cons_eq_if_modifyHead]
    by_cases hc : c = sep
    · rw [if_pos hc, if_pos (beq_iff_eq.mpr hc)]
      rfl
    · rw [if_neg hc, if_neg (by simpa using hc)]
      show _ = List.modifyHead (List.cons c) (rest.splitOn sep)
      cases hrest : rest.splitOn sep with
      | nil => exact absurd hrest (List.splitOn_ne_nil _ _)
      | cons piece more => rfl

theorem notMem_of_mem_splitOn {sep : Char} {s : List Char} :
    ∀ piece ∈ splitOn sep s, sep ∉ piece := by
  induction s with
  | nil => simp [splitOn]
  | cons c rest ih =>
    rw [splitOn]
    by_cases hc : c = sep
    · rw [if_pos hc]
      simpa using ih
    · rw [if_neg hc]
      cases hrest : splitOn sep rest with
      | nil =>
        simp only [List.mem_singleton, forall_eq]
        exact Ne.symm hc
      | cons piece more =>
        rw [hrest, List.forall_mem_cons] at ih
        refine List.forall_mem_cons.mpr ⟨?_, ih.2⟩
        exact List.not_mem_cons_of_ne_of_not_mem (Ne.symm hc) ih.1

theorem arePieces_splitOn (sep : Char) (s : List Char) : ArePieces sep s (splitOn sep s) := by
  refine ⟨?_, notMem_of_mem_splitOn, ?_⟩
  · rw [splitOn_eq]
    exact List.intercalate_splitOn sep
  · rw [splitOn_eq]
    exact List.splitOn_ne_nil _ _

/-- **A text has its pieces in one way**: those that splitting gives. -/
theorem arePieces_iff {sep : Char} {s : List Char} {pieces : List (List Char)} :
    ArePieces sep s pieces ↔ pieces = splitOn sep s := by
  constructor
  · intro h
    rw [splitOn_eq, ← h.joined, List.splitOn_intercalate sep h.free h.nonempty]
  · intro h
    rw [h]
    exact arePieces_splitOn sep s

/-! ## §2. Trimming. -/

/-- A text without the white space at its ends. -/
structure IsTrimmed (s t : List Char) : Prop where
  around : ∃ front back, s = front ++ t ++ back ∧ (∀ c ∈ front, isBlank c = true)
    ∧ ∀ c ∈ back, isBlank c = true
  head : ∀ c ∈ t.head?, isBlank c = false
  last : ∀ c ∈ t.getLast?, isBlank c = false

theorem head?_trimLeft {s : List Char} : ∀ c ∈ (trimLeft s).head?, isBlank c = false := by
  intro c hc
  have h := List.head?_dropWhile_not isBlank s
  rw [show (s.dropWhile isBlank).head? = some c from hc] at h
  exact h

theorem trimLeft_eq (s : List Char) :
    ∃ front, s = front ++ trimLeft s ∧ ∀ c ∈ front, isBlank c = true :=
  ⟨s.takeWhile isBlank, (List.takeWhile_append_dropWhile ..).symm,
    fun _ hc => List.mem_takeWhile_imp hc⟩

/-- Trimming at the end is trimming the reversed text at its start. -/
theorem trimRight_eq (s : List Char) :
    ∃ back, s = trimRight s ++ back ∧ ∀ c ∈ back, isBlank c = true := by
  obtain ⟨front, heq, hfront⟩ := trimLeft_eq s.reverse
  refine ⟨front.reverse, ?_, fun c hc => hfront c (List.mem_reverse.mp hc)⟩
  have hreversed := congrArg List.reverse heq
  rw [List.reverse_reverse, List.reverse_append] at hreversed
  exact hreversed

theorem isTrimmed_trim (s : List Char) : IsTrimmed s (trim s) := by
  obtain ⟨front, hs, hfront⟩ := trimLeft_eq s
  obtain ⟨back, hrest, hback⟩ := trimRight_eq (trimLeft s)
  constructor
  · refine ⟨front, back, ?_, hfront, hback⟩
    rw [List.append_assoc]
    show s = front ++ (trimRight (trimLeft s) ++ back)
    rw [← hrest]
    exact hs
  · intro c hc
    -- what is left begins as the text does that is trimmed at its start
    refine head?_trimLeft (s := s) c ?_
    rw [hrest, List.head?_append]
    show c ∈ (trim s).head?.or back.head?
    rw [Option.mem_def.mp hc]
    rfl
  · intro c hc
    refine head?_trimLeft (s := (trimLeft s).reverse) c ?_
    rw [← List.getLast?_reverse]
    exact hc

theorem trimLeft_append {front : List Char} (hfront : ∀ c ∈ front, isBlank c = true)
    (s : List Char) : trimLeft (front ++ s) = trimLeft s :=
  List.dropWhile_append_of_pos hfront

theorem trimLeft_of_head {s : List Char} (h : ∀ c ∈ s.head?, isBlank c = false) :
    trimLeft s = s := by
  cases s with
  | nil => rfl
  | cons c rest =>
    exact List.dropWhile_cons_of_neg (by simpa using h c rfl)

theorem trimRight_append {s back : List Char} (hback : ∀ c ∈ back, isBlank c = true)
    (h : ∀ c ∈ s.getLast?, isBlank c = false) : trimRight (s ++ back) = s := by
  show (trimLeft (s ++ back).reverse).reverse = s
  rw [List.reverse_append, trimLeft_append fun c hc => hback c (List.mem_reverse.mp hc),
    trimLeft_of_head (by rwa [List.head?_reverse]), List.reverse_reverse]

theorem IsTrimmed.eq_trim {s t : List Char} (h : IsTrimmed s t) : t = trim s := by
  obtain ⟨front, back, rfl, hfront, hback⟩ := h.around
  show t = trimRight (trimLeft (front ++ t ++ back))
  rw [List.append_assoc, trimLeft_append hfront]
  cases t with
  | nil =>
    -- nothing but white space
    rw [List.nil_append, ← List.append_nil back, trimLeft_append hback]
    rfl
  | cons c rest =>
    rw [trimLeft_of_head (s := c :: rest ++ back) h.head, trimRight_append hback h.last]

/-- **A text is trimmed in one way.** -/
theorem isTrimmed_iff {s t : List Char} : IsTrimmed s t ↔ t = trim s := by
  constructor
  · exact IsTrimmed.eq_trim
  · intro h
    rw [h]
    exact isTrimmed_trim s

end EmbeddedExpr.Text
