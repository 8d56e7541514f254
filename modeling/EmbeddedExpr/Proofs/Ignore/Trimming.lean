/-
  EmbeddedExpr.Proofs.Ignore.Trimming
  ───────────────────────────────────
  **PATTERNS WITH WHITE SPACE AROUND THEM.**

  A pattern is read without the white space at its end, but what stands at its start counts, and so
  does a blank at the end with a backslash before it.  The lines of an ignore file are trimmed on
  both sides before that.  So they spell the patterns that the trimmed lines spell
  (`readAll_linesOf`), and those are the patterns that the lines themselves spell as long as
  trimming takes nothing away that counts:

      TrimsSafely line  →  read (trim line) = read line
-/
import EmbeddedExpr.Ignore.Match
import EmbeddedExpr.Proofs.Text.Pieces

namespace EmbeddedExpr.Ignore

open Text (isBlank isBlankText trim trimLeft trimRight)

/-! ## §1. One line. -/

/-- Trimming the line takes nothing away that counts: there is nothing but white space, or none at
the start and no blank with a backslash before it at the end.  In a comment nothing counts. -/
def TrimsSafely (line : List Char) : Prop :=
  isBlankText line = true
    ∨ (∀ c ∈ line.head?, isBlank c = false) ∧ (line.head? = some '#' ∨ ¬ ['\\', ' '] <:+ line)

instance : DecidablePred TrimsSafely := fun line =>
  have : Decidable (∀ c ∈ line.head?, isBlank c = false) := Option.decidableForallMem line.head?
  inferInstanceAs (Decidable (isBlankText line = true
    ∨ (∀ c ∈ line.head?, isBlank c = false) ∧ (line.head? = some '#' ∨ ¬ ['\\', ' '] <:+ line)))

variable {line : List Char}

/-- A line is read by what is left of it without white space at its end. -/
theorem read_congr {other : List Char} (h : trimmed line = trimmed other) : read line = read other := by
  unfold read
  rw [h]

theorem trimRight_of_last (h : ∀ c ∈ line.getLast?, isBlank c = false) : trimRight line = line := by
  have heq : trimRight (line ++ []) = line := Text.trimRight_append (by simp) h
  rwa [List.append_nil] at heq

/-- There is no more to trim. -/
theorem trimmed_trim (line : List Char) : trimmed (trim line) = trim line := by
  unfold trimmed
  split
  · rfl
  · exact trimRight_of_last (Text.isTrimmed_trim line).last

theorem trimmed_of_not_guarded (h : ¬ ['\\', ' '] <:+ line) : trimmed line = trimRight line := by
  unfold trimmed
  rw [if_neg]
  intro hguarded
  apply h
  have hreverse := List.isPrefixOf_iff_prefix.mp hguarded
  rwa [← List.reverse_suffix, List.reverse_reverse] at hreverse

/-- What is left of a line that begins with no white space begins as the line does. -/
theorem head?_trimRight (h : ∀ c ∈ line.head?, isBlank c = false) :
    (trimRight line).head? = line.head? := by
  obtain ⟨back, heq, hback⟩ := Text.trimRight_eq line
  cases hleft : trimRight line with
  | nil =>
    -- then the line is white space, which it does not begin with
    rw [hleft, List.nil_append] at heq
    cases line with
    | nil => rfl
    | cons c rest =>
      have hblank := hback c (heq ▸ List.mem_cons_self)
      rw [h c rfl] at hblank
      cases hblank
  | cons c rest =>
    rw [hleft] at heq
    rw [heq]
    rfl

theorem head?_trimmed (h : ∀ c ∈ line.head?, isBlank c = false) :
    (trimmed line).head? = line.head? := by
  unfold trimmed
  split
  · rfl
  · exact head?_trimRight h

theorem read_of_comment (h : (trimmed line).head? = some '#') : read line = .ok none := by
  unfold read
  simp [h]

theorem trimRight_of_isBlankText (h : isBlankText line = true) : trimRight line = [] := by
  have hblank : ∀ c ∈ line, isBlank c = true := List.all_eq_true.mp h
  have heq : trimRight ([] ++ line) = [] := Text.trimRight_append hblank (by simp)
  exact heq

/-- **A line that trims safely spells the same trimmed.** -/
theorem read_trim (h : TrimsSafely line) : read (trim line) = read line := by
  rcases h with hblank | ⟨hhead, hcomment | hguard⟩
  · -- white space alone is nothing in both
    have hleft : trimLeft line = [] := by
      have hall : ∀ c ∈ line, isBlank c = true := List.all_eq_true.mp hblank
      have heq := Text.trimLeft_append hall []
      rwa [List.append_nil] at heq
    have hguard : ¬ ['\\', ' '] <:+ line := by
      intro hsuffix
      have hall := List.all_eq_true.mp hblank '\\' (hsuffix.subset List.mem_cons_self)
      exact absurd hall (by decide +kernel)
    apply read_congr
    rw [trimmed_trim, trimmed_of_not_guarded hguard, trimRight_of_isBlankText hblank]
    unfold trim
    rw [hleft]
    rfl
  · have hline : (trimmed line).head? = some '#' := (head?_trimmed hhead).trans hcomment
    have htrim : (trimmed (trim line)).head? = some '#' := by
      rw [trimmed_trim]
      unfold trim
      rw [Text.trimLeft_of_head hhead, head?_trimRight hhead, hcomment]
    rw [read_of_comment hline, read_of_comment htrim]
  · apply read_congr
    rw [trimmed_trim, trimmed_of_not_guarded hguard]
    unfold trim
    rw [Text.trimLeft_of_head hhead]

/-! ## §2. Lists of lines. -/

theorem readAll_cons (line : String) (more : List String) :
    readAll (line :: more)
      = (read line.toList).bind fun found => (readAll more).map fun rest => found.toList ++ rest := by
  unfold readAll
  rw [List.mapM_cons]
  cases read line.toList with
  | error fault => rfl
  | ok found =>
    cases more.mapM fun line => read line.toList with
    | error fault => rfl
    | ok rest =>
      cases found with
      | none => rfl
      | some p => rfl

/-- A line that spells nothing may be left out. -/
theorem readAll_cons_of_none {line : String} (h : read line.toList = .ok none) (more : List String) :
    readAll (line :: more) = readAll more := by
  rw [readAll_cons, h]
  show (readAll more).map (fun rest => [] ++ rest) = readAll more
  cases readAll more with
  | error fault => rfl
  | ok rest => rfl

/-- Lines that come first are read first. -/
theorem readAll_append_congr {lines others : List String} (h : readAll lines = readAll others)
    (before : List String) : readAll (before ++ lines) = readAll (before ++ others) := by
  induction before with
  | nil => exact h
  | cons line before ih =>
    rw [List.cons_append, List.cons_append, readAll_cons, readAll_cons, ih]

/-- The pattern without white space around it. -/
def trimmedText (pattern : String) : String := String.ofList (trim pattern.toList)

/-- **The lines of an ignore file spell what they spell trimmed.** -/
theorem readAll_linesOf (patterns : List String) :
    readAll (linesOf (patterns.map String.toList)) = readAll (patterns.map trimmedText) := by
  induction patterns with
  | nil => rfl
  | cons pattern more ih =>
    unfold linesOf at ih ⊢
    rw [List.map_cons, List.map_cons, List.map_cons, List.filter_cons]
    split
    · rw [List.map_cons, readAll_cons, readAll_cons, ih]
      rfl
    · next hskipped =>
      -- a blank line or a comment spells nothing
      have hnone : read (trimmedText pattern).toList = .ok none := by
        unfold trimmedText read
        rw [String.toList_ofList, trimmed_trim]
        simp_all
      rw [readAll_cons_of_none hnone, ih]

theorem readAll_map_trimmedText {patterns : List String}
    (h : ∀ pattern ∈ patterns, TrimsSafely pattern.toList) :
    readAll (patterns.map trimmedText) = readAll patterns := by
  induction patterns with
  | nil => rfl
  | cons pattern more ih =>
    have hmore := ih fun p hp => h p (List.mem_cons_of_mem _ hp)
    have hhere : read (trimmedText pattern).toList = read pattern.toList := by
      unfold trimmedText
      rw [String.toList_ofList, read_trim (h pattern List.mem_cons_self)]
    rw [List.map_cons, readAll_cons, readAll_cons, hmore, hhere]

end EmbeddedExpr.Ignore
