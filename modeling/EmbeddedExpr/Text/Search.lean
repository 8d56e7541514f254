/-
  EmbeddedExpr.Text.Search
  ────────────────────────
  **FINDING AND CUTTING INSIDE A TEXT.**

  A text is a list of characters and an offset counts characters.  `cut?` splits a text at
  the first occurrence of a part; the other searches are built on it:

      cut? part s = some (before, after)  →  s = before ++ part ++ after
-/
namespace EmbeddedExpr.Text

/-! ## §1. The first occurrence of a part. -/

/-- The text before and after the first occurrence of `part`. -/
def cut? (part : List Char) : List Char → Option (List Char × List Char)
  | [] => if part.isEmpty then some ([], []) else none
  | c :: rest =>
    if part.isPrefixOf (c :: rest) then some ([], (c :: rest).drop part.length)
    else (cut? part rest).map fun pieces => (c :: pieces.1, pieces.2)

theorem eq_of_cut? {part s before after : List Char} (h : cut? part s = some (before, after)) :
    s = before ++ part ++ after := by
  induction s generalizing before with
  | nil =>
    simp only [cut?] at h
    split at h
    · next hp =>
      simp only [Option.some.injEq, Prod.mk.injEq] at h
      simp_all
    · simp at h
  | cons c rest ih =>
    simp only [cut?] at h
    split at h
    · next hp =>
      simp only [Option.some.injEq, Prod.mk.injEq] at h
      obtain ⟨rfl, rfl⟩ := h
      have hp := List.prefix_iff_eq_append.mp (List.isPrefixOf_iff_prefix.mp hp)
      simpa using hp.symm
    · obtain ⟨⟨b, a⟩, hb, hpair⟩ := Option.map_eq_some_iff.mp h
      simp only [Prod.mk.injEq] at hpair
      obtain ⟨rfl, rfl⟩ := hpair
      simp [ih hb]

theorem length_of_cut? {part s before after : List Char} (h : cut? part s = some (before, after)) :
    before.length + part.length + after.length = s.length := by
  simp [eq_of_cut? h, Nat.add_assoc]

/-- `part` occurs in the text. -/
def hasPart (part s : List Char) : Bool := (cut? part s).isSome

/-- The text up to and with the first `mark`, or the whole text when there is none;
and what follows. -/
def throughMark (mark s : List Char) : List Char × List Char :=
  match cut? mark s with
  | some (before, after) => (before ++ mark, after)
  | none => (s, [])

theorem throughMark_append (mark s : List Char) :
    (throughMark mark s).1 ++ (throughMark mark s).2 = s := by
  unfold throughMark
  split
  · next h => exact (eq_of_cut? h).symm
  · simp

/-! ## §2. Pieces and slices. -/

/-- The pieces of a text between the occurrences of one character. -/
def splitOn (sep : Char) : List Char → List (List Char)
  | [] => [[]]
  | c :: rest =>
    if c = sep then [] :: splitOn sep rest
    else match splitOn sep rest with
      | piece :: more => (c :: piece) :: more
      | [] => [[c]]

/-- An index of a text of `size` characters: a negative one counts from the end, and all are
kept between the text's bounds. -/
def clampIndex (size : Nat) (i : Int) : Nat :=
  if i < 0 then (i + size).toNat else min i.toNat size

/-- The part of a text between two indices, as `clampIndex` reads them. -/
def slice (s : List Char) (start stop : Int) : List Char :=
  (s.take (clampIndex s.length stop)).drop (clampIndex s.length start)

end EmbeddedExpr.Text
