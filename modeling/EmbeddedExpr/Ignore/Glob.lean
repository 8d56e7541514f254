/-
  EmbeddedExpr.Ignore.Glob
  ────────────────────────
  **PATTERNS OF ONE NAME.**

  Between its slashes a pattern is a row of parts: characters, wildcards that stay within a
  name, and classes in brackets.  A backslash takes the next character as it is.
-/
namespace EmbeddedExpr.Ignore

/-- A part of the pattern of a name. -/
inductive Part where
  | char (c : Char)
  /-- One character of a name. -/
  | one
  /-- Any number of characters of a name. -/
  | many
  /-- A character in one of the ranges, or in none of them. -/
  | inClass (negated : Bool) (ranges : List (Char × Char))
  deriving DecidableEq, Repr

/-- Why the pattern of a name has no parts. -/
inductive GlobFault where
  /-- A bracket is not closed. -/
  | openBracket
  /-- A backslash stands at the end. -/
  | loneBackslash
  deriving DecidableEq, Repr

/-- The ranges that the inside of brackets spells: characters, and two with a hyphen between
them. -/
def rangesOf : List Char → List (Char × Char)
  | [] => []
  | [c] => [(c, c)]
  | [c, d] => (c, c) :: rangesOf [d]
  | c :: '-' :: d :: rest => (c, d) :: rangesOf rest
  | c :: d :: e :: rest => (c, c) :: rangesOf (d :: e :: rest)

/-- The inside of brackets and what follows them.  A closing bracket that stands first is a
character. -/
def bracketed? (s : List Char) : Option (List Char × List Char) :=
  let (first, rest) := match s with
    | ']' :: more => ([']'], more)
    | _ => ([], s)
  let inside := rest.takeWhile (· ≠ ']')
  match rest.dropWhile (· ≠ ']') with
  | _ :: after => some (first ++ inside, after)
  | [] => none

theorem length_bracketed? {s inside after : List Char}
    (h : bracketed? s = some (inside, after)) : after.length < s.length := by
  have key : ∀ rest : List Char, ∀ c after : _,
      rest.dropWhile (· ≠ ']') = c :: after → after.length < rest.length := by
    intro rest c after hd
    have hl := (List.dropWhile_suffix (l := rest) (· ≠ ']')).length_le
    rw [hd] at hl
    simp only [List.length_cons] at hl
    omega
  unfold bracketed? at h
  split at h
  · next more heq =>
    split at heq
    · simp only [Prod.mk.injEq] at heq
      obtain ⟨-, rfl⟩ := heq
      split at h
      · next hd =>
        simp only [Option.some.injEq, Prod.mk.injEq] at h
        have := key _ _ _ hd
        rw [← h.2]
        simp only [List.length_cons]
        omega
      · simp at h
    · simp only [Prod.mk.injEq] at heq
      obtain ⟨-, rfl⟩ := heq
      split at h
      · next hd =>
        simp only [Option.some.injEq, Prod.mk.injEq] at h
        rw [← h.2]
        exact key _ _ _ hd
      · simp at h

/-- The inside of brackets is negated: it begins with an exclamation mark or a caret. -/
def isNegated (s : List Char) : Bool := s.head? = some '!' || s.head? = some '^'

/-- The class after an opening bracket, and what follows it. -/
def classOf? (s : List Char) : Option (Part × List Char) :=
  (bracketed? (if isNegated s then s.drop 1 else s)).map fun found =>
    (.inClass (isNegated s) (rangesOf found.1), found.2)

theorem length_classOf? {s after : List Char} {part : Part}
    (h : classOf? s = some (part, after)) : after.length < s.length := by
  obtain ⟨found, hb, he⟩ := Option.map_eq_some_iff.mp h
  have hl := length_bracketed? hb
  simp only [Prod.mk.injEq] at he
  rw [← he.2]
  split at hl
  · simp only [List.length_drop] at hl
    omega
  · exact hl

/-- The parts of the pattern of a name. -/
def partsOf (s : List Char) : Except GlobFault (List Part) :=
  match s with
  | [] => .ok []
  | ['\\'] => .error .loneBackslash
  | '\\' :: c :: rest => (partsOf rest).map (.char c :: ·)
  | '*' :: rest => (partsOf rest).map (.many :: ·)
  | '?' :: rest => (partsOf rest).map (.one :: ·)
  | '[' :: rest =>
    match _h : classOf? rest with
    | none => .error .openBracket
    | some (part, after) => (partsOf after).map (part :: ·)
  | c :: rest => (partsOf rest).map (.char c :: ·)
termination_by s.length
decreasing_by
  · simp only [List.length_cons]
    omega
  · simp
  · simp
  · exact Nat.lt_succ_of_lt (length_classOf? _h)
  · simp

/-- A range whose ends are in the wrong order. -/
def Part.isReversed : Part → Bool
  | .inClass _ ranges => ranges.any fun r => r.2 < r.1
  | _ => false

/-- The character is one that the part stands for. -/
def Part.takes : Part → Char → Bool
  | .char c, ch => ch = c
  | .one, ch => ch ≠ '/'
  | .many, ch => ch ≠ '/'
  | .inClass negated ranges, ch => negated ≠ ranges.any fun r => r.1 ≤ ch && ch ≤ r.2

end EmbeddedExpr.Ignore
