/-
  EmbeddedExpr.Proofs.Ignore.Layers
  ─────────────────────────────────
  **PATTERNS AFTER PATTERNS.**

  Patterns that follow others may keep what those leave out (`Readmits`).  Where they do not,
  two lists of patterns one after the other leave out what either of them does:

      verdict (ps ++ qs) path = false  ∧  ¬ Readmits ps qs path
        ↔  verdict ps path = false  ∧  verdict qs path = false

  A pattern of one name with a slash at its end concerns every directory of that name
  (`meets_directoryPattern`).
-/
import EmbeddedExpr.Proofs.Ignore.Directory

namespace EmbeddedExpr.Ignore

variable {ps qs : List Pattern} {path : String}

/-! ## §1. Later patterns. -/

/-- The last of the later patterns that concerns a path keeps it, though the earlier ones leave
it out. -/
def Readmits (earlier later : List Pattern) (path : String) : Prop :=
  verdict earlier path = true ∧ ∃ before q after, later = before ++ q :: after ∧ q.keeps = true
    ∧ q.meets path = true ∧ ∀ r ∈ after, r.meets path = false

/-- Later patterns decide on what the earlier ones keep. -/
theorem verdict_append_of_kept (h : verdict ps path = false) :
    verdict (ps ++ qs) path = verdict qs path := by
  rcases exists_last qs path with hnone | ⟨before, q, after, rfl, hq, hafter⟩
  · have hqs := verdict_append_of_none hnone []
    rw [List.nil_append] at hqs
    rw [verdict_append_of_none hnone, h, hqs]
    rfl
  · rw [← List.append_assoc, verdict_append_cons hq hafter, verdict_append_cons hq hafter]

/-- **Later patterns take back the verdict exactly when they readmit the path.** -/
theorem readmits_iff :
    Readmits ps qs path ↔ verdict ps path = true ∧ verdict (ps ++ qs) path = false := by
  refine and_congr_right fun h => ?_
  constructor
  · rintro ⟨before, q, after, rfl, hkeeps, hq, hafter⟩
    rw [← List.append_assoc, verdict_append_cons hq hafter, hkeeps]
    rfl
  · intro hboth
    rcases exists_last qs path with hnone | ⟨before, q, after, rfl, hq, hafter⟩
    · rw [verdict_append_of_none hnone, h] at hboth
      cases hboth
    · rw [← List.append_assoc, verdict_append_cons hq hafter, Bool.not_eq_false'] at hboth
      exact ⟨before, q, after, rfl, hboth, hq, hafter⟩

/-- **Two lists of patterns keep a path exactly when both together do and the later one does not
readmit it.** -/
theorem verdict_append_eq_false_iff :
    verdict (ps ++ qs) path = false ∧ ¬ Readmits ps qs path
      ↔ verdict ps path = false ∧ verdict qs path = false := by
  rw [readmits_iff]
  cases h : verdict ps path with
  | false => simp [verdict_append_of_kept h]
  | true => simp

/-! ## §2. Directories of a name. -/

/-- The pattern of a name with a slash at its end. -/
def directoryPattern (name : String) : Pattern :=
  ⟨false, .segments [.anyDepth, .name (name.toList.map .char), .anyDepth]⟩

theorem restsAfterParts_char (name rest : List Char) :
    restsAfterParts (name.map .char) (name ++ rest) = [rest] := by
  induction name with
  | nil => rfl
  | cons c name ih => simpa [restsAfterParts, Part.takes] using ih

theorem mem_restsAfter {p : Char → Bool} {s : List Char} (h : ∀ c ∈ s, p c = true)
    (rest : List Char) : rest ∈ restsAfter p (s ++ rest) := by
  induction s with
  | nil => exact self_mem_restsAfter p rest
  | cons c s ih =>
    refine List.mem_cons_of_mem _ ?_
    rw [if_pos (h c List.mem_cons_self)]
    exact ih fun d hd => h d (List.mem_cons_of_mem _ hd)

theorem mem_restsAfterSome {p : Char → Bool} {s : List Char} (hne : s ≠ [])
    (h : ∀ c ∈ s, p c = true) (rest : List Char) : rest ∈ restsAfterSome p (s ++ rest) := by
  cases s with
  | nil => exact absurd rfl hne
  | cons c s =>
    rw [List.cons_append, restsAfterSome, if_pos (h c List.mem_cons_self)]
    exact mem_restsAfter (fun d hd => h d (List.mem_cons_of_mem _ hd)) rest

/-- The name with a slash after it is found at the head of a text. -/
theorem matchFrom_directory (name rest : List Char) :
    matchFrom false [.name (name.map .char), .anyDepth] (name ++ '/' :: rest) = true := by
  rw [matchFrom.eq_4 _ _ (.name (name.map .char)) [.anyDepth] (fun h _ => Segment.noConfusion h)
    Segment.noConfusion]
  refine List.any_eq_true.mpr ⟨_, List.mem_singleton.mpr rfl, List.any_eq_true.mpr ⟨'/' :: rest, ?_, rfl⟩⟩
  show _ ∈ restsAfterParts _ _
  rw [restsAfterParts_char]
  exact List.mem_singleton.mpr rfl

/-- The pattern of a directory concerns it at the top and below other directories. -/
theorem concerns_directoryPattern (name : String) {above : List Char}
    (h : ∀ c ∈ above, isInline c = true) (rest : List Char) :
    (directoryPattern name).concerns (name.toList ++ '/' :: rest) = true
      ∧ (above ≠ [] → (directoryPattern name).concerns
        (above ++ '/' :: name.toList ++ '/' :: rest) = true) := by
  refine ⟨?_, fun hne => ?_⟩
  · show matchAll (.anyDepth :: _) _ = true
    rw [matchAll, matchFrom_directory, Bool.true_or]
  · show matchAll (.anyDepth :: _) _ = true
    -- the leading segment takes what is above, up to the slash before the name
    rw [matchAll, Bool.or_eq_true]
    refine Or.inr (List.any_eq_true.mpr ⟨name.toList ++ '/' :: rest, ?_, matchFrom_directory _ _⟩)
    refine List.mem_filterMap.mpr ⟨'/' :: (name.toList ++ '/' :: rest), ?_, rfl⟩
    rw [List.append_assoc, List.cons_append]
    exact mem_restsAfterSome hne h _

end EmbeddedExpr.Ignore
