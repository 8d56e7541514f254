/-
  EmbeddedExpr.Proofs.Project.Exclusion
  ─────────────────────────────────────
  **WHEN THE LAST PATTERN DECIDES ON A DIRECTORY.**

  A directory is left out when either form of its path is.  So the verdict of the last pattern
  that concerns the directory holds unless that pattern reopens it: it asks for directories,
  keeps this one, and the patterns before it leave out the path.

      p.isExcluded path true = verdict p.patterns (path ++ "/")  ↔  ¬ Reopened p.patterns path

  Patterns that leave out everything and then reopen directories are such a case
  (`reopened_pagesOnly`).
-/
import EmbeddedExpr.Project.Basic
import EmbeddedExpr.Proofs.Ignore.Directory

namespace EmbeddedExpr

/-! ## §1. The last pattern. -/

theorem Content.isExcluded_directory {path : String} (hne : path ≠ "") (hdot : path ≠ ".")
    (howned : Config.owns path = false) (verdict : String → Bool) :
    isExcluded verdict path true = (verdict path || verdict (path ++ "/")) := by
  simp [isExcluded, hne, hdot, howned]

/-- **The last pattern that concerns a directory decides on it exactly when it does not reopen
it.** -/
theorem Project.isExcluded_eq_verdict_iff (p : Project) {path : String} (hne : path ≠ "")
    (hdot : path ≠ ".") (howned : Config.owns path = false) (hplain : Ignore.Plain path.toList) :
    p.isExcluded path true = Ignore.verdict p.patterns (path ++ "/")
      ↔ ¬ Ignore.Reopened p.patterns path := by
  rw [Ignore.reopened_iff fun q _ => q.meets_slash hne hdot hplain, Project.isExcluded,
    Content.isExcluded_directory hne hdot howned]
  cases Ignore.verdict p.patterns path <;> cases Ignore.verdict p.patterns (path ++ "/") <;> decide

/-! ## §2. Everything left out, and directories reopened. -/

/-- Settings that leave out everything but directories and pages. -/
def pagesOnly : Settings := { Settings.default with exclude := ["*", "!*/", "!*.html"] }

/-- A tree with one directory. -/
def docsTree : Entry := .directory [("docs", .directory [])]

theorem Project.ignoreLines_docsTree : Project.ignoreLines docsTree [] = [] := by
  have haccess : Tree.access docsTree [ignoreName] = .error .missing := by
    unfold Tree.access
    rw [Tree.walk.eq_def]
    rfl
  unfold ignoreLines
  rw [List.nil_append, haccess]

theorem Project.ofSettings_pagesOnly :
    ∃ p, Project.ofSettings docsTree [] pagesOnly = .ok p ∧ p.root = []
      ∧ p.isExcluded "docs" true = true ∧ Ignore.verdict p.patterns "docs/" = false := by
  have hresolve : Tree.resolve docsTree [] = .ok [] := by
    simp [Tree.resolve, Tree.stepsOfParts, Tree.locate, Tree.access, Tree.walk, docsTree,
      Entry.get?]
  have hverdicts : (Ignore.readAll (builtInPatterns ++ pagesOnly.exclude ++ [])).toOption.map
      (fun ps => (Ignore.verdict ps "docs", Ignore.verdict ps "docs/")) = some (true, false) := by
    decide +kernel
  unfold ofSettings
  rw [hresolve]
  show ∃ p, ((Ignore.readAll (builtInPatterns ++ pagesOnly.exclude
    ++ ignoreLines docsTree [])).mapError Fault.pattern >>= fun patterns => _) = _ ∧ _
  rw [ignoreLines_docsTree]
  cases hps : Ignore.readAll (builtInPatterns ++ pagesOnly.exclude ++ []) with
  | error fault =>
    rw [hps] at hverdicts
    cases hverdicts
  | ok ps =>
    rw [hps] at hverdicts
    obtain ⟨hpath, hslash⟩ := Prod.mk.inj (Option.some.inj hverdicts)
    refine ⟨_, rfl, rfl, ?_, hslash⟩
    rw [isExcluded, Content.isExcluded_directory (by decide) (by decide) (by decide +kernel)]
    show (Ignore.verdict ps "docs" || _) = true
    rw [hpath, Bool.true_or]

/-- A directory may be left out though the last pattern that concerns it keeps it. -/
theorem Project.not_forall_isExcluded_eq_verdict :
    ¬ ∀ (tree : Entry) (path : List String) (settings : Settings) (p : Project),
      Project.ofSettings tree path settings = .ok p → ∀ way : Location, way ≠ [] →
        Config.owns (Content.written way) = false → Tree.isDirectory tree (p.root ++ way) = true →
          p.isExcluded (Content.written way) true
            = Ignore.verdict p.patterns (Content.written way ++ "/") := by
  intro h
  obtain ⟨p, hp, hroot, hexcluded, hverdict⟩ := ofSettings_pagesOnly
  have hdirectory : Tree.isDirectory docsTree (p.root ++ ["docs"]) = true := by
    rw [hroot]
    simp [Tree.isDirectory, Tree.stepsOfParts, Tree.access, Tree.walk, docsTree, Entry.get?,
      Entry.isDirectory, Entry.children]
  have heq := h docsTree [] pagesOnly p hp ["docs"] (by decide) (by decide +kernel) hdirectory
  rw [show Content.written ["docs"] = "docs" from rfl, hexcluded,
    show "docs" ++ "/" = "docs/" from rfl, hverdict] at heq
  cases heq

/-- The pattern that reopens the directories is why. -/
theorem Project.reopened_pagesOnly :
    ∃ p, Project.ofSettings docsTree [] pagesOnly = .ok p
      ∧ Ignore.Reopened p.patterns "docs" := by
  obtain ⟨p, hp, -, hexcluded, hverdict⟩ := ofSettings_pagesOnly
  refine ⟨p, hp, Classical.not_not.mp fun hnot => ?_⟩
  have heq := (p.isExcluded_eq_verdict_iff (by decide) (by decide) (by decide +kernel)
    (by unfold Ignore.Plain; decide)).mpr hnot
  rw [hexcluded, show "docs" ++ "/" = "docs/" from rfl, hverdict] at heq
  cases heq

end EmbeddedExpr
