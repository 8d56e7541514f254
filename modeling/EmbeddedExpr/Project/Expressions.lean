/-
  EmbeddedExpr.Project.Expressions
  ────────────────────────────────
  **THE EXPRESSIONS OF A PROJECT'S DOCUMENTS.**

  Documents have expressions only in projects that use the framework.  Whether a project does
  is found out once.
-/
import EmbeddedExpr.Injection
import EmbeddedExpr.Project.Framework

namespace EmbeddedExpr.Project

/-- Whether the project uses the framework, and the project that knows it. -/
def hasFramework (p : Project) (tree : Entry) : Bool × Project :=
  match p.usesFramework? with
  | some known => (known, p)
  | none =>
    let found := p.detectFramework tree
    (found, { p with usesFramework? := some found })

/-- The registry of the attributes that the project's settings name. -/
def registry (p : Project) : Attribute.Registry :=
  .ofExtra (p.settings.expressionAttributes.map String.toList)

/-- How the project's settings have expressions looked for. -/
def injector (p : Project) : Injector :=
  ⟨p.registry, p.settings.delimiters, p.settings.language⟩

/-- The expressions of a document of the project. -/
def injections (p : Project) (tree : Entry) (j : Injector) (s : List Char)
    (file : Option String) : List Injection × Project :=
  let (uses, p) := p.hasFramework tree
  (if uses then j.injections s file else [], p)

end EmbeddedExpr.Project
