/-
  EmbeddedExpr.Attribute.Registry
  ───────────────────────────────
  **THE ATTRIBUTES WHOSE VALUE IS AN EXPRESSION.**

  A registry knows the built-in directives and further ones that a project names.  It holds
  directives, so every spelling of an attribute is recognised.
-/
import EmbeddedExpr.Attribute.Name

namespace EmbeddedExpr.Attribute

/-- The built-in directives: structure, binding, state and events. -/
def builtIn : List String := [
  "ng-if", "ng-show", "ng-hide", "ng-repeat", "ng-switch", "ng-init",
  "ng-controller", "ng-options",
  "ng-bind", "ng-model", "ng-class", "ng-class-even", "ng-class-odd",
  "ng-style", "ng-value",
  "ng-disabled", "ng-checked", "ng-selected", "ng-readonly", "ng-required",
  "ng-open",
  "ng-click", "ng-dblclick", "ng-change", "ng-submit",
  "ng-focus", "ng-blur",
  "ng-keydown", "ng-keyup", "ng-keypress",
  "ng-mousedown", "ng-mouseup", "ng-mouseenter", "ng-mouseleave",
  "ng-mousemove", "ng-mouseover",
  "ng-copy", "ng-cut", "ng-paste"]

/-- A set of directives. -/
structure Registry where
  directives : List (List Char)

namespace Registry

/-- The registry of the built-in directives and those that the given attributes name.  Names
of white space alone are passed over. -/
def ofExtra (extra : List (List Char)) : Registry :=
  let named := (extra.filter fun name => !Text.isBlankText name).map directive
  ⟨(builtIn.map String.toList ++ named).eraseDups⟩

/-- The attribute's value is an expression. -/
def isExpression (r : Registry) (name : List Char) : Bool :=
  r.directives.contains (directive name)

/-- The directives of a registry by code point. -/
def names (r : Registry) : List String :=
  (r.directives.map String.ofList).mergeSort fun a b => a ≤ b

end Registry

end EmbeddedExpr.Attribute
