/-
  EmbeddedExpr.Text.Ranges
  ────────────────────────
  **SETS OF CODE POINTS.**

  A character class of the Unicode standard is a list of ranges; `Ranges.mem` is
  membership in it.  The class modules beside this one each hold one table.
-/
namespace EmbeddedExpr.Text

/-- A set of code points: closed ranges, in ascending order. -/
abbrev Ranges := Array (Nat × Nat)

/-- A code point is in the set when one of the ranges holds it. -/
def Ranges.mem (ranges : Ranges) (code : Nat) : Bool :=
  ranges.any fun r => r.1 ≤ code && code ≤ r.2

end EmbeddedExpr.Text
