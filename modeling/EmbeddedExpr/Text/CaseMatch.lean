/-
  EmbeddedExpr.Text.CaseMatch
  ───────────────────────────
  **LETTERS WITHOUT REGARD TO CASE.**

  A small ASCII letter stands for both its cases and for the letters whose simple case
  mappings lead to it: the long s for `s`, the dotted capital and the dotless small i for
  `i`.  Among the ASCII letters other than `k` no further one has such a partner.
-/
namespace EmbeddedExpr.Text

/-- `c` is the small letter `letter` up to case. -/
def isCaseOf (letter c : Char) : Bool :=
  c.toLower = letter
    || (letter = 's' && c = '\u017F')
    || (letter = 'i' && (c = '\u0130' || c = '\u0131'))
    || (letter = 'k' && c = '\u212A')

/-- What follows `word`, in any case, at the head of a text. -/
def afterWord? : List Char → List Char → Option (List Char)
  | [], s => some s
  | _ :: _, [] => none
  | letter :: word, c :: s => if isCaseOf letter c then afterWord? word s else none

end EmbeddedExpr.Text
