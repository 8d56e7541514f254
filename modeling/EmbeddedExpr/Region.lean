/-
  EmbeddedExpr.Region
  ───────────────────
  **HALF-OPEN RANGES OF OFFSETS.**

  A region names the characters of a text from `start` up to and without `stop`.  Its bounds
  are integers, so that a region may be shifted in both directions; one whose stop is not
  past its start holds nothing.
-/
import EmbeddedExpr.Text.Search

namespace EmbeddedExpr

/-- The range of offsets from `start` up to and without `stop`. -/
structure Region where
  start : Int
  stop : Int
  deriving DecidableEq, Repr

namespace Region

/-- The number of offsets in the range; negative when the bounds are reversed. -/
def length (r : Region) : Int := r.stop - r.start

/-- The range holds no offset. -/
def isEmpty (r : Region) : Bool := r.stop ≤ r.start

/-- The range moved by `delta`. -/
def shift (r : Region) (delta : Int) : Region := ⟨r.start + delta, r.stop + delta⟩

/-- The characters of a text that the range names. -/
def substring (r : Region) (s : List Char) : List Char := Text.slice s r.start r.stop

/-- The written form of a range. -/
def render (r : Region) : String := s!"Region({r.start}, {r.stop})"

@[simp] theorem length_shift (r : Region) (delta : Int) : (r.shift delta).length = r.length := by
  simp only [length, shift]; omega

@[simp] theorem isEmpty_shift (r : Region) (delta : Int) : (r.shift delta).isEmpty = r.isEmpty := by
  simp [isEmpty, shift]

end Region

end EmbeddedExpr
