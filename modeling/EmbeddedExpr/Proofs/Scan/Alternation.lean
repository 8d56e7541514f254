/-
  EmbeddedExpr.Proofs.Scan.Alternation
  ────────────────────────────────────
  **EQUAL MARKERS OPEN AND CLOSE BY TURNS.**

  The search for an opening marker and the search for a closing one count their occurrences
  each from its own start.  When both look for the same marker they count one sequence, and
  the live ones of it open and close the candidates by turns:

      candidates m.text m.text inert s = between m.text.length s.length (liveOccurrences m inert 0 s)

  A text without inert offsets is `split` at the same occurrences, so its candidates are every
  other piece.
-/
import EmbeddedExpr.Proofs.Scan.Embedding
import EmbeddedExpr.Proofs.Scan.Occurrences

namespace EmbeddedExpr

/-! ## §1. One sequence of live markers. -/

namespace Scan

variable {m : Marker} {inert : Nat → Bool}

/-- The occurrences of a marker, counted without overlap, that are not inert.  The text begins
at `offset`. -/
def liveOccurrences (m : Marker) (inert : Nat → Bool) (offset : Nat) (s : List Char) : List Nat :=
  (occurrences m offset s).filter fun k => !inert k

theorem liveOccurrences_of_none {offset : Nat} {s : List Char}
    (h : live? m inert offset s = none) : liveOccurrences m inert offset s = [] := by
  have hfind := live?_eq_find? m inert offset s
  rw [h] at hfind
  exact List.filter_eq_nil_iff.mpr (List.find?_eq_none.mp hfind.symm)

/-- After a live marker the count goes on with what follows it. -/
theorem liveOccurrences_of_some {offset found : Nat} {s after : List Char}
    (h : live? m inert offset s = some (found, after)) :
    liveOccurrences m inert offset s
      = found :: liveOccurrences m inert (found + m.text.length) after := by
  fun_induction live? m inert offset s with
  | case1 => cases h
  | case2 offset s before rest hc at_ hi ih =>
    -- an inert marker is counted, but it is not live
    unfold liveOccurrences
    rw [occurrences, hc]
    simp only
    rw [List.filter_cons_of_neg (by simpa using hi)]
    exact ih h
  | case3 offset s before rest hc at_ hi =>
    obtain ⟨rfl, rfl⟩ := Prod.mk.inj (Option.some.inj h)
    unfold liveOccurrences
    rw [occurrences, hc]
    simp only
    rw [List.filter_cons_of_pos (by simpa using hi)]

/-! ## §2. Regions between marks. -/

/-- The regions between marks that open and close by turns: each begins `width` characters
after the start of its opening mark and ends where its closing mark starts.  Without a closing
mark the last one goes on to the limit. -/
def between (width limit : Nat) : List Nat → List Region
  | [] => []
  | [a] => [⟨(a + width : Nat), limit⟩]
  | a :: b :: more => ⟨(a + width : Nat), b⟩ :: between width limit more

theorem candidatesFrom_self (m : Marker) (inert : Nat → Bool) (offset : Nat) (s : List Char) :
    candidatesFrom m m inert offset s
      = between m.text.length (offset + s.length) (liveOccurrences m inert offset s) := by
  -- both searches of one step take the next live marker off the same sequence
  fun_induction candidatesFrom m m inert offset s with
  | case1 offset s ho =>
    rw [liveOccurrences_of_none ho]
    rfl
  | case2 offset s a body ho start hc =>
    obtain ⟨-, hlen⟩ := live?_bounds ho
    rw [liveOccurrences_of_some ho, liveOccurrences_of_none hc, ← hlen]
    rfl
  | case3 offset s a body ho start b rest hc ih =>
    obtain ⟨-, hlen⟩ := live?_bounds ho
    obtain ⟨-, hlen'⟩ := live?_bounds hc
    have hlimit : b + m.text.length + rest.length = offset + s.length := by omega
    rw [liveOccurrences_of_some ho, liveOccurrences_of_some hc, ih, hlimit]
    rfl

end Scan

/-! ## §3. The pieces of a text. -/

/-- The pieces of a text between the occurrences of a marker, counted from left to right
without overlap. -/
def Marker.split (m : Marker) (s : List Char) : List (List Char) :=
  match _h : Text.cut? m.text s with
  | none => [s]
  | some (before, after) => before :: m.split after
termination_by s.length
decreasing_by
  have := Text.length_of_cut? _h
  have := Scan.Marker.length_pos m
  omega

theorem Marker.split_of_cut?_eq_none {m : Marker} {s : List Char}
    (h : Text.cut? m.text s = none) : m.split s = [s] := by
  rw [Marker.split, h]

theorem Marker.split_of_cut? {m : Marker} {s before after : List Char}
    (h : Text.cut? m.text s = some (before, after)) : m.split s = before :: m.split after := by
  rw [Marker.split, h]

theorem Marker.split_ne_nil (m : Marker) (s : List Char) : m.split s ≠ [] := by
  cases h : Text.cut? m.text s with
  | none =>
    rw [Marker.split_of_cut?_eq_none h]
    exact List.cons_ne_nil _ _
  | some found =>
    rw [Marker.split_of_cut? h]
    exact List.cons_ne_nil _ _

/-- The pieces with the marker between them are the text. -/
theorem Marker.intercalate_split (m : Marker) (s : List Char) :
    m.text.intercalate (m.split s) = s := by
  fun_induction Marker.split m s with
  | case1 s h => simp [List.intercalate]
  | case2 s before after h ih =>
    obtain ⟨piece, more, hsplit⟩ := List.exists_cons_of_ne_nil (m.split_ne_nil after)
    rw [hsplit] at ih ⊢
    rw [Text.eq_of_cut? h, ← ih]
    simp [List.intercalate]

/-- A region holds the characters that stand at its place. -/
theorem Region.substring_of_drop {w e rest : List Char} {a : Nat} (ha : a ≤ w.length)
    (h : w.drop a = e ++ rest) : (⟨a, (a + e.length : Nat)⟩ : Region).substring w = e := by
  have hlen := congrArg List.length h
  rw [List.length_drop, List.length_append] at hlen
  show Text.slice w (a : Nat) (a + e.length : Nat) = e
  rw [Text.slice_natCast (Nat.le_add_right a _) (by omega), List.drop_take,
    Nat.add_sub_cancel_left, h, List.take_left]

namespace Scan

/-- Where no offset is inert, a live marker is where the text is cut. -/
theorem cut?_of_live? {m : Marker} {offset found : Nat} {s after : List Char}
    (h : live? m (fun _ => false) offset s = some (found, after)) :
    ∃ before, Text.cut? m.text s = some (before, after) ∧ found = offset + before.length := by
  rw [live?_of_never] at h
  obtain ⟨⟨before, after'⟩, hcut, hfound⟩ := Option.map_eq_some_iff.mp h
  obtain ⟨rfl, rfl⟩ := Prod.mk.inj hfound
  exact ⟨before, hcut, rfl⟩

theorem cut?_of_live?_eq_none {m : Marker} {offset : Nat} {s : List Char}
    (h : live? m (fun _ => false) offset s = none) : Text.cut? m.text s = none := by
  rw [live?_of_never] at h
  exact Option.map_eq_none_iff.mp h

/-- **The candidates between equal markers hold every other piece of the text.** -/
theorem substring_candidatesFrom_self {m : Marker} {w : List Char} {offset : Nat}
    {s : List Char} (hs : s = w.drop offset) (i : Nat) :
    ((candidatesFrom m m (fun _ => false) offset s).map fun r => r.substring w)[i]?
      = (m.split s)[2 * i + 1]? := by
  -- one candidate takes two pieces: the one before its opening mark, and its own
  fun_induction candidatesFrom m m (fun _ => false) offset s generalizing i with
  | case1 offset s ho =>
    rw [Marker.split_of_cut?_eq_none (cut?_of_live?_eq_none ho)]
    simp
  | case2 offset s a body ho start hc =>
    obtain ⟨-, hmark, hbody⟩ := live?_eq_drop hs ho
    obtain ⟨t, hcut, -⟩ := cut?_of_live? ho
    have hlive : Live m (fun _ => false) w a := ⟨rfl, hmark⟩
    have htext : (⟨start, (start + body.length : Nat)⟩ : Region).substring w = body := by
      apply Region.substring_of_drop hlive.add_length_le
      rw [← hbody]
      exact (List.append_nil body).symm
    rw [Marker.split_of_cut? hcut, Marker.split_of_cut?_eq_none (cut?_of_live?_eq_none hc)]
    cases i with
    | zero => exact congrArg some htext
    | succ i => simp [Nat.mul_add]
  | case3 offset s a body ho start b rest hc ih =>
    obtain ⟨-, -, hbody⟩ := live?_eq_drop hs ho
    obtain ⟨-, hmark, hrest⟩ := live?_eq_drop hbody hc
    obtain ⟨t, hcut, -⟩ := cut?_of_live? ho
    obtain ⟨e, hcut', hb⟩ := cut?_of_live? hc
    have hlive : Live m (fun _ => false) w b := ⟨rfl, hmark⟩
    have htext : (⟨start, b⟩ : Region).substring w = e := by
      have hend := hlive.add_length_le
      rw [hb]
      apply Region.substring_of_drop (by omega)
      rw [← hbody, Text.eq_of_cut? hcut', List.append_assoc]
    rw [Marker.split_of_cut? hcut, Marker.split_of_cut? hcut']
    cases i with
    | zero => exact congrArg some htext
    | succ i =>
      show ((candidatesFrom m m (fun _ => false) (b + m.text.length) rest).map
        fun r => r.substring w)[i]? = (m.split rest)[2 * i + 1]?
      exact ih hrest i

/-- **Equal markers open and close by turns.**  The candidates stand between the live
occurrences, and without inert offsets they hold the pieces with an odd index. -/
theorem candidates_alternate (m : Marker) (inert : Nat → Bool) (s : List Char) :
    candidates m.text m.text inert s
        = between m.text.length s.length (liveOccurrences m inert 0 s)
      ∧ ∀ i : Nat, ((candidates m.text m.text (fun _ => false) s).map fun r => r.substring s)[i]?
          = (m.split s)[2 * i + 1]? := by
  constructor
  · have h := candidatesFrom_self m inert 0 s
    rw [Nat.zero_add] at h
    exact h
  · intro i
    exact substring_candidatesFrom_self rfl i

/-- An occurrence that is inert opens nothing, and one that begins inside of another is not
counted. -/
example : candidates ['%', '%'] ['%', '%'] (fun k => k = 2) "%%%%%a%%b".toList = [⟨2, 6⟩] := by
  decide +kernel

end Scan

end EmbeddedExpr
