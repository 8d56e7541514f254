/-
  EmbeddedExpr.Proofs.Scan.Marker
  ───────────────────────────────
  **THE MARKERS AROUND A REGION.**

  A candidate of a text begins right after an opening marker, and ends right before a closing
  one or with the text (`Delimited`).  Neither marker begins at an inert offset, but inert
  offsets may follow its first one: a marker that begins before a mark of another kind and goes
  on into it holds that mark, or ends with its beginning (`endsInto_of_overlap`).
-/
import Mathlib.Data.List.Infix
import EmbeddedExpr.Proofs.Scan.Order
import EmbeddedExpr.Proofs.Text.Search

namespace EmbeddedExpr

/-! ## §1. Marks that overlap. -/

namespace Text

/-- The text ends with the beginning of the mark, or with all of it. -/
def endsInto (m mark : List Char) : Bool :=
  (List.range mark.length).any fun n => (mark.take (n + 1)).isSuffixOf m

theorem endsInto_of_prefix_of_suffix {m mark p : List Char} (hne : p ≠ []) (hp : p <+: mark)
    (hs : p <:+ m) : endsInto m mark = true := by
  have hpos := List.length_pos_iff.mpr hne
  have hle := hp.length_le
  refine List.any_eq_true.mpr ⟨p.length - 1, List.mem_range.mpr (by omega), ?_⟩
  rw [Nat.sub_add_cancel hpos, ← List.prefix_iff_eq_take.mp hp]
  exact List.isSuffixOf_iff_suffix.mpr hs

/-- **A text that goes on into a mark after it holds the mark, or ends with its beginning.** -/
theorem endsInto_of_overlap {m mark s : List Char} {a b : Nat} (hm : m <+: s.drop a)
    (hmark : mark <+: s.drop b) (hab : a ≤ b) (hb : b < a + m.length) :
    mark <:+: m ∨ endsInto m mark = true := by
  have hsuffix : m.drop (b - a) <:+ m := List.drop_suffix _ _
  have hrest : m.drop (b - a) <+: s.drop b := by
    have h := hm.drop (b - a)
    rw [List.drop_drop, Nat.add_sub_cancel' hab] at h
    exact h
  rcases List.prefix_or_prefix_of_prefix hmark hrest with h | h
  · exact Or.inl (h.isInfix.trans hsuffix.isInfix)
  · refine Or.inr (endsInto_of_prefix_of_suffix (fun hnil => ?_) h hsuffix)
    have := List.drop_eq_nil_iff.mp hnil
    omega

end Text

/-! ## §2. Live markers. -/

namespace Scan

/-- A live marker stands in the text at an offset that is not inert. -/
theorem live?_eq_drop {m : Marker} {inert : Nat → Bool} {w : List Char} {offset found : Nat}
    {s after : List Char} (hs : s = w.drop offset)
    (h : live? m inert offset s = some (found, after)) :
    inert found = false ∧ m.text <+: w.drop found ∧ after = w.drop (found + m.text.length) := by
  fun_induction live? m inert offset s with
  | case1 => cases h
  | case2 offset s before rest hc found' hi ih =>
    exact ih (Text.drop_of_cut? hs hc).2 h
  | case3 offset s before rest hc found' hi =>
    obtain ⟨rfl, rfl⟩ := Prod.mk.inj (Option.some.inj h)
    exact ⟨Bool.eq_false_iff.mpr hi, Text.drop_of_cut? hs hc⟩

/-! ## §3. Regions between markers. -/

/-- The region stands in the text right after an opening marker, and right before a closing one
or at the limit.  The markers begin at offsets that are not inert. -/
structure Delimited (opening closing : List Char) (inert : Nat → Bool) (limit : Nat)
    (w : List Char) (r : Region) : Prop where
  opened : ∃ a : Nat, r.start = (a + opening.length : Nat) ∧ inert a = false
    ∧ opening <+: w.drop a
  closed : r.stop = (limit : Nat) ∨ ∃ b : Nat, r.stop = (b : Nat) ∧ inert b = false
    ∧ closing <+: w.drop b

theorem delimited_of_mem_candidatesFrom {opening closing : Marker} {inert : Nat → Bool}
    {w : List Char} {offset : Nat} {s : List Char} {r : Region} (hs : s = w.drop offset)
    (hle : offset ≤ w.length) (hr : r ∈ candidatesFrom opening closing inert offset s) :
    Delimited opening.text closing.text inert w.length w r := by
  fun_induction candidatesFrom opening closing inert offset s with
  | case1 => cases hr
  | case2 offset s at_ body ho start hc =>
    obtain ⟨hlive, hmark, hbody⟩ := live?_eq_drop hs ho
    obtain ⟨-, hlen⟩ := live?_bounds ho
    obtain rfl := List.mem_singleton.mp hr
    refine ⟨⟨at_, rfl, hlive, hmark⟩, Or.inl ?_⟩
    rw [hs, List.length_drop] at hlen
    simp only
    omega
  | case3 offset s at_ body ho start stop rest hc ih =>
    obtain ⟨hlive, hmark, hbody⟩ := live?_eq_drop hs ho
    obtain ⟨hlive', hmark', hrest⟩ := live?_eq_drop hbody hc
    obtain ⟨-, hlen⟩ := live?_bounds ho
    obtain ⟨-, hlen'⟩ := live?_bounds hc
    rcases List.mem_cons.mp hr with rfl | hr
    · exact ⟨⟨at_, rfl, hlive, hmark⟩, Or.inr ⟨stop, rfl, hlive', hmark'⟩⟩
    · refine ih hrest ?_ hr
      rw [hs, List.length_drop] at hlen
      omega

/-- A text has expressions only when both markers have a character. -/
theorem exists_markers_of_mem_regions {opening closing s : List Char} {inert : Nat → Bool}
    {r : Region} (hr : r ∈ regions opening closing inert s) :
    ∃ o c : Marker, opening = o.text ∧ closing = c.text
      ∧ r ∈ candidatesFrom o c inert 0 s := by
  have hr := (List.mem_filter.mp hr).1
  unfold candidates at hr
  split at hr
  · next o c ho hc =>
    exact ⟨o, c, (Marker.text_of_ofText? ho).symm, (Marker.text_of_ofText? hc).symm, hr⟩
  · cases hr

/-- **The expressions of a text stand between live markers.** -/
theorem delimited_of_mem_regions {opening closing s : List Char} {inert : Nat → Bool} {r : Region}
    (hr : r ∈ regions opening closing inert s) :
    Delimited opening closing inert s.length s r := by
  obtain ⟨o, c, rfl, rfl, hmem⟩ := exists_markers_of_mem_regions hr
  exact delimited_of_mem_candidatesFrom rfl (Nat.zero_le _) hmem

/-- The opening marker of an expression stands before it in the text. -/
theorem one_le_start_of_mem_regions {opening closing s : List Char} {inert : Nat → Bool}
    {r : Region} (hr : r ∈ regions opening closing inert s) : 1 ≤ r.start := by
  obtain ⟨o, c, rfl, rfl, hmem⟩ := exists_markers_of_mem_regions hr
  obtain ⟨⟨a, hstart, -⟩, -⟩ := delimited_of_mem_candidatesFrom rfl (Nat.zero_le _) hmem
  have hpos := Marker.length_pos o
  omega

/-- A region of a part of a text is one of the text, as far as the part goes. -/
theorem Delimited.shift {opening closing w : List Char} {inert : Nat → Bool} {start stop : Nat}
    {r : Region} (hle : start ≤ stop) (hstop : stop ≤ w.length)
    (h : Delimited opening closing (fun k => inert (start + k)) ((w.take stop).drop start).length
      ((w.take stop).drop start) r) :
    Delimited opening closing inert stop w (r.shift start) := by
  have hmark : ∀ {m : List Char} {k : Nat}, m <+: ((w.take stop).drop start).drop k →
      m <+: w.drop (start + k) := by
    intro m k hm
    rw [List.drop_drop] at hm
    exact hm.trans ((List.take_prefix stop w).drop (start + k))
  obtain ⟨⟨a, hstart, hlive, ha⟩, hclosed⟩ := h
  refine ⟨⟨start + a, ?_, hlive, hmark ha⟩, ?_⟩
  · show r.start + start = _
    rw [hstart]
    omega
  · rcases hclosed with hlimit | ⟨b, hb, hlive', hb'⟩
    · refine Or.inl ?_
      show r.stop + start = _
      rw [hlimit, List.length_drop, List.length_take, Nat.min_eq_left hstop]
      omega
    · refine Or.inr ⟨start + b, ?_, hlive', hmark hb'⟩
      show r.stop + start = _
      rw [hb]
      omega

end Scan

end EmbeddedExpr
