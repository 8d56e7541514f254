/-
  EmbeddedExpr.Proofs.Scan.Occurrences
  ────────────────────────────────────
  **A SEARCH COUNTS OCCURRENCES WITHOUT OVERLAP.**

  `occurrences m offset s` are the places of a marker in a text, counted from left to right
  so that no two of them overlap.  Whether an offset is inert does not matter to them.  The
  search for a live marker finds the first live one of them:

      (live? m inert offset s).map Prod.fst = (occurrences m offset s).find? (! inert ·)

  A marker that is not counted begins inside of one that is, so a live marker that the search
  passes over is `Hidden` by an inert one.  The search finds the first live marker of a text
  exactly when that marker is counted (`isFirstLive_iff`).
-/
import EmbeddedExpr.Proofs.Scan.Marker
import EmbeddedExpr.Proofs.Text.Search

namespace EmbeddedExpr.Scan

/-! ## §1. Occurrences without overlap. -/

/-- Where the marker stands in a text, counted from left to right without overlap.  The text
begins at `offset`. -/
def occurrences (m : Marker) (offset : Nat) (s : List Char) : List Nat :=
  match _h : Text.cut? m.text s with
  | none => []
  | some (before, after) =>
    (offset + before.length) ::
      occurrences m (offset + before.length + m.text.length) after
termination_by s.length
decreasing_by
  have := Text.length_of_cut? _h
  have := Marker.length_pos m
  omega

/-- **The search finds the first live one among the occurrences.** -/
theorem live?_eq_find? (m : Marker) (inert : Nat → Bool) (offset : Nat) (s : List Char) :
    (live? m inert offset s).map Prod.fst
      = (occurrences m offset s).find? fun k => !inert k := by
  -- both go on right after the occurrence at hand, inert or not
  fun_induction live? m inert offset s with
  | case1 offset s hc =>
    rw [occurrences, hc]
    rfl
  | case2 offset s before rest hc found hi ih =>
    rw [occurrences, hc]
    simp only
    rw [List.find?_cons_of_neg (by show ¬ (!inert found) = true; rw [hi]; decide)]
    exact ih
  | case3 offset s before rest hc found hi =>
    rw [occurrences, hc]
    simp only
    rw [List.find?_cons_of_pos (by
      show (!inert found) = true
      rw [Bool.eq_false_iff.mpr hi]
      rfl)]
    rfl

theorem le_of_mem_occurrences {m : Marker} {offset k : Nat} {s : List Char}
    (hk : k ∈ occurrences m offset s) : offset ≤ k := by
  fun_induction occurrences m offset s with
  | case1 => cases hk
  | case2 offset s before after hc ih =>
    rcases List.mem_cons.mp hk with rfl | hk
    · exact Nat.le_add_right _ _
    · have := ih hk
      omega

/-- The marker stands where an occurrence is counted. -/
theorem prefix_of_mem_occurrences {m : Marker} {w : List Char} {offset k : Nat} {s : List Char}
    (hs : s = w.drop offset) (hk : k ∈ occurrences m offset s) : m.text <+: w.drop k := by
  fun_induction occurrences m offset s with
  | case1 => cases hk
  | case2 offset s before after hc ih =>
    obtain ⟨hm, hafter⟩ := Text.drop_of_cut? hs hc
    rcases List.mem_cons.mp hk with rfl | hk
    · exact hm
    · exact ih hafter hk

/-- **No two of the occurrences counted overlap.** -/
theorem pairwise_occurrences (m : Marker) (offset : Nat) (s : List Char) :
    (occurrences m offset s).Pairwise fun j k => j + m.text.length ≤ k := by
  fun_induction occurrences m offset s with
  | case1 => exact List.Pairwise.nil
  | case2 offset s before after hc ih =>
    exact List.Pairwise.cons (fun k hk => le_of_mem_occurrences hk) ih

/-- **An occurrence is counted, or begins inside of one that is counted.** -/
theorem mem_occurrences_or {m : Marker} {w : List Char} {offset k : Nat} {s : List Char}
    (hs : s = w.drop offset) (hle : offset ≤ k) (hm : m.text <+: w.drop k) :
    k ∈ occurrences m offset s
      ∨ ∃ j ∈ occurrences m offset s, j < k ∧ k < j + m.text.length := by
  have hat : ∀ {offset : Nat} {s : List Char}, s = w.drop offset → offset ≤ k →
      m.text <+: s.drop (k - offset) := by
    intro offset s hs hle
    rw [hs, List.drop_drop, Nat.add_sub_cancel' hle]
    exact hm
  fun_induction occurrences m offset s with
  | case1 offset s hc =>
    refine absurd ?_ (Text.cut?_eq_none_iff.mp hc)
    exact (hat hs hle).isInfix.trans (List.drop_suffix _ _).isInfix
  | case2 offset s before after hc ih =>
    obtain ⟨-, hdrop⟩ := Text.drop_of_cut? hs hc
    -- the offset is at the first occurrence, inside of it, or past it; it is not before it
    have hge : offset + before.length ≤ k := by
      refine Nat.not_lt.mp fun hlt => ?_
      exact Text.not_prefix_of_cut? hc (k - offset) (by omega) (hat hs hle)
    rcases Nat.eq_or_lt_of_le hge with heq | hlt
    · exact Or.inl (heq ▸ List.mem_cons_self)
    · by_cases hin : k < offset + before.length + m.text.length
      · exact Or.inr ⟨_, List.mem_cons_self, hlt, hin⟩
      · rcases ih hdrop (by omega) with hk | ⟨j, hj, hjk⟩
        · exact Or.inl (List.mem_cons_of_mem _ hk)
        · exact Or.inr ⟨j, List.mem_cons_of_mem _ hj, hjk⟩

/-! ## §2. Live and hidden markers. -/

/-- The marker stands in the text at an offset that is not inert. -/
def Live (m : Marker) (inert : Nat → Bool) (w : List Char) (k : Nat) : Prop :=
  inert k = false ∧ m.text <+: w.drop k

/-- The marker stands in the text at an inert offset from `start` on, and reaches from before
the offset `k` over it. -/
def Hidden (m : Marker) (inert : Nat → Bool) (w : List Char) (start k : Nat) : Prop :=
  ∃ j, start ≤ j ∧ j < k ∧ k < j + m.text.length ∧ inert j = true ∧ m.text <+: w.drop j

/-- `stop` is where the first live marker from `start` on stands, or the end of the text when
there is none. -/
structure IsFirstLive (m : Marker) (inert : Nat → Bool) (w : List Char) (start stop : Nat) :
    Prop where
  here : Live m inert w stop ∨ stop = w.length
  le : start ≤ stop
  none_before : ∀ k, start ≤ k → k < stop → ¬ Live m inert w k

variable {m : Marker} {inert : Nat → Bool} {w : List Char}

/-- A live marker ends in the text. -/
theorem Live.add_length_le {k : Nat} (h : Live m inert w k) : k + m.text.length ≤ w.length := by
  have hlen := h.2.length_le
  have hpos := Marker.length_pos m
  rw [List.length_drop] at hlen
  omega

theorem Live.lt_length {k : Nat} (h : Live m inert w k) : k < w.length := by
  have hle := h.add_length_le
  have hpos := Marker.length_pos m
  omega

/-- The first live one among the occurrences from `start` on. -/
def firstCounted? (m : Marker) (inert : Nat → Bool) (w : List Char) (start : Nat) : Option Nat :=
  (occurrences m start (w.drop start)).find? fun k => !inert k

theorem firstCounted?_eq {start : Nat} {s : List Char} (hs : s = w.drop start) :
    firstCounted? m inert w start = (live? m inert start s).map Prod.fst := by
  rw [live?_eq_find?, hs]
  rfl

theorem live_of_firstCounted? {start found : Nat}
    (h : firstCounted? m inert w start = some found) : start ≤ found ∧ Live m inert w found := by
  have hmem := List.mem_of_find?_eq_some h
  have hlive := List.find?_some h
  simp only [Bool.not_eq_true'] at hlive
  exact ⟨le_of_mem_occurrences hmem, hlive, prefix_of_mem_occurrences rfl hmem⟩

/-- What is counted before the first live one is inert. -/
theorem inert_of_mem_occurrences {start j : Nat} (hj : j ∈ occurrences m start (w.drop start))
    (hbefore : ∀ found ∈ firstCounted? m inert w start, j < found) : inert j = true := by
  cases hfound : firstCounted? m inert w start with
  | none =>
    have h := List.find?_eq_none.mp hfound j hj
    simpa only [Bool.not_eq_true', Bool.not_eq_false] using h
  | some found =>
    have hlt := hbefore found hfound
    obtain ⟨-, front, back, hsplit, hfront⟩ := List.find?_eq_some_iff_append.mp hfound
    have hsorted := pairwise_occurrences m start (w.drop start)
    rw [hsplit] at hj hsorted
    rcases List.mem_append.mp hj with hj | hj
    · simpa only [Bool.not_not] using hfront j hj
    · -- from the one found on, nothing is counted that stands before it
      rcases List.mem_cons.mp hj with rfl | hj
      · omega
      · have := (List.pairwise_cons.mp (List.pairwise_append.mp hsorted).2.1).1 j hj
        omega

/-- **A live marker that the search passes over is hidden by an inert one.** -/
theorem hidden_of_live {start k : Nat} (hle : start ≤ k) (hk : Live m inert w k)
    (hbefore : ∀ found ∈ firstCounted? m inert w start, k < found) :
    Hidden m inert w start k := by
  rcases mem_occurrences_or rfl hle hk.2 with hmem | ⟨j, hj, hlt, hin⟩
  · have hi := inert_of_mem_occurrences hmem hbefore
    rw [hk.1] at hi
    cases hi
  · have hi : inert j = true := inert_of_mem_occurrences hj fun found hfound =>
      Nat.lt_trans hlt (hbefore found hfound)
    exact ⟨j, le_of_mem_occurrences hj, hlt, hin, hi, prefix_of_mem_occurrences rfl hj⟩

/-! ## §3. When the first live marker is found. -/

theorem IsFirstLive.unique {start stop stop' : Nat} (h : IsFirstLive m inert w start stop)
    (h' : IsFirstLive m inert w start stop') : stop = stop' := by
  have hle : ∀ {a b : Nat}, IsFirstLive m inert w start a → IsFirstLive m inert w start b →
      a ≤ b := by
    intro a b ha hb
    refine Nat.not_lt.mp fun hlt => ?_
    rcases hb.here with hlive | hend
    · exact ha.none_before b hb.le hlt hlive
    · -- nothing stands past the end of the text
      rcases ha.here with hlive | hend'
      · have := hlive.lt_length
        omega
      · omega
  exact Nat.le_antisymm (hle h h') (hle h' h)

/-- Where the search from `start` on stops: at the marker that it finds, or with the text. -/
def searchStop (m : Marker) (inert : Nat → Bool) (w : List Char) (start : Nat) : Nat :=
  (firstCounted? m inert w start).getD w.length

theorem searchStop_here (m : Marker) (inert : Nat → Bool) {start : Nat} (hle : start ≤ w.length) :
    (Live m inert w (searchStop m inert w start) ∨ searchStop m inert w start = w.length)
      ∧ start ≤ searchStop m inert w start := by
  unfold searchStop
  cases hfound : firstCounted? m inert w start with
  | none => exact ⟨Or.inr rfl, hle⟩
  | some found =>
    obtain ⟨hge, hlive⟩ := live_of_firstCounted? hfound
    exact ⟨Or.inl hlive, hge⟩

theorem lt_of_lt_searchStop {start k : Nat} (hlt : k < searchStop m inert w start) :
    ∀ found ∈ firstCounted? m inert w start, k < found := by
  intro found hfound
  rw [searchStop, Option.mem_def.mp hfound] at hlt
  exact hlt

/-- **The search stops at the first live marker exactly when that one is counted.** -/
theorem isFirstLive_iff {start : Nat} (hle : start ≤ w.length) :
    IsFirstLive m inert w start (searchStop m inert w start)
      ↔ ∀ k, Live m inert w k → IsFirstLive m inert w start k →
          k ∈ occurrences m start (w.drop start) := by
  constructor
  · intro hfirst k hk hkfirst
    obtain rfl := hfirst.unique hkfirst
    cases hfound : firstCounted? m inert w start with
    | none =>
      -- the search stops with the text, where no marker stands
      have hlt := hk.lt_length
      rw [searchStop, hfound] at hlt
      exact absurd hlt (Nat.lt_irrefl _)
    | some found =>
      rw [searchStop, hfound]
      exact List.mem_of_find?_eq_some hfound
  · intro hcounted
    obtain ⟨hhere, hge⟩ := searchStop_here m inert hle
    refine ⟨hhere, hge, fun k => ?_⟩
    -- the first live marker before the stop would be counted, and so inert
    induction k using Nat.strongRecOn with
    | ind k ih =>
      intro hk hlt hlive
      have hfirst : IsFirstLive m inert w start k :=
        ⟨Or.inl hlive, hk, fun j hj hjk => ih j hjk hj (Nat.lt_trans hjk hlt)⟩
      have hi := inert_of_mem_occurrences (hcounted k hlive hfirst) (lt_of_lt_searchStop hlt)
      rw [hlive.1] at hi
      cases hi

end EmbeddedExpr.Scan
