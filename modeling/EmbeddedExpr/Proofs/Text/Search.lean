/-
  EmbeddedExpr.Proofs.Text.Search
  ───────────────────────────────
  **SEARCHES IN A TEXT THAT GOES ON, AND SLICES.**

  A search that ends inside of a text gives the same result when more text follows, and
  leaves that text over as well.  Slices join with their neighbours, and a slice of a slice
  is a slice of the whole.
-/
import EmbeddedExpr.Text.CaseMatch
import EmbeddedExpr.Text.Search

namespace EmbeddedExpr.Text

/-! ## §1. Runs of a class. -/

/-- A run that ends inside of a list ends there when the list goes on. -/
theorem takeWhile_append_stop {α : Type} {p : α → Bool} {xs : List α} (ys : List α)
    (h : ∃ x ∈ xs, p x = false) :
    (xs ++ ys).takeWhile p = xs.takeWhile p ∧ (xs ++ ys).dropWhile p = xs.dropWhile p ++ ys := by
  induction xs with
  | nil => obtain ⟨x, hx, -⟩ := h; cases hx
  | cons a xs ih =>
    by_cases ha : p a = true
    · have hxs : ∃ x ∈ xs, p x = false := by
        obtain ⟨x, hx, hp⟩ := h
        rcases List.mem_cons.mp hx with rfl | hx
        · exact absurd ha (by rw [hp]; exact Bool.false_ne_true)
        · exact ⟨x, hx, hp⟩
      rw [List.cons_append, List.takeWhile_cons_of_pos ha, List.takeWhile_cons_of_pos ha,
        List.dropWhile_cons_of_pos ha, List.dropWhile_cons_of_pos ha, (ih hxs).1]
      exact ⟨rfl, (ih hxs).2⟩
    · rw [List.cons_append, List.takeWhile_cons_of_neg ha, List.takeWhile_cons_of_neg ha,
        List.dropWhile_cons_of_neg ha, List.dropWhile_cons_of_neg ha]
      exact ⟨rfl, rfl⟩

/-! ## §2. The first occurrence of a part. -/

/-- The first occurrence of `part` in the text is at `n`. -/
def FirstAt (part s : List Char) (n : Nat) : Prop :=
  part <+: s.drop n ∧ ∀ k < n, ¬ part <+: s.drop k

/-- What follows the first occurrence of a part does not matter. -/
theorem firstAt_append_iff {part before after : List Char} :
    FirstAt part (before ++ part ++ after) before.length
      ↔ FirstAt part (before ++ part) before.length := by
  have hdrop : ∀ k ≤ before.length,
      (part <+: (before ++ part ++ after).drop k ↔ part <+: (before ++ part).drop k) := by
    intro k hk
    rw [List.drop_append_of_le_length (by rw [List.length_append]; omega)]
    constructor
    · intro h
      refine List.prefix_of_prefix_length_le h (List.prefix_append _ _) ?_
      rw [List.length_drop, List.length_append]
      omega
    · intro h
      exact h.trans (List.prefix_append _ _)
  unfold FirstAt
  rw [hdrop before.length (Nat.le_refl _)]
  refine and_congr_right fun _ => forall_congr' fun k => ?_
  exact imp_congr_right fun hk => not_congr (hdrop k (Nat.le_of_lt hk))

theorem not_prefix_of_cut? {part s before after : List Char} :
    cut? part s = some (before, after) → ∀ k < before.length, ¬ part <+: s.drop k := by
  induction s generalizing before with
  | nil =>
    intro h k hk
    have hlen := length_of_cut? h
    simp only [List.length_nil] at hlen
    omega
  | cons c rest ih =>
    intro h k hk
    unfold cut? at h
    by_cases hp : part.isPrefixOf (c :: rest) = true
    · rw [if_pos hp] at h
      obtain ⟨rfl, -⟩ := Prod.mk.inj (Option.some.inj h)
      exact absurd hk (Nat.not_lt_zero k)
    · rw [if_neg hp] at h
      obtain ⟨⟨x, y⟩, hx, hxy⟩ := Option.map_eq_some_iff.mp h
      obtain ⟨rfl, rfl⟩ := Prod.mk.inj hxy
      cases k with
      | zero => exact fun h0 => hp (List.isPrefixOf_iff_prefix.mpr h0)
      | succ k => exact ih hx k (Nat.lt_of_succ_lt_succ hk)

theorem cut?_at_head {part s : List Char} (h : part <+: s) :
    cut? part s = some ([], s.drop part.length) := by
  cases s with
  | nil =>
    obtain rfl : part = [] := List.prefix_nil.mp h
    rfl
  | cons c rest =>
    unfold cut?
    rw [if_pos (List.isPrefixOf_iff_prefix.mpr h)]

theorem cut?_of_firstAt {part after : List Char} (before : List Char) :
    FirstAt part (before ++ part ++ after) before.length →
      cut? part (before ++ part ++ after) = some (before, after) := by
  induction before with
  | nil =>
    intro _
    show cut? part (part ++ after) = some ([], after)
    rw [cut?_at_head (List.prefix_append part after), List.drop_left]
  | cons c before ih =>
    intro h
    have hp : ¬ part.isPrefixOf (c :: (before ++ part ++ after)) = true := fun hp =>
      h.2 0 (Nat.succ_pos _) (List.isPrefixOf_iff_prefix.mp hp)
    have hrest : FirstAt part (before ++ part ++ after) before.length :=
      ⟨h.1, fun k hk => h.2 (k + 1) (Nat.succ_lt_succ hk)⟩
    show cut? part (c :: (before ++ part ++ after)) = _
    unfold cut?
    rw [if_neg hp, ih hrest]
    rfl

/-- **A text is cut at the first occurrence of the part.** -/
theorem cut?_eq_some_iff {part s before after : List Char} :
    cut? part s = some (before, after)
      ↔ s = before ++ part ++ after ∧ FirstAt part (before ++ part) before.length := by
  constructor
  · intro h
    have hs := eq_of_cut? h
    have hfirst : FirstAt part (before ++ part ++ after) before.length := by
      refine ⟨?_, hs ▸ not_prefix_of_cut? h⟩
      rw [List.append_assoc, List.drop_left]
      exact List.prefix_append part after
    exact ⟨hs, firstAt_append_iff.mp hfirst⟩
  · rintro ⟨rfl, h⟩
    exact cut?_of_firstAt before (firstAt_append_iff.mpr h)

/-- A text that cannot be cut does not hold the part. -/
theorem cut?_eq_none_iff {part s : List Char} : cut? part s = none ↔ ¬ part <:+: s := by
  constructor
  · rintro h ⟨before, after, rfl⟩
    induction before with
    | nil =>
      have h : cut? part (part ++ after) = none := h
      rw [cut?_at_head (List.prefix_append part after)] at h
      cases h
    | cons c before ih =>
      have h : cut? part (c :: (before ++ part ++ after)) = none := h
      unfold cut? at h
      split at h
      · cases h
      · exact ih (Option.map_eq_none_iff.mp h)
  · intro h
    cases hc : cut? part s with
    | none => rfl
    | some found => exact absurd ⟨found.1, found.2, (eq_of_cut? hc).symm⟩ h

/-- A text that cannot be cut at a character does not hold it. -/
theorem notMem_of_cut?_eq_none {c : Char} {s : List Char} (h : cut? [c] s = none) : c ∉ s := by
  intro hmem
  obtain ⟨a, b, rfl⟩ := List.append_of_mem hmem
  exact cut?_eq_none_iff.mp h ⟨a, b, by simp⟩

/-- A text is cut at the first of a character's places. -/
theorem notMem_of_cut? {c : Char} {s before after : List Char}
    (h : cut? [c] s = some (before, after)) : c ∉ before := by
  intro hmem
  obtain ⟨a, b, rfl⟩ := List.append_of_mem hmem
  have hs := eq_of_cut? h
  refine not_prefix_of_cut? h a.length (by simp) ?_
  rw [hs, List.append_assoc, List.append_assoc, List.drop_left]
  simp

/-- Where a text from an offset on is cut, the part stands in the whole text, and what is left
over is what follows it there. -/
theorem drop_of_cut? {part w s before after : List Char} {offset : Nat} (hs : s = w.drop offset)
    (h : cut? part s = some (before, after)) :
    part <+: w.drop (offset + before.length)
      ∧ after = w.drop (offset + before.length + part.length) := by
  have hdrop : w.drop (offset + before.length) = part ++ after := by
    rw [← List.drop_drop, ← hs, eq_of_cut? h, List.append_assoc, List.drop_left]
  constructor
  · rw [hdrop]
    exact List.prefix_append part after
  · rw [← List.drop_drop, hdrop, List.drop_left]

/-- An occurrence that leaves over as much as follows a text lies inside of the text. -/
theorem cut?_append {part a b before after : List Char}
    (h : cut? part (a ++ b) = some (before, after)) (hle : b.length ≤ after.length) :
    ∃ rest, after = rest ++ b ∧ cut? part a = some (before, rest) := by
  obtain ⟨heq, hfirst⟩ := cut?_eq_some_iff.mp h
  obtain ⟨rest, hsuffix⟩ := List.suffix_of_suffix_length_le
    (List.suffix_append a b) (heq ▸ List.suffix_append (before ++ part) after) hle
  subst hsuffix
  refine ⟨rest, rfl, cut?_eq_some_iff.mpr ⟨?_, hfirst⟩⟩
  rw [← List.append_assoc] at heq
  exact List.append_cancel_right heq

/-- An occurrence inside of a text is found there when the text goes on. -/
theorem cut?_append_of_some {part a b before rest : List Char}
    (h : cut? part a = some (before, rest)) : cut? part (a ++ b) = some (before, rest ++ b) := by
  obtain ⟨rfl, hfirst⟩ := cut?_eq_some_iff.mp h
  exact cut?_eq_some_iff.mpr ⟨List.append_assoc _ _ _, hfirst⟩

/-- A reading through a mark that leaves over as much as follows a text ends in the text,
whatever follows it. -/
theorem throughMark_append_of_le {mark a b b' : List Char}
    (h : b.length ≤ (throughMark mark (a ++ b)).2.length) (hb : b = [] → b' = []) :
    throughMark mark (a ++ b') = ((throughMark mark a).1, (throughMark mark a).2 ++ b') := by
  cases hc : cut? mark (a ++ b) with
  | none =>
    -- nothing is left over, so nothing follows
    simp only [throughMark, hc, List.length_nil] at h
    obtain rfl := hb (List.length_eq_zero_iff.mp (by omega))
    rw [List.append_nil, List.append_nil]
  | some found =>
    obtain ⟨before, after⟩ := found
    simp only [throughMark, hc] at h
    obtain ⟨rest, -, hrest⟩ := cut?_append hc h
    simp only [throughMark, hrest, cut?_append_of_some hrest]

/-! ## §3. Slices. -/

theorem clampIndex_natCast (size i : Nat) : clampIndex size i = min i size := by
  rw [clampIndex, if_neg (Int.not_lt.mpr (Int.natCast_nonneg i)), Int.toNat_natCast]

theorem slice_natCast {s : List Char} {a b : Nat} (hab : a ≤ b) (hb : b ≤ s.length) :
    slice s a b = (s.take b).drop a := by
  rw [slice, clampIndex_natCast, clampIndex_natCast, Nat.min_eq_left hb,
    Nat.min_eq_left (Nat.le_trans hab hb)]

/-- A slice of a slice is the slice of the whole that is moved by the start of the first. -/
theorem slice_slice {s : List Char} {start stop a b : Nat} (hb : start + b ≤ stop) :
    ((((s.take stop).drop start).take b).drop a)
      = (s.take (b + start)).drop (a + start) := by
  rw [List.take_drop, List.take_take, Nat.min_eq_left (by omega), List.drop_drop,
    Nat.add_comm start b, Nat.add_comm start a]

/-- Neighbouring slices join. -/
theorem slice_join {s : List Char} {a b c : Nat} (hab : a ≤ b) (hbc : b ≤ c)
    (hc : c ≤ s.length) :
    (s.take b).drop a ++ (s.take c).drop b = (s.take c).drop a := by
  have hb : s.take b = (s.take c).take b := by
    rw [List.take_take, Nat.min_eq_left hbc]
  have hlen : a ≤ ((s.take c).take b).length := by
    rw [List.length_take, List.length_take]
    omega
  rw [hb, ← List.drop_append_of_le_length hlen, List.take_append_drop]

/-- Texts that agree on the offsets of a slice have the same slice there. -/
theorem slice_congr {s s' : List Char} {a b : Nat}
    (h : ∀ k, a ≤ k → k < b → s'[k]? = s[k]?) : (s'.take b).drop a = (s.take b).drop a := by
  refine List.ext_getElem? fun k => ?_
  rw [List.getElem?_drop, List.getElem?_drop, List.getElem?_take, List.getElem?_take]
  by_cases hk : a + k < b
  · rw [if_pos hk, if_pos hk, h (a + k) (Nat.le_add_right a k) hk]
  · rw [if_neg hk, if_neg hk]

end EmbeddedExpr.Text
