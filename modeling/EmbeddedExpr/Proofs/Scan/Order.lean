/-
  EmbeddedExpr.Proofs.Scan.Order
  ──────────────────────────────
  **THE REGIONS OF A TEXT STAND IN ORDER INSIDE IT.**

  `Spread lower upper rs` says that regions stand one after the other between two bounds.
  The candidates of a text are spread over it, whatever offsets are inert, and only the
  inertness of the text's own offsets matters to them.
-/
import EmbeddedExpr.Scan

namespace EmbeddedExpr

/-! ## §1. Regions in order. -/

/-- The regions stand between the bounds, each at or after the end of the one before it. -/
def Spread (lower upper : Int) : List Region → Prop
  | [] => True
  | r :: more => lower ≤ r.start ∧ r.start ≤ r.stop ∧ r.stop ≤ upper ∧ Spread r.stop upper more

theorem Spread.weaken {lower lower' upper : Int} {rs : List Region} (hle : lower' ≤ lower)
    (h : Spread lower upper rs) : Spread lower' upper rs := by
  cases rs with
  | nil => trivial
  | cons r more => exact ⟨Int.le_trans hle h.1, h.2⟩

theorem Spread.raise {upper upper' : Int} (hle : upper ≤ upper') {rs : List Region} :
    ∀ {lower : Int}, Spread lower upper rs → Spread lower upper' rs := by
  induction rs with
  | nil => intro lower _; trivial
  | cons r more ih =>
    intro lower h
    obtain ⟨hstart, hr, hstop, hmore⟩ := h
    exact ⟨hstart, hr, Int.le_trans hstop hle, ih hmore⟩

/-- Leaving regions out keeps the others in order. -/
theorem Spread.filter {upper : Int} (p : Region → Bool) {rs : List Region} :
    ∀ {lower : Int}, Spread lower upper rs → Spread lower upper (rs.filter p) := by
  induction rs with
  | nil => intro lower _; trivial
  | cons r more ih =>
    intro lower h
    obtain ⟨hstart, hr, hstop, hmore⟩ := h
    by_cases hp : p r = true
    · rw [List.filter_cons_of_pos hp]
      exact ⟨hstart, hr, hstop, ih hmore⟩
    · -- without `r`, what follows it may begin earlier
      rw [List.filter_cons_of_neg hp]
      exact (ih hmore).weaken (Int.le_trans hstart hr)

theorem Spread.append {middle upper : Int} {qs : List Region} (hq : Spread middle upper qs)
    (hle : middle ≤ upper) {rs : List Region} :
    ∀ {lower : Int}, lower ≤ middle → Spread lower middle rs → Spread lower upper (rs ++ qs) := by
  induction rs with
  | nil => intro lower hlow _; exact hq.weaken hlow
  | cons r more ih =>
    intro lower _ h
    obtain ⟨hstart, hr, hstop, hmore⟩ := h
    exact ⟨hstart, hr, Int.le_trans hstop hle, ih hstop hmore⟩

theorem Spread.shift {upper : Int} (delta : Int) {rs : List Region} :
    ∀ {lower : Int}, Spread lower upper rs →
      Spread (lower + delta) (upper + delta) (rs.map fun r => r.shift delta) := by
  induction rs with
  | nil => intro lower _; trivial
  | cons r more ih =>
    intro lower h
    obtain ⟨hstart, hr, hstop, hmore⟩ := h
    exact ⟨Int.add_le_add_right hstart delta, Int.add_le_add_right hr delta,
      Int.add_le_add_right hstop delta, ih hmore⟩

theorem Spread.bounds {r : Region} {upper : Int} {rs : List Region} :
    ∀ {lower : Int}, Spread lower upper rs → r ∈ rs →
      lower ≤ r.start ∧ r.start ≤ r.stop ∧ r.stop ≤ upper := by
  induction rs with
  | nil => intro lower _ hr; cases hr
  | cons q more ih =>
    intro lower h hr
    obtain ⟨hstart, hq, hstop, hmore⟩ := h
    rcases List.mem_cons.mp hr with rfl | hr
    · exact ⟨hstart, hq, hstop⟩
    · obtain ⟨hle, hrest⟩ := ih hmore hr
      exact ⟨by omega, hrest⟩

theorem Spread.pairwise {upper : Int} {rs : List Region} :
    ∀ {lower : Int}, Spread lower upper rs → rs.Pairwise fun q r => q.stop ≤ r.start := by
  induction rs with
  | nil => intro lower _; exact List.Pairwise.nil
  | cons r more ih =>
    intro lower h
    obtain ⟨-, -, -, hmore⟩ := h
    exact List.Pairwise.cons (fun q hq => (hmore.bounds hq).1) (ih hmore)

/-! ## §2. The candidates of a text. -/

namespace Scan

theorem Marker.length_pos (m : Marker) : 0 < m.text.length := Nat.succ_pos _

/-- A live marker and the text after it make up the rest of the text. -/
theorem live?_bounds {m : Marker} {inert : Nat → Bool} {offset found : Nat}
    {s after : List Char} (h : live? m inert offset s = some (found, after)) :
    offset ≤ found ∧ found + m.text.length + after.length = offset + s.length := by
  fun_induction live? m inert offset s with
  | case1 => cases h
  | case2 offset s before rest hc found' hi ih =>
    have hlen := Text.length_of_cut? hc
    obtain ⟨hle, heq⟩ := ih h
    omega
  | case3 offset s before rest hc found' hi =>
    have hlen := Text.length_of_cut? hc
    obtain ⟨rfl, rfl⟩ := Prod.mk.inj (Option.some.inj h)
    omega

/-- **The candidates of a text are spread over it.** -/
theorem spread_candidatesFrom (opening closing : Marker) (inert : Nat → Bool) (offset : Nat)
    (s : List Char) :
    Spread offset (offset + s.length : Nat) (candidatesFrom opening closing inert offset s) := by
  -- by the recursion: after each closing marker the scan goes on with a shorter text
  fun_induction candidatesFrom opening closing inert offset s with
  | case1 => trivial
  | case2 offset s at_ body ho start hc =>
    obtain ⟨hle, heq⟩ := live?_bounds ho
    exact ⟨by simp only; omega, by simp only; omega, by simp only; omega, trivial⟩
  | case3 offset s at_ body ho start stop rest hc ih =>
    obtain ⟨hle, heq⟩ := live?_bounds ho
    obtain ⟨hle', heq'⟩ := live?_bounds hc
    refine ⟨by simp only; omega, by simp only; omega, by simp only; omega, ?_⟩
    -- what follows is spread from the end of the closing marker on
    refine (ih.weaken ?_).raise ?_
    · simp only; omega
    · omega

theorem spread_candidates (opening closing : List Char) (inert : Nat → Bool) (s : List Char) :
    Spread 0 s.length (candidates opening closing inert s) := by
  unfold candidates
  split
  · next o c _ _ =>
    have h := spread_candidatesFrom o c inert 0 s
    rw [Nat.zero_add] at h
    exact h
  · trivial

theorem spread_regions (opening closing : List Char) (inert : Nat → Bool) (s : List Char) :
    Spread 0 s.length (regions opening closing inert s) :=
  (spread_candidates opening closing inert s).filter _

theorem spread_quotedValue (s : List Char) : Spread 0 s.length (quotedValue s) := by
  unfold quotedValue
  split
  · trivial
  · refine Spread.filter _ ⟨by simp only; omega, by simp only; omega, by simp only; omega, trivial⟩

/-! ## §3. Only the offsets of the text matter. -/

theorem live?_congr {m : Marker} {inert inert' : Nat → Bool} {offset : Nat} {s : List Char}
    (h : ∀ k, offset ≤ k → k < offset + s.length → inert k = inert' k) :
    live? m inert offset s = live? m inert' offset s := by
  fun_induction live? m inert offset s with
  | case1 offset s hc => rw [live?, hc]
  | case2 offset s before rest hc found hi ih =>
    have hlen := Text.length_of_cut? hc
    have hm := Marker.length_pos m
    have hi' : inert' found = true := by rw [← h found (by omega) (by omega)]; exact hi
    conv => rhs; rw [live?, hc]
    simp only
    -- both searches go on after the inert marker
    rw [if_pos hi']
    exact ih fun k hk hk' => h k (by omega) (by omega)
  | case3 offset s before rest hc found hi =>
    have hlen := Text.length_of_cut? hc
    have hm := Marker.length_pos m
    have hi' : ¬ inert' found = true := by rw [← h found (by omega) (by omega)]; exact hi
    conv => rhs; rw [live?, hc]
    simp only
    rw [if_neg hi']

/-- Predicates that agree on the offsets of a text give it the same candidates. -/
theorem candidatesFrom_congr {opening closing : Marker} {inert inert' : Nat → Bool}
    {offset : Nat} {s : List Char}
    (h : ∀ k, offset ≤ k → k < offset + s.length → inert k = inert' k) :
    candidatesFrom opening closing inert offset s
      = candidatesFrom opening closing inert' offset s := by
  fun_induction candidatesFrom opening closing inert offset s with
  | case1 offset s ho =>
    rw [live?_congr h] at ho
    rw [candidatesFrom, ho]
  | case2 offset s at_ body ho start hc =>
    obtain ⟨hle, heq⟩ := live?_bounds ho
    rw [live?_congr fun k hk hk' => h k (by omega) (by omega)] at hc
    rw [live?_congr h] at ho
    conv => rhs; rw [candidatesFrom, ho]
    simp only
    rw [hc]
  | case3 offset s at_ body ho start stop rest hc ih =>
    obtain ⟨hle, heq⟩ := live?_bounds ho
    obtain ⟨hle', heq'⟩ := live?_bounds hc
    have hrest := ih fun k hk hk' => h k (by omega) (by omega)
    rw [live?_congr fun k hk hk' => h k (by omega) (by omega)] at hc
    rw [live?_congr h] at ho
    conv => rhs; rw [candidatesFrom, ho]
    simp only
    rw [hc, hrest]

theorem regions_congr {opening closing s : List Char} {inert inert' : Nat → Bool}
    (h : ∀ k < s.length, inert k = inert' k) :
    regions opening closing inert s = regions opening closing inert' s := by
  unfold regions candidates
  congr 1
  split
  · exact candidatesFrom_congr fun k _ hk => h k (by omega)
  · rfl

end Scan

end EmbeddedExpr
