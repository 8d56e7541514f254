/-
  EmbeddedExpr.Proofs.Scan.Candidates
  ───────────────────────────────────
  **WHAT A SCAN FINDS, AND WHAT IT LOSES.**

  `Scanned o c inert w n rs` tells the candidates from the offset `n` on by the searches that
  the scan is made of, one case for each way in which it goes on.  From it follow three laws
  of the candidates of a text, whatever its markers and its inert offsets are:

    • each stands between live markers, and the markers do not overlap (`sound_candidates`);
    • a live opening marker belongs to a candidate, unless it begins inside of an inert one
      (`exists_spans_of_live`);
    • a candidate ends at the first live closing marker exactly when that marker is counted
      from the candidate's start on (`stops_candidates`).

  `overrun_candidate` has a closing marker that is not counted: a candidate holds it.
-/
import EmbeddedExpr.Proofs.Scan.Occurrences
import Mathlib.Data.List.Chain

namespace EmbeddedExpr.Scan

variable {o c : Marker} {inert : Nat → Bool} {w : List Char}

/-! ## §1. A scan by its searches. -/

/-- The candidates of the text `w` from an offset on. -/
inductive Scanned (o c : Marker) (inert : Nat → Bool) (w : List Char) :
    Nat → List Region → Prop where
  /-- No opening marker is found. -/
  | done {n : Nat} (ho : firstCounted? o inert w n = none) : Scanned o c inert w n []
  /-- An opening marker is found at `a`, and no closing one after it. -/
  | unclosed {n a : Nat} (ho : firstCounted? o inert w n = some a)
      (hc : firstCounted? c inert w (a + o.text.length) = none) :
      Scanned o c inert w n [⟨(a + o.text.length : Nat), w.length⟩]
  /-- Markers are found at `a` and `b`, and the scan goes on after them. -/
  | closed {n a b : Nat} {more : List Region} (ho : firstCounted? o inert w n = some a)
      (hc : firstCounted? c inert w (a + o.text.length) = some b)
      (h : Scanned o c inert w (b + c.text.length) more) :
      Scanned o c inert w n (⟨(a + o.text.length : Nat), b⟩ :: more)

theorem scanned_candidatesFrom {n : Nat} {s : List Char} (hs : s = w.drop n) :
    Scanned o c inert w n (candidatesFrom o c inert n s) := by
  fun_induction candidatesFrom o c inert n s with
  | case1 n s hnone =>
    exact .done (by rw [firstCounted?_eq hs, hnone]; rfl)
  | case2 n s a body hopen start hnone =>
    obtain ⟨hlive, hmark, hbody⟩ := live?_eq_drop hs hopen
    have hstart : start ≤ w.length := Live.add_length_le ⟨hlive, hmark⟩
    have hend : start + body.length = w.length := by
      rw [hbody, List.length_drop]
      exact Nat.add_sub_cancel' hstart
    rw [hend]
    exact .unclosed (by rw [firstCounted?_eq hs, hopen]; rfl)
      (by rw [firstCounted?_eq hbody, hnone]; rfl)
  | case3 n s a body hopen start b rest hclose ih =>
    obtain ⟨-, -, hbody⟩ := live?_eq_drop hs hopen
    obtain ⟨-, -, hrest⟩ := live?_eq_drop hbody hclose
    exact .closed (by rw [firstCounted?_eq hs, hopen]; rfl)
      (by rw [firstCounted?_eq hbody, hclose]; rfl) (ih hrest)

/-- **The candidates of a text are those of a scan from its beginning.** -/
theorem scanned_candidates (o c : Marker) (inert : Nat → Bool) (w : List Char) :
    Scanned o c inert w 0 (candidates o.text c.text inert w) := by
  show Scanned o c inert w 0 (candidatesFrom o c inert 0 w)
  exact scanned_candidatesFrom rfl

/-! ## §2. Candidates stand between live markers. -/

/-- The opening marker of the first candidate stands at the offset or after it. -/
theorem Scanned.head_start {n : Nat} {rs : List Region} (h : Scanned o c inert w n rs) :
    ∀ r ∈ rs.head?, ((n + o.text.length : Nat) : Int) ≤ r.start := by
  have hopen : ∀ {a : Nat}, firstCounted? o inert w n = some a →
      ((n + o.text.length : Nat) : Int) ≤ ((a + o.text.length : Nat) : Int) := by
    intro a ho
    exact Int.ofNat_le.mpr (Nat.add_le_add_right (live_of_firstCounted? ho).1 _)
  cases h with
  | done ho => simp
  | unclosed ho hc => rintro r ⟨⟩; exact hopen ho
  | closed ho hc h => rintro r ⟨⟩; exact hopen ho

/-- What the candidates of a text are. -/
structure Sound (o c : Marker) (inert : Nat → Bool) (w : List Char) (rs : List Region) : Prop where
  bounds : ∀ r ∈ rs, 0 ≤ r.start ∧ r.start ≤ r.stop ∧ r.stop ≤ w.length
  /-- Right before a candidate stands a live opening marker. -/
  opened : ∀ r ∈ rs, ∃ a : Nat, r.start = (a + o.text.length : Nat) ∧ Live o inert w a
  /-- Right after a candidate stands a live closing marker, or it is the last one and ends
  with the text. -/
  closed : ∀ (before : List Region) (r : Region) (after : List Region), rs = before ++ r :: after →
    (∃ b : Nat, r.stop = b ∧ Live c inert w b) ∨ (after = [] ∧ r.stop = w.length)
  /-- The markers of a candidate do not overlap those of the next one. -/
  apart : rs.IsChain fun (r q : Region) =>
    r.stop + c.text.length ≤ q.start - o.text.length

theorem Scanned.closed_or_last {n : Nat} {rs : List Region} (h : Scanned o c inert w n rs) :
    ∀ (before : List Region) (r : Region) (after : List Region), rs = before ++ r :: after →
      (∃ b : Nat, r.stop = b ∧ Live c inert w b) ∨ (after = [] ∧ r.stop = w.length) := by
  induction h with
  | done ho =>
    intro before r after hsplit
    exact absurd hsplit.symm (List.append_ne_nil_of_right_ne_nil _ (List.cons_ne_nil _ _))
  | unclosed ho hc =>
    intro before r after hsplit
    cases before with
    | nil =>
      obtain ⟨rfl, rfl⟩ := List.cons.inj hsplit
      exact Or.inr ⟨rfl, rfl⟩
    | cons q before =>
      have hnil := (List.cons.inj hsplit).2.symm
      exact absurd hnil (List.append_ne_nil_of_right_ne_nil _ (List.cons_ne_nil _ _))
  | closed ho hc h ih =>
    intro before r after hsplit
    cases before with
    | nil =>
      obtain ⟨rfl, -⟩ := List.cons.inj hsplit
      exact Or.inl ⟨_, rfl, (live_of_firstCounted? hc).2⟩
    | cons q before => exact ih before r after (List.cons.inj hsplit).2

theorem Scanned.apart {n : Nat} {rs : List Region} (h : Scanned o c inert w n rs) :
    rs.IsChain fun (r q : Region) =>
    r.stop + c.text.length ≤ q.start - o.text.length := by
  induction h with
  | done ho => exact List.IsChain.nil
  | unclosed ho hc => exact List.IsChain.singleton _
  | @closed n a b more ho hc h ih =>
    refine List.isChain_cons.mpr ⟨fun q hq => ?_, ih⟩
    have hstart := h.head_start q hq
    show (b : Int) + c.text.length ≤ q.start - o.text.length
    omega

/-- **Candidates stand between live markers**, in order and with their markers apart. -/
theorem sound_candidates (o c : Marker) (inert : Nat → Bool) (w : List Char) :
    Sound o c inert w (candidates o.text c.text inert w) := by
  have hscan := scanned_candidates o c inert w
  refine ⟨fun r hr => ?_, fun r hr => ?_, hscan.closed_or_last, hscan.apart⟩
  · exact (spread_candidates o.text c.text inert w).bounds hr
  · exact (delimited_of_mem_candidatesFrom rfl (Nat.zero_le _) hr).opened

/-! ## §3. Live opening markers. -/

/-- The offset belongs to the candidate or to one of its markers, as far as the text goes. -/
def Spans (o c : Marker) (w : List Char) (r : Region) (p : Nat) : Prop :=
  r.start - o.text.length ≤ p ∧ (p : Int) < min (r.stop + c.text.length) w.length

theorem Scanned.exists_spans {n : Nat} {rs : List Region} (h : Scanned o c inert w n rs)
    {p : Nat} (hp : Live o inert w p) :
    n ≤ p → (∃ r ∈ rs, Spans o c w r p) ∨ ∃ q, Hidden o inert w q p := by
  have hlt := hp.lt_length
  induction h with
  | done ho =>
    intro hle
    exact Or.inr ⟨_, hidden_of_live hle hp (by simp [ho])⟩
  | @unclosed n a ho hc =>
    intro hle
    by_cases hpa : p < a
    · exact Or.inr ⟨n, hidden_of_live hle hp (by rw [ho]; rintro _ ⟨⟩; exact hpa)⟩
    · -- from the opening marker on, all of the text belongs to the candidate
      refine Or.inl ⟨_, List.mem_singleton_self _, ?_, ?_⟩
      · simp only
        omega
      · simp only
        omega
  | @closed n a b more ho hc h ih =>
    intro hle
    by_cases hpa : p < a
    · exact Or.inr ⟨n, hidden_of_live hle hp (by rw [ho]; rintro _ ⟨⟩; exact hpa)⟩
    · by_cases hpb : p < b + c.text.length
      · refine Or.inl ⟨_, List.mem_cons_self, ?_, ?_⟩
        · simp only
          omega
        · simp only
          omega
      · -- past the closing marker the scan goes on
        refine (ih (by omega)).imp_left ?_
        rintro ⟨r, hr, hspans⟩
        exact ⟨r, List.mem_cons_of_mem _ hr, hspans⟩

/-- **No live opening marker is lost, except one that begins inside of an inert one.** -/
theorem exists_spans_of_live {p : Nat} (hp : Live o inert w p) :
    (∃ r ∈ candidates o.text c.text inert w, Spans o c w r p)
      ∨ ∃ q, q < p ∧ p < q + o.text.length ∧ inert q = true ∧ o.text <+: w.drop q := by
  refine ((scanned_candidates o c inert w).exists_spans hp (Nat.zero_le p)).imp_right ?_
  rintro ⟨n, q, -, hqp, hpq, hi, hm⟩
  exact ⟨q, hqp, hpq, hi, hm⟩

/-- An opening marker after an inert one that has no closing marker of its own. -/
theorem exists_spans_of_live_afterInert :
    Live ⟨'\x7b', ['\x7b']⟩ (fun k => k < 12) "<!-- \x7b\x7b --> \x7b\x7bb\x7d\x7d".toList 12
    ∧ ((∃ r ∈ candidates "\x7b\x7b".toList "\x7d\x7d".toList (fun k => k < 12)
          "<!-- \x7b\x7b --> \x7b\x7bb\x7d\x7d".toList,
          Spans ⟨'\x7b', ['\x7b']⟩ ⟨'\x7d', ['\x7d']⟩
            "<!-- \x7b\x7b --> \x7b\x7bb\x7d\x7d".toList r 12)
      ∨ ∃ q, q < 12 ∧ 12 < q + 2 ∧ decide (q < 12) = true
        ∧ "\x7b\x7b".toList <+: "<!-- \x7b\x7b --> \x7b\x7bb\x7d\x7d".toList.drop q) := by
  have hlive : Live ⟨'\x7b', ['\x7b']⟩ (fun k => k < 12)
      "<!-- \x7b\x7b --> \x7b\x7bb\x7d\x7d".toList 12 := ⟨rfl, by decide⟩
  exact ⟨hlive, exists_spans_of_live (o := ⟨'\x7b', ['\x7b']⟩) (c := ⟨'\x7d', ['\x7d']⟩) hlive⟩

/-! ## §4. Where candidates end. -/

/-- How a search for a marker from `start` on stops at `stop`. -/
structure Stops (m : Marker) (inert : Nat → Bool) (w : List Char) (start stop : Nat) :
    Prop where
  here : Live m inert w stop ∨ stop = w.length
  le : start ≤ stop
  /-- A live marker that is passed over begins inside of an inert one. -/
  passed : ∀ k, start ≤ k → k < stop → Live m inert w k → Hidden m inert w start k
  /-- The first live marker is where the search stops exactly when it is counted. -/
  first_iff : IsFirstLive m inert w start stop ↔ ∀ k, Live m inert w k →
    IsFirstLive m inert w start k → k ∈ occurrences m start (w.drop start)

theorem stops_searchStop (m : Marker) (inert : Nat → Bool) {start : Nat}
    (hle : start ≤ w.length) : Stops m inert w start (searchStop m inert w start) := by
  obtain ⟨hhere, hge⟩ := searchStop_here m inert hle
  refine ⟨hhere, hge, fun k hk hlt hlive => ?_, isFirstLive_iff hle⟩
  exact hidden_of_live hk hlive (lt_of_lt_searchStop hlt)

/-- A candidate ends where the search for a closing marker from its start on stops. -/
theorem Scanned.eq_searchStop {n : Nat} {rs : List Region} (h : Scanned o c inert w n rs) :
    ∀ r ∈ rs, ∃ start : Nat, start ≤ w.length ∧ r = ⟨start, searchStop c inert w start⟩ := by
  induction h with
  | done ho => simp
  | unclosed ho hc =>
    intro r hr
    obtain rfl := List.mem_singleton.mp hr
    exact ⟨_, (live_of_firstCounted? ho).2.add_length_le, by rw [searchStop, hc]; rfl⟩
  | closed ho hc h ih =>
    intro r hr
    rcases List.mem_cons.mp hr with rfl | hr
    · exact ⟨_, (live_of_firstCounted? ho).2.add_length_le, by rw [searchStop, hc]; rfl⟩
    · exact ih r hr

/-- **Where searches stop and candidates end.**  A live closing marker that is passed over
begins inside of an inert one; the first live one is the end exactly when it is counted from
the start on. -/
theorem stops_candidates (o c : Marker) (inert : Nat → Bool) (w : List Char) :
    (∀ start ≤ w.length, Stops c inert w start
      (((live? c inert start (w.drop start)).map Prod.fst).getD w.length))
    ∧ ∀ r ∈ candidates o.text c.text inert w, ∃ start stop : Nat,
      r = ⟨start, stop⟩ ∧ Stops c inert w start stop := by
  constructor
  · intro start hle
    rw [← firstCounted?_eq rfl]
    exact stops_searchStop c inert hle
  · intro r hr
    obtain ⟨start, hle, rfl⟩ := (scanned_candidates o c inert w).eq_searchStop r hr
    exact ⟨start, _, rfl, stops_searchStop c inert hle⟩

/-- The closing marker at 3 is inert, and the one at 4 begins inside of it. -/
theorem overrun_candidate :
    ¬ ∀ (o c : Marker) (inert : Nat → Bool) (w : List Char),
      ∀ r ∈ candidates o.text c.text inert w, ∀ k : Nat,
        r.start ≤ k → (k : Int) < r.stop → ¬ Live c inert w k := by
  intro h
  have hr : (⟨2, 7⟩ : Region) ∈ candidates "\x7b\x7b".toList "\x7d\x7d".toList (fun k => k = 3)
      "\x7b\x7ba\x7d\x7d\x7db".toList := by decide +kernel
  exact h ⟨'\x7b', ['\x7b']⟩ ⟨'\x7d', ['\x7d']⟩ _ _ _ hr 4 (by decide) (by decide)
    ⟨rfl, by decide⟩

end EmbeddedExpr.Scan
