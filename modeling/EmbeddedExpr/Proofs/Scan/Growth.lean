/-
  EmbeddedExpr.Proofs.Scan.Growth
  ───────────────────────────────
  **WHAT IS FOUND IN A TEXT IS FOUND AGAIN WHEN THE TEXT GOES ON.**

  A text that goes on has the occurrences of a marker that it had before, and after them
  `late` ones, which reach past its old end:

      occurrences m offset (s ++ t) = occurrences m offset s ++ late

  So a search that found a live marker finds it again, and a search that found none can only
  find a late one.  Two scans, of a text and of the text gone on, then make the same
  candidates up to the one that has no closing marker yet.
-/
import EmbeddedExpr.Proofs.Scan.Candidates

namespace EmbeddedExpr.Scan

variable {o c m : Marker} {inert : Nat → Bool} {w : List Char}

/-! ## §1. Searches in a text that goes on. -/

/-- A part that stands in the longer text and ends in the shorter one stands in that one. -/
theorem prefix_drop_of_append {p t : List Char} {k : Nat} (hk : k + p.length ≤ w.length)
    (h : p <+: (w ++ t).drop k) : p <+: w.drop k := by
  rw [List.drop_append_of_le_length (by omega)] at h
  apply List.prefix_of_prefix_length_le h (List.prefix_append _ t)
  rw [List.length_drop]
  omega

/-- The occurrences of a text that goes on are those it had, and some that reach past its old
end. -/
theorem occurrences_append (m : Marker) {offset : Nat} {s : List Char} (hs : s = w.drop offset)
    (hle : offset ≤ w.length) (t : List Char) :
    ∃ late, occurrences m offset (s ++ t) = occurrences m offset s ++ late
      ∧ ∀ k ∈ late, w.length < k + m.text.length := by
  fun_induction occurrences m offset s with
  | case1 offset s hc =>
    refine ⟨occurrences m offset (s ++ t), rfl, ?_⟩
    intro k hk
    have hst : s ++ t = (w ++ t).drop offset := by
      rw [List.drop_append_of_le_length hle, hs]
    have hoffset := le_of_mem_occurrences hk
    have hm := prefix_of_mem_occurrences hst hk
    -- an occurrence that ends in `w` would be one of `s`
    by_contra hin
    have hw := prefix_drop_of_append (Nat.not_lt.mp hin) hm
    rw [← Nat.add_sub_cancel' hoffset, ← List.drop_drop, ← hs] at hw
    exact Text.cut?_eq_none_iff.mp hc (hw.isInfix.trans (List.drop_suffix _ _).isInfix)
  | case2 offset s before after hc ih =>
    have hlen := Text.length_of_cut? hc
    have hslen := congrArg List.length hs
    rw [List.length_drop] at hslen
    obtain ⟨late, hlate, hpast⟩ := ih (Text.drop_of_cut? hs hc).2 (by omega)
    refine ⟨late, ?_, hpast⟩
    rw [occurrences, Text.cut?_append_of_some hc]
    simp only
    rw [hlate, List.cons_append]

theorem firstCounted?_append (m : Marker) (inert : Nat → Bool) {n : Nat} (hn : n ≤ w.length)
    (t : List Char) :
    ∃ late : List Nat, firstCounted? m inert (w ++ t) n
        = (firstCounted? m inert w n).or (late.find? fun k => !inert k)
      ∧ ∀ k ∈ late, w.length < k + m.text.length := by
  obtain ⟨late, hlate, hpast⟩ := occurrences_append m rfl hn t
  refine ⟨late, ?_, hpast⟩
  unfold firstCounted?
  rw [List.drop_append_of_le_length hn, hlate, List.find?_append]

/-- **A live marker that is found is found again when the text goes on.** -/
theorem firstCounted?_append_of_some {n found : Nat} (hn : n ≤ w.length) (t : List Char)
    (h : firstCounted? m inert w n = some found) :
    firstCounted? m inert (w ++ t) n = some found := by
  obtain ⟨late, heq, -⟩ := firstCounted?_append m inert hn t
  rw [heq, h]
  rfl

/-- Where no live marker was found, one that is found later reaches past the old end. -/
theorem lt_of_firstCounted?_append {n found : Nat} (hn : n ≤ w.length) {t : List Char}
    (h : firstCounted? m inert w n = none)
    (hfound : firstCounted? m inert (w ++ t) n = some found) :
    w.length < found + m.text.length := by
  obtain ⟨late, heq, hpast⟩ := firstCounted?_append m inert hn t
  rw [heq, h, Option.none_or] at hfound
  exact hpast found (List.mem_of_find?_eq_some hfound)

/-! ## §2. Two scans side by side. -/

/-- A live closing marker stands right after the region. -/
def Terminated (c : Marker) (inert : Nat → Bool) (w : List Char) (r : Region) : Prop :=
  ∃ b : Nat, r.stop = b ∧ Live c inert w b

theorem Terminated.stop_lt {r : Region} (h : Terminated c inert w r) : r.stop < w.length := by
  obtain ⟨b, hb, hlive⟩ := h
  have := hlive.lt_length
  omega

/-- The candidates `qs` of a text that went on, against the candidates `rs` that it had. -/
inductive Grown (c : Marker) (inert : Nat → Bool) (w : List Char) :
    List Region → List Region → Prop where
  /-- All that there were are kept. -/
  | done (qs : List Region) : Grown c inert w [] qs
  /-- The last one had no closing marker, and ends at a late one or further on. -/
  | unclosed {r q : Region} (more : List Region) (hstop : r.stop = w.length)
      (hstart : q.start = r.start) (hlate : w.length < q.stop + c.text.length) :
      Grown c inert w [r] (q :: more)
  /-- One with a closing marker is kept as it was. -/
  | closed {r : Region} {rs qs : List Region} (hr : Terminated c inert w r)
      (h : Grown c inert w rs qs) : Grown c inert w (r :: rs) (r :: qs)

/-- **A scan of a text that goes on keeps what has a closing marker**, and begins the last
candidate where it began before. -/
theorem Scanned.grown {n : Nat} {rs : List Region} (h : Scanned o c inert w n rs)
    (t : List Char) : n ≤ w.length →
      ∀ {qs : List Region}, Scanned o c inert (w ++ t) n qs → Grown c inert w rs qs := by
  induction h with
  | done ho =>
    intro _ qs _
    exact .done qs
  | @unclosed n a ho hc =>
    intro hn qs hq
    have ho' := firstCounted?_append_of_some hn t ho
    have hbody := (live_of_firstCounted? ho).2.add_length_le
    -- the longer text has the same opening marker, and its own end or a late closing one
    cases hq with
    | done hnone => rw [ho'] at hnone; cases hnone
    | unclosed hopen hclose =>
      obtain rfl := Option.some.inj (ho'.symm.trans hopen)
      refine .unclosed [] rfl rfl ?_
      have := Marker.length_pos c
      simp only [List.length_append]
      omega
    | closed hopen hclose more =>
      obtain rfl := Option.some.inj (ho'.symm.trans hopen)
      refine .unclosed _ rfl rfl ?_
      have := lt_of_firstCounted?_append hbody hc hclose
      simp only
      omega
  | @closed n a b more ho hc h ih =>
    intro hn qs hq
    have hbody := (live_of_firstCounted? ho).2.add_length_le
    have hlive := (live_of_firstCounted? hc).2
    have ho' := firstCounted?_append_of_some hn t ho
    have hc' := firstCounted?_append_of_some hbody t hc
    -- both markers are found again, so the scans go on from the same offset
    cases hq with
    | done hnone => rw [ho'] at hnone; cases hnone
    | unclosed hopen hclose =>
      obtain rfl := Option.some.inj (ho'.symm.trans hopen)
      rw [hc'] at hclose
      cases hclose
    | closed hopen hclose hmore =>
      obtain rfl := Option.some.inj (ho'.symm.trans hopen)
      obtain rfl := Option.some.inj (hc'.symm.trans hclose)
      exact .closed ⟨b, rfl, hlive⟩ (ih hlive.add_length_le hmore)

/-! ## §3. Candidates by their index. -/

theorem Grown.getElem? {rs qs : List Region} (h : Grown c inert w rs qs) :
    ∀ {i : Nat} {r : Region}, rs[i]? = some r →
      (Terminated c inert w r ∧ qs[i]? = some r)
        ∨ (r.stop = w.length ∧ i + 1 = rs.length
          ∧ ∃ q, qs[i]? = some q ∧ q.start = r.start ∧ w.length < q.stop + c.text.length) := by
  induction h with
  | done qs =>
    intro i r hr
    cases hr
  | @unclosed r q more hstop hstart hlate =>
    intro i r' hr
    cases i with
    | zero =>
      obtain rfl := Option.some.inj hr
      exact Or.inr ⟨hstop, rfl, q, rfl, hstart, hlate⟩
    | succ i => cases hr
  | @closed r rs qs hterm h ih =>
    intro i r' hr
    cases i with
    | zero =>
      obtain rfl := Option.some.inj hr
      exact Or.inl ⟨hterm, rfl⟩
    | succ i =>
      refine (ih hr).imp_right ?_
      intro hlast
      obtain ⟨hstop, hi, hq⟩ := hlast
      exact ⟨hstop, congrArg (· + 1) hi, hq⟩

/-- **What a scan has found is found again when the text goes on.**  A candidate with a closing
marker stays as it is, at its index.  One without it is the last and goes on to the end of the
text; the candidate at its index begins where it began, and ends where no closing marker of
the shorter text could stand. -/
theorem candidates_append (o c : Marker) (inert : Nat → Bool) (w t : List Char) {i : Nat}
    {r : Region} (hr : (candidates o.text c.text inert w)[i]? = some r) :
    (Terminated c inert w r → (candidates o.text c.text inert (w ++ t))[i]? = some r)
    ∧ (¬ Terminated c inert w r →
        r.stop = w.length ∧ i + 1 = (candidates o.text c.text inert w).length
        ∧ ∃ q, (candidates o.text c.text inert (w ++ t))[i]? = some q ∧ q.start = r.start
          ∧ (w.length : Int) - c.text.length < q.stop) := by
  have hgrown := (scanned_candidates o c inert w).grown t (Nat.zero_le _)
    (scanned_candidates o c inert (w ++ t))
  rcases hgrown.getElem? hr with ⟨hterm, hkept⟩ | ⟨hstop, hlast, q, hq, hstart, hlate⟩
  · exact ⟨fun _ => hkept, fun hopen => absurd hterm hopen⟩
  · refine ⟨fun hterm => ?_, fun _ => ⟨hstop, hlast, q, hq, hstart, by omega⟩⟩
    -- a region with a closing marker ends before the text does
    have := hterm.stop_lt
    omega

/-- The closing marker stands across the border of the two texts. -/
theorem candidates_append_straddling :
    (candidates "\x7b\x7b".toList "\x7d\x7d".toList (fun _ => false)
        "\x7b\x7ba\x7d\x7d \x7b\x7bb\x7d".toList)[1]? = some ⟨8, 10⟩
    ∧ ¬ Terminated ⟨'\x7d', ['\x7d']⟩ (fun _ => false)
        "\x7b\x7ba\x7d\x7d \x7b\x7bb\x7d".toList ⟨8, 10⟩
    ∧ ∃ q, (candidates "\x7b\x7b".toList "\x7d\x7d".toList (fun _ => false)
          ("\x7b\x7ba\x7d\x7d \x7b\x7bb\x7d".toList ++ "\x7d".toList))[1]? = some q
        ∧ q.start = 8 ∧ (10 : Int) - 2 < q.stop := by
  have hr : (candidates "\x7b\x7b".toList "\x7d\x7d".toList (fun _ => false)
      "\x7b\x7ba\x7d\x7d \x7b\x7bb\x7d".toList)[1]? = some ⟨8, 10⟩ := by decide +kernel
  have hopen : ¬ Terminated ⟨'\x7d', ['\x7d']⟩ (fun _ => false)
      "\x7b\x7ba\x7d\x7d \x7b\x7bb\x7d".toList ⟨8, 10⟩ :=
    fun h => absurd h.stop_lt (by decide)
  exact ⟨hr, hopen, ((candidates_append ⟨'\x7b', ['\x7b']⟩ ⟨'\x7d', ['\x7d']⟩ _ _
    "\x7d".toList hr).2 hopen).2.2⟩

end EmbeddedExpr.Scan
