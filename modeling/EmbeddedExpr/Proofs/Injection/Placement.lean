/-
  EmbeddedExpr.Proofs.Injection.Placement
  ───────────────────────────────────────
  **WHERE THE EXPRESSIONS OF A DOCUMENT STAND.**

  The expressions found in a document are non-empty, stand in order inside of it and do not
  overlap.  Each is inside exactly one host, and so holds no character of a tag's own marks,
  of raw text, or of a section, declaration or instruction:

      Placed s (p.injections tree j s file).1

  The regions of a host are spread over its text.  Hosts stand in order, so the regions of
  the document are spread over the document.
-/
import EmbeddedExpr.Project.Expressions
import EmbeddedExpr.Proofs.Markup.Host
import EmbeddedExpr.Proofs.Scan.Order

namespace EmbeddedExpr

open Markup

/-! ## §1. The regions of one host. -/

namespace Injector

theorem spread_wholeRegions (h : Host) : Spread 0 h.text.length (wholeRegions h) := by
  unfold wholeRegions
  split
  · exact ⟨Int.le_refl 0, Int.natCast_nonneg _, Int.le_refl _, trivial⟩
  · split
    · next hne =>
      -- a text whose ends differ has a character
      have hpos : 0 < h.text.length := by
        cases hl : h.text with
        | nil => rw [hl] at hne; exact absurd rfl hne
        | cons c more => exact Nat.succ_pos _
      exact ⟨Int.one_nonneg, by simp only; omega, Int.le_refl _, trivial⟩
    · exact Scan.spread_quotedValue h.text

/-- **The regions of a host are spread over its text.** -/
theorem spread_hostRegions (j : Injector) (scans : Bool) (ts : Array Token) (h : Host) :
    Spread 0 h.text.length (j.regions scans ts h) := by
  refine Spread.filter _ ?_
  by_cases hw : j.isWhole h = true
  · rw [if_pos hw]
    exact spread_wholeRegions h
  · rw [if_neg hw]
    cases scans with
    | false => trivial
    | true => exact Scan.spread_regions _ _ _ h.text

theorem start_lt_stop_of_mem_regions {j : Injector} {scans : Bool} {ts : Array Token} {h : Host}
    {r : Region} (hr : r ∈ j.regions scans ts h) : r.start < r.stop := by
  have hne := (List.mem_filter.mp hr).2
  simp only [Region.isEmpty, Bool.not_eq_true', decide_eq_false_iff_not] at hne
  omega

end Injector

/-! ## §2. The regions of a document. -/

/-- Regions spread over hosts in order are spread over the document. -/
theorem spread_flatMap {f : Host → List Region} {upper : Nat} {gs : List Host} :
    ∀ {lower : Nat}, lower ≤ upper → (gs.Pairwise fun g h => g.stop ≤ h.start) →
      (∀ g ∈ gs, lower ≤ g.start ∧ g.stop ≤ upper ∧ Spread 0 g.text.length (f g)) →
      Spread lower upper (gs.flatMap fun g => (f g).map fun r => r.shift g.start) := by
  induction gs with
  | nil => intro lower _ _ _; trivial
  | cons g more ih =>
    intro lower hle hp hg
    obtain ⟨hfirst, hmore⟩ := List.pairwise_cons.mp hp
    obtain ⟨hlow, hup, hspread⟩ := hg g List.mem_cons_self
    -- the hosts that follow begin where `g` ends or later
    have hrest : Spread g.stop upper (more.flatMap fun g => (f g).map fun r => r.shift g.start) :=
      ih hup hmore fun h hh => ⟨hfirst h hh, (hg h (List.mem_cons_of_mem _ hh)).2⟩
    have hhere : Spread g.start g.stop ((f g).map fun r => r.shift g.start) := by
      have h := hspread.shift g.start
      rw [Int.zero_add] at h
      refine h.raise ?_
      show (g.text.length : Int) + g.start ≤ (g.start + g.text.length : Nat)
      omega
    rw [List.flatMap_cons]
    refine (hrest.append (Int.ofNat_le.mpr hup) ?_ hhere).weaken (Int.ofNat_le.mpr hlow)
    exact Int.ofNat_le.mpr (Nat.le_add_right _ _)

theorem Injector.map_absolute_injections (j : Injector) (s : List Char) (file : Option String) :
    (j.injections s file).map Injection.absolute
      = (hosts (tokens s)).flatMap fun h =>
          (j.regions (!j.delimiters.conflictsIn file) (tokens s).toArray h).map
            fun r => r.shift h.start := by
  simp only [Injector.injections, List.map_flatMap, List.map_map]
  rfl

theorem Injector.mem_injections {j : Injector} {s : List Char} {file : Option String}
    {i : Injection} (hi : i ∈ j.injections s file) :
    i.host ∈ hosts (tokens s)
      ∧ i.region ∈ j.regions (!j.delimiters.conflictsIn file) (tokens s).toArray i.host := by
  obtain ⟨h, hh, hi⟩ := List.mem_flatMap.mp hi
  obtain ⟨r, hr, rfl⟩ := List.mem_map.mp hi
  exact ⟨hh, hr⟩

/-- **The regions of a document are spread over it.** -/
theorem Injector.spread_injections (j : Injector) (s : List Char) (file : Option String) :
    Spread 0 s.length ((j.injections s file).map Injection.absolute) := by
  rw [j.map_absolute_injections]
  show Spread (0 : Nat) s.length _
  refine spread_flatMap (Nat.zero_le _) (hosts_pairwise (aligned_tokens s) (exact_tokens s)) ?_
  intro g hg
  exact ⟨Nat.zero_le _, (text_eq_of_mem_hosts hg).2, j.spread_hostRegions _ _ g⟩

/-! ## §3. The characters of a region. -/

/-- **An expression is what the document holds at its place.** -/
theorem Injector.substring_absolute {j : Injector} {s : List Char} {file : Option String}
    {i : Injection} (hi : i ∈ j.injections s file) : i.absolute.substring s = i.text := by
  obtain ⟨hh, hr⟩ := mem_injections hi
  obtain ⟨htext, hstop⟩ := text_eq_of_mem_hosts hh
  obtain ⟨hlow, hle, hup⟩ := (j.spread_hostRegions _ _ i.host).bounds hr
  -- the bounds are natural numbers, so no index counts from the end
  obtain ⟨a, ha⟩ := Int.eq_ofNat_of_zero_le hlow
  obtain ⟨b, hb⟩ := Int.eq_ofNat_of_zero_le (Int.le_trans hlow hle)
  have hab : a ≤ b := by omega
  have hbl : b ≤ i.host.text.length := by omega
  have hbound : i.host.start + b ≤ i.host.stop := Nat.add_le_add_left hbl _
  unfold Injection.absolute Injection.text Region.substring Region.shift
  rw [ha, hb]
  show Text.slice s ((a + i.host.start : Nat) : Int) ((b + i.host.start : Nat) : Int) = _
  rw [Text.slice_natCast (by omega) (by omega), Text.slice_natCast hab hbl, htext]
  exact (Text.slice_slice hbound).symm

/-! ## §4. The host of an expression. -/

/-- The region lies inside of the host. -/
def Within (r : Region) (g : Host) : Prop := (g.start : Int) ≤ r.start ∧ r.stop ≤ (g.stop : Int)

/-- Adjacent tokens leave no offset out. -/
theorem covered_of_adjacent {run : List Token} {stop k : Nat} (hk : k < stop) :
    ∀ {start : Nat}, (run.IsChain fun t u => t.stop = u.start) →
      run.head?.map Token.start = some start → run.getLast?.map Token.stop = some stop →
      start ≤ k → ∃ t ∈ run, t.Covers k := by
  induction run with
  | nil => intro start _ hf _ _; cases hf
  | cons t more ih =>
    intro start hc hf hl hle
    obtain rfl : t.start = start := Option.some.inj hf
    by_cases hlt : k < t.stop
    · exact ⟨t, List.mem_cons_self, hle, hlt⟩
    · -- the offset lies past `t`, where the next token begins
      cases more with
      | nil =>
        obtain rfl : t.stop = stop := Option.some.inj hl
        exact absurd hk hlt
      | cons u more =>
        have hadj : t.stop = u.start := (List.isChain_cons_cons.mp hc).1
        rw [List.getLast?_cons_cons] at hl
        obtain ⟨v, hv, hcov⟩ := ih hc.tail rfl hl (by omega)
        exact ⟨v, List.mem_cons_of_mem _ hv, hcov⟩

/-- Each offset of a host belongs to one of the tokens that the host comes from. -/
theorem Markup.Host.From.covered {ts : List Token} {g : Host} (he : Exact ts) (h : g.From ts)
    {k : Nat} (hk : g.start ≤ k) (hk' : k < g.stop) :
    ∃ t ∈ ts, t.Covers k ∧ (t.isData = true ∨ t.kind = .attrValue) := by
  cases h with
  | run run hrun hkind htext =>
    obtain ⟨t, ht, hcov⟩ := covered_of_adjacent hk' hrun.adjacent hrun.first hrun.last hk
    obtain ⟨before, after, rfl, -, -⟩ := hrun.maximal
    exact ⟨t, List.mem_append_left _ (List.mem_append_right _ ht), hcov, Or.inl (hrun.data t ht)⟩
  | value t ht hg =>
    obtain ⟨hkind, hstart, -⟩ := Token.eq_of_host? hg
    have hstop := Token.stop_of_host? (he t ht) hg
    exact ⟨t, ht, ⟨by omega, by omega⟩, Or.inr hkind⟩

/-- Where expressions of a document may stand. -/
structure Placed (s : List Char) (found : List Injection) : Prop where
  nonempty : ∀ i ∈ found, i.absolute.start < i.absolute.stop
  inside : ∀ i ∈ found, 0 ≤ i.absolute.start ∧ i.absolute.stop ≤ s.length
  ordered : found.Pairwise fun i k =>
    i.absolute.start < k.absolute.start ∧ i.absolute.stop ≤ k.absolute.start
  text_eq : ∀ i ∈ found, i.absolute.substring s = i.text
  /-- The host is a longest run of data or one attribute value. -/
  host_from : ∀ i ∈ found, i.host.From (tokens s) ∧ Within i.absolute i.host
  /-- No other host holds the expression. -/
  host_unique : ∀ i ∈ found, ∀ g : Host, g.From (tokens s) → Within i.absolute g → g = i.host
  /-- No offset of the expression belongs to a token of another kind. -/
  apart : ∀ i ∈ found, ∀ t ∈ tokens s, t.kind ≠ .text → t.kind ≠ .comment →
    t.kind ≠ .attrValue → ∀ k : Nat, t.Covers k →
      ¬ (i.absolute.start ≤ (k : Int) ∧ (k : Int) < i.absolute.stop)

theorem Injector.placed_injections (j : Injector) (s : List Char) (file : Option String) :
    Placed s (j.injections s file) := by
  have hspread := j.spread_injections s file
  have hiff := fun g => mem_hosts_iff (g := g) (aligned_tokens s) (exact_tokens s)
  have hbounds : ∀ i ∈ j.injections s file, 0 ≤ i.absolute.start
      ∧ i.absolute.start < i.absolute.stop ∧ i.absolute.stop ≤ s.length := by
    intro i hi
    obtain ⟨hlow, -, hup⟩ := hspread.bounds (List.mem_map_of_mem hi)
    have hlt := start_lt_stop_of_mem_regions (mem_injections hi).2
    exact ⟨hlow, Int.add_lt_add_right hlt _, hup⟩
  have hwithin : ∀ i ∈ j.injections s file, Within i.absolute i.host := by
    intro i hi
    obtain ⟨hlow, -, hup⟩ := (j.spread_hostRegions _ _ i.host).bounds (mem_injections hi).2
    constructor
    · show (i.host.start : Int) ≤ i.region.start + i.host.start
      omega
    · show i.region.stop + i.host.start ≤ ((i.host.start + i.host.text.length : Nat) : Int)
      omega
  refine ⟨?_, ?_, ?_, ?_, ?_, ?_, ?_⟩
  · exact fun i hi => (hbounds i hi).2.1
  · exact fun i hi => ⟨(hbounds i hi).1, (hbounds i hi).2.2⟩
  · refine (List.pairwise_map.mp hspread.pairwise).imp_of_mem ?_
    intro i k hi _ hle
    have := (hbounds i hi).2.1
    exact ⟨by omega, hle⟩
  · exact fun i hi => substring_absolute hi
  · exact fun i hi => ⟨(hiff _).mp (mem_injections hi).1, hwithin i hi⟩
  · -- two hosts that hold the first character of the expression are one
    intro i hi g hg hin
    have hlt := (hbounds i hi).2.1
    obtain ⟨hlow, hup⟩ := hwithin i hi
    obtain ⟨hlow', hup'⟩ := hin
    exact eq_of_overlap (hosts_pairwise (aligned_tokens s) (exact_tokens s))
      ((hiff g).mpr hg) (mem_injections hi).1 (by omega) (by omega)
  · -- the offset belongs to a token of the host, and to no other
    intro i hi t ht htext hcomment hvalue k hcov hk
    obtain ⟨hlow, hup⟩ := hwithin i hi
    obtain ⟨u, hu, hcovu, hku⟩ := ((hiff _).mp (mem_injections hi).1).covered (exact_tokens s)
      (k := k) (by omega) (by omega)
    obtain rfl : t = u := eq_of_overlap (tokens_pairwise s) ht hu
      (Nat.lt_of_le_of_lt hcov.1 hcovu.2) (Nat.lt_of_le_of_lt hcovu.1 hcov.2)
    rcases hku with hku | hku
    · rcases Token.isData_iff.mp hku with hku | hku
      · exact htext hku
      · exact hcomment hku
    · exact hvalue hku

/-- **The expressions of a project's documents are placed**, whatever the document, the file,
the delimiters, the registry and the project. -/
theorem Project.injections_placed (p : Project) (tree : Entry) (j : Injector) (s : List Char)
    (file : Option String) : Placed s (p.injections tree j s file).1 := by
  unfold Project.injections
  by_cases huses : (p.hasFramework tree).1 = true
  · simp only [huses, if_true]
    exact j.placed_injections s file
  · simp only [huses]
    exact ⟨by simp, by simp, List.Pairwise.nil, by simp, by simp, by simp, by simp⟩

end EmbeddedExpr
