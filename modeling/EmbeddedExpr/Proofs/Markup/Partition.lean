/-
  EmbeddedExpr.Proofs.Markup.Partition
  ────────────────────────────────────
  **HOSTS SHARE OUT THE TOKENS IN WHICH EXPRESSIONS MAY STAND.**

  The text hosts of a document are its longest runs of character data and comments: each such
  token belongs to one of them, and between two of them stands a token of another kind.  The
  other hosts are the values of attributes, one for each and in the same order:

      Partition s (hosts (tokens s))
-/
import EmbeddedExpr.Proofs.Markup.Grammar
import EmbeddedExpr.Proofs.Markup.Host
import EmbeddedExpr.Proofs.Markup.Value

namespace EmbeddedExpr.Markup

/-! ## §1. Runs and the tokens around them. -/

/-- The tokens of a run stand between its bounds. -/
theorem mem_bounds_of_adjacent {run : List Token} {stop : Nat} (hpos : ∀ t ∈ run, t.start < t.stop) :
    ∀ {start : Nat}, (run.IsChain fun t u => t.stop = u.start) →
      run.head?.map Token.start = some start → run.getLast?.map Token.stop = some stop →
      ∀ t ∈ run, start ≤ t.start ∧ t.stop ≤ stop := by
  induction run with
  | nil => intro start _ hf _; cases hf
  | cons u more ih =>
    intro start hc hf hl t ht
    obtain rfl : u.start = start := Option.some.inj hf
    have hu := hpos u List.mem_cons_self
    cases more with
    | nil =>
      obtain rfl : u.stop = stop := Option.some.inj hl
      rw [List.mem_singleton.mp ht]
      exact ⟨Nat.le_refl _, Nat.le_refl _⟩
    | cons v more =>
      have hadj : u.stop = v.start := (List.isChain_cons_cons.mp hc).1
      rw [List.getLast?_cons_cons] at hl
      have hmore := ih (fun w hw => hpos w (List.mem_cons_of_mem _ hw)) hc.tail rfl hl
      rcases List.mem_cons.mp ht with rfl | ht
      · have hv := hmore v List.mem_cons_self
        have := hpos v (List.mem_cons_of_mem _ List.mem_cons_self)
        omega
      · have := hmore t ht
        omega

section Aligned

variable {lower : Nat} {inside : Bool} {ts : List Token}

theorem IsRun.mem_bounds {run : List Token} {start stop : Nat} (hrun : IsRun ts run start stop)
    (ha : Aligned lower inside ts) {t : Token} (ht : t ∈ run) :
    start ≤ t.start ∧ t.stop ≤ stop := by
  obtain ⟨before, after, rfl, -, -⟩ := hrun.maximal
  refine mem_bounds_of_adjacent (fun u hu => ?_) hrun.adjacent hrun.first hrun.last t ht
  exact (ha.bounds (List.mem_append_left _ (List.mem_append_right _ hu))).2

/-- **No data begins where a longest run of data ends.** -/
theorem IsRun.start_ne_stop {run : List Token} {start stop : Nat} (hrun : IsRun ts run start stop)
    (ha : Aligned lower inside ts) {t : Token} (ht : t ∈ ts) (hd : t.isData = true) :
    t.start ≠ stop := by
  intro heq
  obtain ⟨before, after, rfl, -, hafter⟩ := hrun.maximal
  obtain ⟨v, hv, hstop⟩ := Option.map_eq_some_iff.mp hrun.last
  have hpos := (ha.bounds ht).2
  have hp := ha.pairwise
  obtain ⟨hfront, hback, hacross⟩ := List.pairwise_append.mp hp
  -- the last token of the run ends at `stop`, and the tokens up to there end no later
  have hvmem : v ∈ before ++ run := List.mem_append_right _ (List.mem_of_getLast? hv)
  rcases List.mem_append.mp ht with ht | ht
  · rcases List.mem_append.mp ht with ht | ht
    · have := (List.pairwise_append.mp hfront).2.2 t ht v (List.mem_of_getLast? hv)
      have := (ha.bounds (List.mem_append_left _ hvmem)).2
      omega
    · have := (hrun.mem_bounds ha ht).2
      omega
  · -- the first token after the run is no data, so `t` begins past the end of that one
    cases after with
    | nil => cases ht
    | cons a more =>
      have hne : t ≠ a := by
        rintro rfl
        rw [hafter t rfl] at hd
        cases hd
      have hmore := (List.mem_cons.mp ht).resolve_left hne
      have hge := hacross v hvmem a List.mem_cons_self
      have hlt := (ha.bounds (List.mem_append_right _ (List.mem_cons_self (a := a) (l := more)))).2
      have hle := (List.pairwise_cons.mp hback).1 t hmore
      omega

/-- Each token of character data or comments lies in a text host. -/
theorem exists_host_of_isData {t : Token} (ha : Aligned lower inside ts) (he : Exact ts)
    (ht : t ∈ ts) (hd : t.isData = true) :
    ∃ g ∈ hosts ts, g.kind = .text ∧ g.start ≤ t.start ∧ t.stop ≤ g.stop := by
  fun_induction hosts ts generalizing lower inside with
  | case1 => cases ht
  | case2 u more hdata ih =>
    obtain ⟨hsplit, -, hadj, hstop⟩ := head_run hdata ha he
    rw [hsplit] at ha he ht
    rcases List.mem_append.mp ht with ht | ht
    · refine ⟨_, List.mem_cons_self, rfl, ?_⟩
      refine mem_bounds_of_adjacent (fun v hv => ?_) hadj rfl hstop t ht
      exact (ha.bounds (List.mem_append_left _ hv)).2
    · obtain ⟨lower', inside', ha'⟩ := ha.append_right
      obtain ⟨g, hg, hin⟩ := ih ha' (he.subset (List.subset_append_right _ _)) ht
      exact ⟨g, List.mem_cons_of_mem _ hg, hin⟩
  | case3 u more hnot ih =>
    have hne : t ≠ u := by
      rintro rfl
      exact hnot hd
    obtain ⟨g, hg, hin⟩ := ih ha.2.2.2 (he.subset (List.subset_cons_self _ _))
      ((List.mem_cons.mp ht).resolve_left hne)
    exact ⟨g, List.mem_append_right _ hg, hin⟩

/-- Hosts are not empty. -/
theorem Host.From.start_lt_stop {g : Host} (h : g.From ts) (ha : Aligned lower inside ts)
    (he : Exact ts) : g.start < g.stop := by
  cases h with
  | run run hrun hkind htext =>
    obtain ⟨t, ht, -⟩ := Option.map_eq_some_iff.mp hrun.first
    have hmem := List.mem_of_head? ht
    have hin := hrun.mem_bounds ha hmem
    obtain ⟨before, after, rfl, -, -⟩ := hrun.maximal
    have := (ha.bounds (List.mem_append_left _ (List.mem_append_right _ hmem))).2
    omega
  | value t ht hg =>
    have := (ha.bounds ht).2
    rw [(Token.eq_of_host? hg).2.1, Token.stop_of_host? (he t ht) hg]
    exact this

/-- A host that comes from one value is no text host. -/
theorem Host.From.exists_run {g : Host} (h : g.From ts) (hk : g.kind = .text) :
    ∃ run, IsRun ts run g.start g.stop ∧ g.text = run.flatMap Token.text := by
  cases h with
  | run run hrun _ htext => exact ⟨run, hrun, htext⟩
  | value t ht hg =>
    unfold Token.host? at hg
    split at hg
    · rw [← Option.some.inj hg] at hk
      cases hk
    · cases hg

/-- **Text hosts do not touch**: something else stands between them. -/
theorem Host.From.stop_ne_start {g h : Host} (ha : Aligned lower inside ts) (hg : g.From ts)
    (hh : h.From ts) (hgk : g.kind = .text) (hhk : h.kind = .text) : h.start ≠ g.stop := by
  obtain ⟨run, hrun, -⟩ := hg.exists_run hgk
  obtain ⟨run', hrun', -⟩ := hh.exists_run hhk
  obtain ⟨t, ht, hstart⟩ := Option.map_eq_some_iff.mp hrun'.first
  obtain ⟨before, after, hts, -, -⟩ := hrun'.maximal
  have hmem := List.mem_of_head? ht
  rw [← hstart]
  refine hrun.start_ne_stop ha ?_ (hrun'.data t hmem)
  rw [hts]
  exact List.mem_append_left _ (List.mem_append_right _ hmem)

end Aligned

/-! ## §2. Values. -/

/-- A value bears a name. -/
theorem Phrase.name_of_mem {p : Phrase} {u : Token} (h : u ∈ p.tokens) (hk : u.kind = .attrValue) :
    ∃ name, u.name = some name := by
  cases p with
  | single t ht =>
    obtain rfl := List.mem_singleton.mp h
    rw [hk] at ht
    cases ht
  | tag t =>
    rcases List.mem_cons.mp h with rfl | h
    · cases t.start_kind.symm.trans hk
    · rcases List.mem_append.mp h with h | h
      · rcases List.mem_append.mp h with h | h
        · obtain ⟨a, -, hu⟩ := List.mem_flatMap.mp h
          rcases List.mem_cons.mp hu with rfl | hu
          · cases a.name_kind.symm.trans hk
          · exact ⟨_, a.value_name u (Option.mem_toList.mp hu)⟩
        · cases (t.ending_kind u (Option.mem_toList.mp h)).symm.trans hk
      · cases (t.raw_kind u (Option.mem_toList.mp h)).symm.trans hk

theorem name_of_mem_tokens {s : List Char} {t : Token} (ht : t ∈ tokens s)
    (hk : t.kind = .attrValue) : ∃ name, t.name = some name := by
  obtain ⟨ps, hps, -, -⟩ := exists_phrases s 0
  have ht : t ∈ place 0 (pieces s) := ht
  rw [hps] at ht
  obtain ⟨p, -, hp⟩ := List.mem_flatMap.mp ht
  exact Phrase.name_of_mem hp hk

/-- **The hosts that are no runs are the hosts that tokens are by themselves**, in order. -/
theorem filter_hosts (ts : List Token) :
    (hosts ts).filter (fun g => g.kind ≠ .text) = ts.filterMap Token.host? := by
  conv_lhs => rw [← List.flatMap_singleton' (hosts ts)]
  rw [List.filter_flatMap, flatMap_hosts, List.filterMap_eq_flatMap_toList]
  · refine List.flatMap_congr fun t _ => ?_
    cases hg : t.host? with
    | none => rfl
    | some g =>
      have hk : g.kind ≠ .text := by
        unfold Token.host? at hg
        split at hg
        · rw [← Option.some.inj hg]
          intro h
          cases h
        · cases hg
      simp [hk]
  · intro g hk
    simp [hk]

/-! ## §3. The hosts of a document. -/

/-- How hosts share out the character data, the comments and the values of a document. -/
structure Partition (s : List Char) (gs : List Host) : Prop where
  nonempty : ∀ g ∈ gs, g.start < g.stop
  ordered : gs.Pairwise fun g h => g.stop ≤ h.start
  text_eq : ∀ g ∈ gs, g.stop ≤ s.length ∧ g.text = (s.take g.stop).drop g.start
  /-- The text hosts are the longest runs of data, each without a gap. -/
  runs : ∀ g : Host, g.kind = .text →
    (g ∈ gs ↔ ∃ run, IsRun (tokens s) run g.start g.stop ∧ g.text = run.flatMap Token.text)
  /-- Character data and comments lie in one text host each. -/
  data : ∀ t ∈ tokens s, t.kind = .text ∨ t.kind = .comment →
    ∃! g, g ∈ gs ∧ g.kind = .text ∧ g.start ≤ t.start ∧ t.stop ≤ g.stop
  apart : gs.Pairwise fun g h => g.kind = .text → h.kind = .text → g.stop < h.start
  /-- The other hosts are the values, with their names; those that begin with a quote are
  quoted. -/
  values : (gs.filter fun g => g.kind ≠ .text).map
      (fun g => (g.start, g.stop, g.text, g.attribute?, g.isQuoted))
    = ((tokens s).filter fun t => t.kind = .attrValue).map
      fun t => (t.start, t.stop, t.text, t.name, t.text.head?.any isQuote)

/-- **The hosts of every document share out its data and its values.** -/
theorem partition_hosts (s : List Char) : Partition s (hosts (tokens s)) := by
  have ha := aligned_tokens s
  have he := exact_tokens s
  have hfrom : ∀ g, g ∈ hosts (tokens s) ↔ g.From (tokens s) := fun g => mem_hosts_iff ha he
  have hordered := hosts_pairwise ha he
  refine ⟨?_, hordered, ?_, ?_, ?_, ?_, ?_⟩
  · intro g hg
    exact ((hfrom g).mp hg).start_lt_stop ha he
  · intro g hg
    exact (text_eq_of_mem_hosts hg).symm
  · intro g hk
    constructor
    · intro hg
      exact ((hfrom g).mp hg).exists_run hk
    · intro h
      obtain ⟨run, hrun, htext⟩ := h
      exact (hfrom g).mpr (.run run hrun hk htext)
  · intro t ht hk
    obtain ⟨g, hg, hgk, hlow, hup⟩ := exists_host_of_isData ha he ht (Token.isData_iff.mpr hk)
    refine ⟨g, ⟨hg, hgk, hlow, hup⟩, ?_⟩
    -- two hosts that hold the token overlap
    intro h hin
    obtain ⟨hh, -, hlow', hup'⟩ := hin
    have hpos := start_lt_stop ht
    exact eq_of_overlap hordered hh hg (by omega) (by omega)
  · refine hordered.imp_of_mem ?_
    intro g h hg hh hle hgk hhk
    have hne := Host.From.stop_ne_start ha ((hfrom g).mp hg) ((hfrom h).mp hh) hgk hhk
    omega
  · rw [filter_hosts, List.map_filterMap, ← List.filterMap_eq_map, List.filterMap_filter]
    refine List.filterMap_congr fun t ht => ?_
    by_cases hk : t.kind = .attrValue
    · obtain ⟨name, hname⟩ := name_of_mem_tokens ht hk
      have hhost : t.host? = some ⟨.attribute name (startsQuoted t.text), t.start, t.text⟩ := by
        simp only [Token.host?, hk, hname, Option.getD_some]
      have hquoted : startsQuoted t.text = t.text.head?.any isQuote := by
        cases t.text with
        | nil => rfl
        | cons c more => rfl
      rw [hhost, if_pos (decide_eq_true hk)]
      simp only [Option.map_some, Function.comp_apply, Host.attribute?, Host.isQuoted, Host.stop,
        hname, hquoted, ← he t ht]
    · have hnone : t.host? = none := by
        unfold Token.host?
        split
        · next hk' => exact absurd hk' hk
        · rfl
      rw [hnone, if_neg (by simp [hk])]
      rfl

end EmbeddedExpr.Markup
