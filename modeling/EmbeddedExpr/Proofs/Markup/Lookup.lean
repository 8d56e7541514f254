/-
  EmbeddedExpr.Proofs.Markup.Lookup
  ─────────────────────────────────
  **HALVING FINDS THE TOKEN THAT COVERS AN OFFSET.**

  The search keeps an interval of indices: tokens before it begin at or before the offset,
  tokens after it begin past the offset (`Brackets`).  When the interval is empty, the token
  just before it is the only one that can cover the offset:

      elementAt? ts.toArray offset = some t  ↔  t ∈ ts ∧ t.start ≤ offset ∧ offset < t.stop

  So halving answers as a search through the tokens from left to right does
  (`lookup_eq_linearSearch`), at every integer.
-/
import EmbeddedExpr.Markup.Lookup
import EmbeddedExpr.Proofs.Markup.Coverage

namespace EmbeddedExpr.Markup

/-! ## §1. The search. -/

/-- The interval of indices that the search for an offset has come to. -/
structure Brackets (tokens : Array Token) (offset : Int) (low high : Nat) : Prop where
  low_le : low ≤ high
  high_le : high ≤ tokens.size
  before : ∀ i (h : i < tokens.size), i < low → (tokens[i].start : Int) ≤ offset
  after : ∀ i (h : i < tokens.size), high ≤ i → offset < (tokens[i].start : Int)

/-- The tokens stand in the order of their starts. -/
def StartsAscend (tokens : Array Token) : Prop :=
  ∀ i j (hij : i ≤ j) (hj : j < tokens.size), tokens[i].start ≤ tokens[j].start

/-- The whole array brackets every offset. -/
theorem Brackets.whole (tokens : Array Token) (offset : Int) :
    Brackets tokens offset 0 tokens.size where
  low_le := Nat.zero_le _
  high_le := Nat.le_refl _
  before i _ hi := absurd hi (Nat.not_lt_zero i)
  after _ h hi := absurd h (Nat.not_lt.mpr hi)

/-- **The search ends with an empty interval that still brackets the offset.** -/
theorem Brackets.startsUpTo {tokens : Array Token} {offset : Int} {low high : Nat}
    (hs : StartsAscend tokens) (h : Brackets tokens offset low high) :
    Brackets tokens offset (startsUpTo tokens offset low high)
      (startsUpTo tokens offset low high) := by
  fun_induction Markup.startsUpTo tokens offset low high with
  | case1 low high hlt middle t ht hoff ih =>
    -- the middle token begins past the offset, and so do those after it
    obtain ⟨hm, rfl⟩ := Array.getElem?_eq_some_iff.mp ht
    refine ih ⟨by omega, by omega, h.before, ?_⟩
    intro i hi hle
    have := hs middle i hle hi
    omega
  | case2 low high hlt middle t ht hoff ih =>
    -- the middle token begins at or before the offset, and so do those before it
    obtain ⟨hm, rfl⟩ := Array.getElem?_eq_some_iff.mp ht
    refine ih ⟨by omega, h.high_le, ?_, h.after⟩
    intro i hi hlow
    have := hs i middle (by omega) hm
    omega
  | case3 low high hlt middle hnone =>
    have hsize := Array.getElem?_eq_none_iff.mp hnone
    have := h.high_le
    omega
  | case4 low high hge =>
    have heq : low = high := Nat.le_antisymm h.low_le (Nat.not_lt.mp hge)
    subst heq
    exact h

/-! ## §2. The token found. -/

theorem Aligned.startsAscend {lower : Nat} {inside : Bool} {ts : List Token}
    (h : Aligned lower inside ts) : StartsAscend ts.toArray := by
  intro i j hij hj
  have hj : j < ts.length := hj
  have hi : i < ts.length := Nat.lt_of_le_of_lt hij hj
  show ts[i].start ≤ ts[j].start
  rcases Nat.lt_or_eq_of_le hij with hlt | rfl
  · have hstop : ts[i].stop ≤ ts[j].start :=
      List.pairwise_iff_getElem.mp h.pairwise i j hi hj hlt
    have hpos := (h.bounds (List.getElem_mem hi)).2
    omega
  · exact Nat.le_refl _

/-- **The token found is the one that covers the offset.** -/
theorem elementAt?_eq_some_iff {lower : Nat} {inside : Bool} {ts : List Token} {offset : Int}
    {t : Token} (h : Aligned lower inside ts) :
    elementAt? ts.toArray offset = some t
      ↔ t ∈ ts ∧ (t.start : Int) ≤ offset ∧ offset < (t.stop : Int) := by
  have hb := (Brackets.whole ts.toArray offset).startsUpTo h.startsAscend
  unfold elementAt?
  generalize startsUpTo ts.toArray offset 0 ts.toArray.size = k at hb
  constructor
  · intro ht
    cases k with
    | zero => cases ht
    | succ k =>
      obtain ⟨hk, hcov⟩ := Option.filter_eq_some_iff.mp ht
      rw [List.getElem?_toArray] at hk
      simp only [Bool.and_eq_true, decide_eq_true_eq] at hcov
      exact ⟨List.mem_of_getElem? hk, hcov⟩
  · rintro ⟨ht, hstart, hstop⟩
    obtain ⟨m, hm, rfl⟩ := List.mem_iff_getElem.mp ht
    -- a token at or past the end of the search begins too late
    have hmk : m < k := by
      refine Nat.not_le.mp fun hle => ?_
      have hlate : offset < (ts[m].start : Int) := hb.after m hm hle
      omega
    cases k with
    | zero => exact absurd hmk (Nat.not_lt_zero m)
    | succ k =>
      have hk : k < ts.length := hb.high_le
      have heq : m = k := by
        refine Nat.le_antisymm (Nat.le_of_lt_succ hmk) (Nat.not_lt.mp fun hlt => ?_)
        -- a token further left ends before the last one that begins in time
        have hsep : ts[m].stop ≤ ts[k].start :=
          List.pairwise_iff_getElem.mp h.pairwise m k hm hk hlt
        have hlast : (ts[k].start : Int) ≤ offset := hb.before k hk (Nat.lt_succ_self k)
        omega
      subst heq
      refine Option.filter_eq_some_iff.mpr ⟨?_, ?_⟩
      · rw [List.getElem?_toArray, List.getElem?_eq_getElem hk]
      · simp only [Bool.and_eq_true, decide_eq_true_eq]
        exact ⟨hstart, hstop⟩

/-- An offset is in a comment when a comment covers it. -/
theorem isComment_eq_true_iff {lower : Nat} {inside : Bool} {ts : List Token} {offset : Int}
    (h : Aligned lower inside ts) :
    isComment ts.toArray offset = true
      ↔ ∃ t ∈ ts, t.kind = .comment ∧ (t.start : Int) ≤ offset ∧ offset < (t.stop : Int) := by
  unfold isComment
  split
  · next t ht =>
    obtain ⟨hmem, hcov⟩ := (elementAt?_eq_some_iff h).mp ht
    constructor
    · intro hk
      exact ⟨t, hmem, of_decide_eq_true hk, hcov⟩
    · rintro ⟨u, hu, hk, hcovu⟩
      -- only one token covers the offset
      have heq : some t = some u := ht.symm.trans ((elementAt?_eq_some_iff h).mpr ⟨hu, hcovu⟩)
      rw [Option.some.inj heq]
      exact decide_eq_true hk
  · next hnone =>
    constructor
    · intro hf
      exact absurd hf Bool.false_ne_true
    · rintro ⟨u, hu, -, hcovu⟩
      rw [(elementAt?_eq_some_iff h).mpr ⟨hu, hcovu⟩] at hnone
      cases hnone

/-! ## §3. Halving and searching from left to right. -/

/-- The offset, which may lie outside of the document, is one of the token. -/
def Token.holds (t : Token) (offset : Int) : Bool := t.start ≤ offset && offset < t.stop

theorem Token.holds_iff {t : Token} {offset : Int} :
    t.holds offset = true ↔ (t.start : Int) ≤ offset ∧ offset < (t.stop : Int) := by
  simp [Token.holds]

/-- Of tokens in order without overlap, one at most holds an offset. -/
theorem filter_holds {ts : List Token} (hp : ts.Pairwise fun t u => t.stop ≤ u.start)
    (offset : Int) :
    ts.filter (fun t => t.holds offset) = (ts.find? fun t => t.holds offset).toList := by
  induction ts with
  | nil => rfl
  | cons t more ih =>
    obtain ⟨hfirst, hmore⟩ := List.pairwise_cons.mp hp
    simp only [List.filter_cons, List.find?_cons]
    by_cases ht : t.holds offset = true
    · -- the tokens after `t` begin past the offset
      have hnone : more.filter (fun u => u.holds offset) = [] := by
        apply List.filter_eq_nil_iff.mpr
        intro u hu hheld
        have hle := hfirst u hu
        have hlow := (Token.holds_iff.mp hheld).1
        have hup := (Token.holds_iff.mp ht).2
        omega
      simp only [ht, if_true, hnone]
      rfl
    · simp only [ht]
      exact ih hmore

/-- **Halving finds the token that a search from left to right finds.** -/
theorem elementAt?_eq_find? {lower : Nat} {inside : Bool} {ts : List Token} (offset : Int)
    (h : Aligned lower inside ts) :
    elementAt? ts.toArray offset = ts.find? fun t => t.holds offset := by
  cases hfind : ts.find? fun t => t.holds offset with
  | none =>
    apply Option.eq_none_iff_forall_ne_some.mpr
    intro t ht
    obtain ⟨hmem, hcov⟩ := (elementAt?_eq_some_iff h).mp ht
    exact List.find?_eq_none.mp hfind t hmem (Token.holds_iff.mpr hcov)
  | some t =>
    have hheld := List.find?_some (p := fun t : Token => t.holds offset) hfind
    apply (elementAt?_eq_some_iff h).mpr
    exact ⟨List.mem_of_find?_eq_some hfind, Token.holds_iff.mp hheld⟩

/-- **An offset of a document is looked up as if its tokens were searched one by one.**  The
token found is the only one that holds the offset, and none is found when no token does. -/
theorem lookup_eq_linearSearch (s : List Char) (offset : Int) :
    elementAt? (tokens s).toArray offset = (tokens s).find? (fun t => t.holds offset)
    ∧ (tokens s).filter (fun t => t.holds offset)
        = (elementAt? (tokens s).toArray offset).toList
    ∧ isComment (tokens s).toArray offset
        = (tokens s).any fun t => t.kind = .comment && t.holds offset := by
  have hfind := elementAt?_eq_find? offset (aligned_tokens s)
  refine ⟨hfind, ?_, ?_⟩
  · rw [hfind]
    exact filter_holds (tokens_pairwise s) offset
  · rw [Bool.eq_iff_iff, isComment_eq_true_iff (aligned_tokens s), List.any_eq_true]
    simp only [Bool.and_eq_true, decide_eq_true_eq, Token.holds_iff]

end EmbeddedExpr.Markup
