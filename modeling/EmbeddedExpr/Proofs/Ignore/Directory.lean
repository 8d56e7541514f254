/-
  EmbeddedExpr.Proofs.Ignore.Directory
  ────────────────────────────────────
  **PATTERNS ON PATHS AND ON DIRECTORIES.**

  A directory's path may be written with a slash at its end.  A pattern that concerns a path
  concerns it in this form as well (`Pattern.meets_slash`), so only a pattern that asks for a
  directory tells the two forms apart.

  The last pattern that concerns a path decides on it (`verdict_append_cons`).  A path that is
  left out is kept as a directory only where a pattern that asks for a directory reopens it:

      verdict ps path = true ∧ verdict ps (path ++ "/") = false  ↔  Reopened ps path
-/
import EmbeddedExpr.Ignore.Match

namespace EmbeddedExpr.Ignore

/-! ## §1. Rests of a path that goes on. -/

theorem self_mem_restsAfter (p : Char → Bool) (s : List Char) : s ∈ restsAfter p s := by
  cases s <;> exact List.mem_cons_self

/-- What is left over of a path is left over, with what follows, of a path that goes on. -/
theorem restsAfter_append {p : Char → Bool} {s r : List Char} (h : r ∈ restsAfter p s)
    (t : List Char) : r <:+ s ∧ r ++ t ∈ restsAfter p (s ++ t) := by
  induction s with
  | nil =>
    obtain rfl := List.mem_singleton.mp h
    exact ⟨List.suffix_refl _, self_mem_restsAfter p t⟩
  | cons c s ih =>
    rcases List.mem_cons.mp h with rfl | h
    · exact ⟨List.suffix_refl _, self_mem_restsAfter p _⟩
    · by_cases hc : p c = true
      · rw [if_pos hc] at h
        obtain ⟨hsuffix, hmem⟩ := ih h
        refine ⟨hsuffix.trans (List.suffix_cons c s), List.mem_cons_of_mem _ ?_⟩
        rw [if_pos hc]
        exact hmem
      · rw [if_neg hc] at h
        cases h

theorem restsAfterSome_append {p : Char → Bool} {s r : List Char} (h : r ∈ restsAfterSome p s)
    (t : List Char) : r <:+ s ∧ r ++ t ∈ restsAfterSome p (s ++ t) := by
  cases s with
  | nil => cases h
  | cons c s =>
    by_cases hc : p c = true
    · rw [restsAfterSome, if_pos hc] at h
      obtain ⟨hsuffix, hmem⟩ := restsAfter_append h t
      refine ⟨hsuffix.trans (List.suffix_cons c s), ?_⟩
      rw [List.cons_append, restsAfterSome, if_pos hc]
      exact hmem
    · rw [restsAfterSome, if_neg hc] at h
      cases h

theorem restsAfterParts_append {parts : List Part} :
    ∀ {s r : List Char}, r ∈ restsAfterParts parts s → ∀ t : List Char,
      r <:+ s ∧ r ++ t ∈ restsAfterParts parts (s ++ t) := by
  induction parts with
  | nil =>
    intro s r h t
    obtain rfl := List.mem_singleton.mp h
    exact ⟨List.suffix_refl _, List.mem_singleton.mpr rfl⟩
  | cons part more ih =>
    intro s r h t
    by_cases hmany : part = .many
    · subst hmany
      obtain ⟨start, hstart, h⟩ := List.mem_flatMap.mp h
      obtain ⟨hsuffix, hmem⟩ := restsAfter_append hstart t
      obtain ⟨hsuffix', hmem'⟩ := ih h t
      exact ⟨hsuffix'.trans hsuffix, List.mem_flatMap.mpr ⟨_, hmem, hmem'⟩⟩
    · cases s with
      | nil =>
        rw [restsAfterParts.eq_4 _ _ hmany] at h
        cases h
      | cons c s =>
        rw [restsAfterParts.eq_3 _ _ _ _ hmany] at h
        rw [List.cons_append, restsAfterParts.eq_3 _ _ _ _ hmany]
        by_cases htakes : part.takes c = true
        · rw [if_pos htakes] at h ⊢
          obtain ⟨hsuffix, hmem⟩ := ih h t
          exact ⟨hsuffix.trans (List.suffix_cons c s), hmem⟩
        · rw [if_neg htakes] at h
          cases h

theorem afterSlash?_append {s r : List Char} (h : afterSlash? s = some r) (t : List Char) :
    r <:+ s ∧ afterSlash? (s ++ t) = some (r ++ t) := by
  unfold afterSlash? at h
  split at h
  · obtain rfl := Option.some.inj h
    exact ⟨List.suffix_cons _ _, rfl⟩
  · cases h

theorem restsAfterName_append {segment : Segment} {s r : List Char}
    (h : r ∈ restsAfterName segment s) (t : List Char) :
    r <:+ s ∧ r ++ t ∈ restsAfterName segment (s ++ t) := by
  cases segment with
  | anyDepth => cases h
  | anyName => exact restsAfterSome_append h t
  | name parts => exact restsAfterParts_append h t

/-! ## §2. Paths as directories. -/

/-- The path does not end with a line end. -/
def Plain (s : List Char) : Prop := ¬ ['\n'] <:+ s

theorem Plain.suffix {s r : List Char} (h : Plain s) (hr : r <:+ s) : Plain r :=
  fun hn => h (hn.trans hr)

theorem endsName_iff {s : List Char} :
    endsName s = true ↔ s = [] ∨ s = ['\n'] ∨ s.head? = some '/' := by
  simp [endsName, or_assoc]

theorem endsName_slash {s : List Char} (hs : Plain s) (h : endsName s = true) :
    endsName (s ++ ['/']) = true := by
  rw [endsName_iff] at h ⊢
  refine Or.inr (Or.inr ?_)
  rcases h with rfl | rfl | h
  · rfl
  · exact absurd (List.suffix_refl _) hs
  · rw [List.head?_append, h]
    rfl

theorem matchFrom_slash {all : List Segment} :
    ∀ {slash : Bool} {s : List Char}, Plain s → matchFrom slash all s = true →
      matchFrom slash all (s ++ ['/']) = true := by
  induction all with
  | nil => intro slash s hs h; exact endsName_slash hs h
  | cons segment more ih =>
    intro slash s hs h
    -- segments that match what one of the rests leaves over match it when the path goes on
    have later : ∀ {rests rests' : List (List Char)},
        (∀ r ∈ rests, r <:+ s ∧ r ++ ['/'] ∈ rests') →
        rests.any (matchFrom true more) = true → rests'.any (matchFrom true more) = true := by
      intro rests rests' hrests hany
      obtain ⟨r, hr, hmatch⟩ := List.any_eq_true.mp hany
      obtain ⟨hsuffix, hmem⟩ := hrests r hr
      exact List.any_eq_true.mpr ⟨_, hmem, ih (hs.suffix hsuffix) hmatch⟩
    by_cases hdepth : segment = .anyDepth
    · subst hdepth
      by_cases hmore : more = []
      · subst hmore
        obtain ⟨r, hr⟩ := Option.isSome_iff_exists.mp h
        exact Option.isSome_iff_exists.mpr ⟨_, (afterSlash?_append hr _).2⟩
      · rw [matchFrom.eq_3 _ _ _ hmore, Bool.or_eq_true] at h ⊢
        rcases h with h | h
        · exact Or.inl (ih hs h)
        · refine Or.inr ?_
          cases hr : afterSlash? s with
          | none =>
            rw [hr] at h
            cases h
          | some rest =>
            obtain ⟨hsuffix, hrest⟩ := afterSlash?_append hr ['/']
            rw [hr] at h
            rw [hrest]
            refine later (fun r hr => ?_) h
            obtain ⟨hsuffix', hmem⟩ := restsAfterSome_append hr ['/']
            exact ⟨hsuffix'.trans hsuffix, hmem⟩
    · rw [matchFrom.eq_4 _ _ _ _ (fun h _ => hdepth h) hdepth] at h ⊢
      obtain ⟨start, hstart, hany⟩ := List.any_eq_true.mp h
      have hstarts : start <:+ s
          ∧ start ++ ['/'] ∈ if slash then (afterSlash? (s ++ ['/'])).toList else [s ++ ['/']] := by
        cases slash with
        | true =>
          obtain ⟨hsuffix, hrest⟩ := afterSlash?_append (Option.mem_toList.mp hstart) ['/']
          exact ⟨hsuffix, Option.mem_toList.mpr hrest⟩
        | false =>
          obtain rfl := List.mem_singleton.mp hstart
          exact ⟨List.suffix_refl _, List.mem_singleton.mpr rfl⟩
      refine List.any_eq_true.mpr ⟨_, hstarts.2, later (fun r hr => ?_) hany⟩
      obtain ⟨hsuffix, hmem⟩ := restsAfterName_append hr ['/']
      exact ⟨hsuffix.trans hstarts.1, hmem⟩

theorem matchAll_slash {all : List Segment} {s : List Char} (hs : Plain s)
    (h : matchAll all s = true) : matchAll all (s ++ ['/']) = true := by
  cases all with
  | nil => exact matchFrom_slash hs h
  | cons segment more =>
    cases segment with
    | anyName => exact matchFrom_slash hs h
    | name parts => exact matchFrom_slash hs h
    | anyDepth =>
      unfold matchAll at h ⊢
      rw [Bool.or_eq_true] at h ⊢
      rcases h with h | h
      · exact Or.inl (matchFrom_slash hs h)
      · -- the segments match below one of the directories that the path leads through
        obtain ⟨r, hr, hmatch⟩ := List.any_eq_true.mp h
        obtain ⟨start, hstart, hslash⟩ := List.mem_filterMap.mp hr
        obtain ⟨hsuffix, hmem⟩ := restsAfterSome_append hstart ['/']
        obtain ⟨hsuffix', hrest⟩ := afterSlash?_append hslash ['/']
        refine Or.inr (List.any_eq_true.mpr ⟨_, List.mem_filterMap.mpr ⟨_, hmem, hrest⟩, ?_⟩)
        exact matchFrom_slash (hs.suffix (hsuffix'.trans hsuffix)) hmatch

/-- The pattern concerns a written path. -/
def Pattern.meets (q : Pattern) (path : String) : Bool := q.concerns (relative path.toList)

theorem Pattern.concerns_slash (q : Pattern) {s : List Char} (hs : Plain s)
    (h : q.concerns s = true) : q.concerns (s ++ ['/']) = true := by
  obtain ⟨keeps, shape⟩ := q
  cases shape with
  | everything =>
    show (s ++ ['/']).any isInline = true
    rw [List.any_append, show s.any isInline = true from h, Bool.true_or]
  | nested => exact List.contains_iff_mem.mpr (List.mem_append_right s List.mem_cons_self)
  | segments all => exact matchAll_slash hs h

theorem relative_suffix (s : List Char) : relative s <:+ s := by
  unfold relative
  split
  · exact List.suffix_cons _ _
  · exact (List.suffix_cons _ _).trans (List.suffix_cons _ _)
  · exact List.suffix_refl _

theorem relative_of_not {s : List Char} (hslash : s.head? ≠ some '/')
    (hdots : ¬ ['.', '/'] <+: s) : relative s = s := by
  unfold relative
  split
  · exact absurd rfl hslash
  · exact absurd (List.prefix_append ['.', '/'] _) hdots
  · rfl

theorem relative_slash {s : List Char} (hne : s ≠ []) (hdot : s ≠ ['.']) :
    relative (s ++ ['/']) = relative s ++ ['/'] := by
  by_cases hslash : s.head? = some '/'
  · obtain ⟨rest, rfl⟩ := List.head?_eq_some_iff.mp hslash
    rfl
  · by_cases hdots : ['.', '/'] <+: s
    · obtain ⟨rest, rfl⟩ := hdots
      rfl
    · rw [relative_of_not hslash hdots, relative_of_not]
      · cases s with
        | nil => exact absurd rfl hne
        | cons c rest => exact hslash
      · intro h
        rcases List.prefix_concat_iff.mp h with h | h
        · exact hdot (List.append_cancel_right h).symm
        · exact hdots h

/-- **A pattern that concerns a path concerns it as a directory.** -/
theorem Pattern.meets_slash (q : Pattern) {path : String} (hne : path ≠ "") (hdot : path ≠ ".")
    (hs : Plain path.toList) (h : q.meets path = true) : q.meets (path ++ "/") = true := by
  unfold Pattern.meets
  rw [String.toList_append]
  show q.concerns (relative (path.toList ++ ['/'])) = true
  rw [relative_slash (fun h => hne (String.toList_inj.mp h))
    (fun h => hdot (String.toList_inj.mp h))]
  exact q.concerns_slash (hs.suffix (relative_suffix _)) h

/-! ## §3. Verdicts. -/

theorem verdict_eq (ps : List Pattern) (path : String) :
    verdict ps path = ((ps.reverse.find? fun q => q.meets path).map fun q => !q.keeps).getD false := by
  unfold verdict Pattern.meets
  cases ps.reverse.find? fun q => q.concerns (relative path.toList) <;> rfl

theorem find?_reverse_of_none {ps : List Pattern} {path : String}
    (h : ∀ q ∈ ps, q.meets path = false) : (ps.reverse.find? fun q => q.meets path) = none :=
  List.find?_eq_none.mpr fun q hq => by
    rw [h q (List.mem_reverse.mp hq)]
    exact Bool.false_ne_true

/-- Patterns that do not concern a path do not change the verdict on it. -/
theorem verdict_append_of_none {after : List Pattern} {path : String}
    (h : ∀ q ∈ after, q.meets path = false) (before : List Pattern) :
    verdict (before ++ after) path = verdict before path := by
  rw [verdict_eq, verdict_eq, List.reverse_append, List.find?_append, find?_reverse_of_none h,
    Option.none_or]

/-- **The last pattern that concerns a path decides on it.** -/
theorem verdict_append_cons {q : Pattern} {after : List Pattern} {path : String}
    (h : q.meets path = true) (hafter : ∀ r ∈ after, r.meets path = false)
    (before : List Pattern) : verdict (before ++ q :: after) path = !q.keeps := by
  have hfind : ((q :: before.reverse).find? fun q => q.meets path) = some q :=
    List.find?_cons_of_pos h
  rw [List.append_cons, verdict_append_of_none hafter, verdict_eq, List.reverse_append,
    List.reverse_singleton, List.singleton_append, hfind]
  rfl

/-- No pattern concerns a path, or one is the last that does. -/
theorem exists_last (ps : List Pattern) (path : String) :
    (∀ q ∈ ps, q.meets path = false)
      ∨ ∃ before q after, ps = before ++ q :: after ∧ q.meets path = true
        ∧ ∀ r ∈ after, r.meets path = false := by
  cases hf : ps.reverse.find? fun q => q.meets path with
  | none =>
    refine Or.inl fun q hq => ?_
    exact Bool.not_eq_true _ ▸ List.find?_eq_none.mp hf q (List.mem_reverse.mpr hq)
  | some q =>
    obtain ⟨hq, later, earlier, hsplit, hlater⟩ := List.find?_eq_some_iff_append.mp hf
    refine Or.inr ⟨earlier.reverse, q, later.reverse, ?_, hq, ?_⟩
    · rw [← List.reverse_reverse ps, hsplit]
      simp
    · intro r hr
      exact Bool.not_eq_true' _ ▸ hlater r (List.mem_reverse.mp hr)

/-- A pattern that asks for a directory keeps the one at the path, though the patterns before
it leave out the path. -/
def Reopened (ps : List Pattern) (path : String) : Prop :=
  ∃ before q after, ps = before ++ q :: after ∧ verdict before path = true
    ∧ q.keeps = true ∧ q.meets path = false ∧ q.meets (path ++ "/") = true
    ∧ ∀ r ∈ after, r.meets (path ++ "/") = false

/-- **A path is left out and kept as a directory exactly when it is reopened.** -/
theorem reopened_iff {ps : List Pattern} {path : String}
    (hslash : ∀ q ∈ ps, q.meets path = true → q.meets (path ++ "/") = true) :
    Reopened ps path ↔ verdict ps path = true ∧ verdict ps (path ++ "/") = false := by
  -- what does not concern the directory does not concern the path
  have hless : ∀ qs ⊆ ps, (∀ q ∈ qs, q.meets (path ++ "/") = false) →
      ∀ q ∈ qs, q.meets path = false := by
    intro qs hsub hqs q hq
    refine Bool.eq_false_iff.mpr fun h => ?_
    have := hslash q (hsub hq) h
    rw [hqs q hq] at this
    cases this
  constructor
  · rintro ⟨before, q, after, rfl, hbefore, hkeeps, hpath, hdirectory, hafter⟩
    rw [verdict_append_cons hdirectory hafter, hkeeps]
    refine ⟨?_, rfl⟩
    rw [verdict_append_of_none, hbefore]
    intro r hr
    rcases List.mem_cons.mp hr with rfl | hr
    · exact hpath
    · exact hless after (fun r hr => List.mem_append_right _ (List.mem_cons_of_mem _ hr)) hafter r hr
  · rintro ⟨hpath, hdirectory⟩
    rcases exists_last ps (path ++ "/") with hnone | ⟨before, q, after, rfl, hq, hafter⟩
    · have hverdict := verdict_append_of_none (hless ps (List.Subset.refl ps) hnone) []
      rw [List.nil_append, hpath] at hverdict
      cases hverdict
    · have hafter' := hless after
        (fun r hr => List.mem_append_right _ (List.mem_cons_of_mem _ hr)) hafter
      rw [verdict_append_cons hq hafter, Bool.not_eq_false'] at hdirectory
      have hmeets : q.meets path = false := by
        refine Bool.eq_false_iff.mpr fun h => ?_
        rw [verdict_append_cons h hafter', hdirectory] at hpath
        cases hpath
      refine ⟨before, q, after, rfl, ?_, hdirectory, hmeets, hq, hafter⟩
      rw [← hpath, verdict_append_of_none]
      intro r hr
      rcases List.mem_cons.mp hr with rfl | hr
      · exact hmeets
      · exact hafter' r hr

end EmbeddedExpr.Ignore
