/-
  EmbeddedExpr.Proofs.Injection.Comments
  ──────────────────────────────────────
  **WHAT STANDS IN COMMENTS DOES NOT CHANGE WHERE EXPRESSIONS ARE.**

  Two documents that differ in the bodies of comments only have their expressions at the same
  places, when the delimiters hold no angle bracket:

      Rewritten s s'  →  (injections s).map site = (injections s').map site

  The tokens stand at the same sites, so hosts do, and the same offsets are in comments.  In a
  host a comment is an inert stretch that is set off by angle brackets.
-/
import EmbeddedExpr.Proofs.Injection.Cutting
import EmbeddedExpr.Proofs.Markup.Comments
import EmbeddedExpr.Proofs.Scan.Inert

namespace EmbeddedExpr

open Markup

/-! ## §1. The comments of both documents. -/

namespace Markup.SameSites

theorem eq_nil {ts : List Token} (h : SameSites [] ts) : ts = [] := by
  cases h
  rfl

theorem symm {ts ts' : List Token} (h : SameSites ts ts') : SameSites ts' ts := by
  induction h with
  | nil => exact .nil
  | same hk _ ih => exact .same hk ih
  | comment hk hk' hstart hstop hfirst hlast h ih =>
    refine .comment hk' hk hstart.symm hstop.symm hfirst.symm (hlast.imp ?_ And.symm) ih
    rintro rfl
    exact h.eq_nil

theorem exists_comment {ts ts' : List Token} (P : Nat → Nat → Prop) (h : SameSites ts ts')
    (ht : ∃ t ∈ ts, t.kind = .comment ∧ P t.start t.stop) :
    ∃ t ∈ ts', t.kind = .comment ∧ P t.start t.stop := by
  induction h with
  | nil => exact ht
  | @same u ts ts' hk _ ih =>
    obtain ⟨t, ht, hkt, hp⟩ := ht
    rcases List.mem_cons.mp ht with rfl | ht
    · exact absurd hkt hk
    · obtain ⟨t', ht', hrest⟩ := ih ⟨t, ht, hkt, hp⟩
      exact ⟨t', List.mem_cons_of_mem _ ht', hrest⟩
  | @comment u u' ts ts' _ hk' hstart hstop _ _ _ ih =>
    obtain ⟨t, ht, hkt, hp⟩ := ht
    rcases List.mem_cons.mp ht with rfl | ht
    · exact ⟨u', List.mem_cons_self, hk', by rw [hstart, hstop]; exact hp⟩
    · obtain ⟨t', ht', hrest⟩ := ih ⟨t, ht, hkt, hp⟩
      exact ⟨t', List.mem_cons_of_mem _ ht', hrest⟩

/-- **The same offsets are in comments.** -/
theorem isComment_eq {s s' : List Char} (h : SameSites (tokens s) (tokens s')) :
    isComment (tokens s).toArray = isComment (tokens s').toArray := by
  funext offset
  rw [Bool.eq_iff_iff, isComment_eq_true_iff (aligned_tokens s),
    isComment_eq_true_iff (aligned_tokens s')]
  exact ⟨h.exists_comment fun start stop => (start : Int) ≤ offset ∧ offset < (stop : Int),
    h.symm.exists_comment fun start stop => (start : Int) ≤ offset ∧ offset < (stop : Int)⟩

/-- The predicate holds of the offsets of comments among the tokens, and of no other offset
that a token covers. -/
def Marks (inert : Nat → Bool) (ts : List Token) : Prop :=
  ∀ t ∈ ts, ∀ k, t.start ≤ k → k < t.stop → (inert k = true ↔ t.kind = .comment)

theorem Marks.subset {inert : Nat → Bool} {ts us : List Token} (h : Marks inert ts)
    (hsub : us ⊆ ts) : Marks inert us :=
  fun t ht => h t (hsub ht)

theorem marks_tokens (s : List Char) :
    Marks (fun k => isComment (tokens s).toArray (k : Nat)) (tokens s) := by
  intro t ht k hlow hup
  rw [isComment_eq_true_iff (aligned_tokens s)]
  constructor
  · rintro ⟨u, hu, hk, hstart, hstop⟩
    -- only one token covers the offset
    rw [eq_of_overlap (tokens_pairwise s) ht hu (by omega) (by omega)]
    exact hk
  · intro hk
    exact ⟨t, ht, hk, by omega, by omega⟩

/-! ## §2. The hosts of both documents. -/

/-- Runs of data begin and end at the same tokens. -/
theorem runs {ts ts' : List Token} (h : SameSites ts ts') :
    SameSites (ts.takeWhile Token.isData) (ts'.takeWhile Token.isData)
      ∧ SameSites (ts.dropWhile Token.isData) (ts'.dropWhile Token.isData) := by
  induction h with
  | nil => exact ⟨.nil, .nil⟩
  | @same t ts ts' hk h ih =>
    by_cases hd : t.isData = true
    · rw [List.takeWhile_cons_of_pos hd, List.takeWhile_cons_of_pos hd,
        List.dropWhile_cons_of_pos hd, List.dropWhile_cons_of_pos hd]
      exact ⟨.same hk ih.1, ih.2⟩
    · rw [List.takeWhile_cons_of_neg hd, List.takeWhile_cons_of_neg hd,
        List.dropWhile_cons_of_neg hd, List.dropWhile_cons_of_neg hd]
      exact ⟨.nil, .same hk h⟩
  | @comment t t' ts ts' hk hk' hstart hstop hfirst hlast h ih =>
    have hd : t.isData = true := Token.isData_iff.mpr (Or.inr hk)
    have hd' : t'.isData = true := Token.isData_iff.mpr (Or.inr hk')
    rw [List.takeWhile_cons_of_pos hd, List.takeWhile_cons_of_pos hd',
      List.dropWhile_cons_of_pos hd, List.dropWhile_cons_of_pos hd']
    refine ⟨.comment hk hk' hstart hstop hfirst (hlast.imp_left ?_) ih.1, ih.2⟩
    rintro rfl
    rfl

/-- A list with a data token at its head is related to such a list only. -/
theorem exists_cons {t : Token} {more ts : List Token} (h : SameSites (t :: more) ts)
    (hd : t.isData = true) :
    ∃ t' more', ts = t' :: more' ∧ t'.isData = true ∧ t'.start = t.start := by
  cases h with
  | same hk h => exact ⟨_, _, rfl, hd, rfl⟩
  | comment hk hk' hstart hstop hfirst hlast h =>
    exact ⟨_, _, rfl, Token.isData_iff.mpr (Or.inr hk'), hstart⟩

/-- A token between angle brackets is set off from the tokens after it, and a last token needs
no bracket at its end. -/
theorem setOff {t : Token} {ts : List Token} (hfirst : t.text.head? = some '<')
    (hlast : ts = [] ∨ t.text.getLast? = some '>') :
    Scan.SetOff t.text (ts.flatMap Token.text) := by
  refine ⟨hfirst, fun hne c hc => ?_⟩
  rcases hlast with rfl | hlast
  · exact absurd rfl hne
  · rw [hlast] at hc
    exact (Option.some.inj hc).symm

/-- **The joined texts of adjacent tokens differ in inert stretches only.** -/
theorem sameLive {run run' : List Token} (h : SameSites run run') {inert : Nat → Bool}
    {base : Nat} :
    ∀ {offset : Nat}, Marks inert run → Exact run → Exact run' →
      (run.IsChain fun t u => t.stop = u.start) →
      (∀ t ∈ run.head?, t.start = base + offset) →
      Scan.SameLive (fun k => inert (base + k)) offset (run.flatMap Token.text)
        (run'.flatMap Token.text) := by
  induction h with
  | nil => intro offset _ _ _ _ _; exact .nil
  | @same t ts ts' hk h ih =>
    intro offset hm he he' hc hbegin
    obtain ⟨hfollow, hc⟩ := List.isChain_cons.mp hc
    have hstart : t.start = base + offset := hbegin t rfl
    have hstop := he t List.mem_cons_self
    rw [List.flatMap_cons, List.flatMap_cons]
    refine .append_live (fun k hk' => ?_) (ih (hm.subset (List.subset_cons_self _ _))
      (he.subset (List.subset_cons_self _ _))
      (he'.subset (List.subset_cons_self _ _)) hc fun u hu => ?_)
    · -- a token of another kind covers no inert offset
      rw [Bool.eq_false_iff]
      intro hi
      exact hk ((hm t List.mem_cons_self _ (by omega) (by omega)).mp hi)
    · rw [← hfollow u hu]
      omega
  | @comment t t' ts ts' hk hk' hstart' hstop' hfirst hlast h ih =>
    intro offset hm he he' hc hbegin
    obtain ⟨hfollow, hc⟩ := List.isChain_cons.mp hc
    have hstart : t.start = base + offset := hbegin t rfl
    have hstop := he t List.mem_cons_self
    have hlen := he' t' List.mem_cons_self
    rw [List.flatMap_cons, List.flatMap_cons]
    refine .stretch (by omega) (fun k hk' => ?_) (setOff hfirst.1 (hlast.imp_right And.left))
      (setOff hfirst.2 (hlast.imp ?_ And.right)) (ih (hm.subset (List.subset_cons_self _ _))
      (he.subset (List.subset_cons_self _ _))
      (he'.subset (List.subset_cons_self _ _)) hc fun u hu => ?_)
    · exact (hm t List.mem_cons_self _ (by omega) (by omega)).mpr hk
    · rintro rfl
      exact h.eq_nil
    · rw [← hfollow u hu]
      omega

end Markup.SameSites

/-- Two hosts at one place that are the same, or texts that differ in comments only. -/
inductive Markup.SameHost (inert : Nat → Bool) : Host → Host → Prop where
  | same (g : Host) : SameHost inert g g
  | text {start : Nat} {s s' : List Char}
      (h : Scan.SameLive (fun k => inert (start + k)) 0 s s') :
      SameHost inert ⟨.text, start, s⟩ ⟨.text, start, s'⟩

/-- **Tokens at the same sites have their hosts at the same places.** -/
theorem Markup.SameSites.hosts {inert : Nat → Bool} {ts : List Token} :
    ∀ {ts' : List Token} {lower : Nat} {inside : Bool}, SameSites ts ts' →
      Aligned lower inside ts → Exact ts → Exact ts' → SameSites.Marks inert ts →
      List.Forall₂ (SameHost inert) (hosts ts) (hosts ts') := by
  fun_induction Markup.hosts ts with
  | case1 =>
    intro ts' lower inside h _ _ _ _
    rw [h.eq_nil, Markup.hosts]
    exact .nil
  | case2 t more hd ih =>
    intro ts' lower inside h ha he he' hm
    obtain ⟨t', more', rfl, hd', hstart⟩ := h.exists_cons hd
    obtain ⟨hsplit, hdata, hadj, -⟩ := head_run hd ha he
    -- the runs of both lists end at the same token
    obtain ⟨hrun, hrest⟩ := h.runs
    rw [List.takeWhile_cons_of_pos hd, List.takeWhile_cons_of_pos hd'] at hrun
    rw [List.dropWhile_cons_of_pos hd, List.dropWhile_cons_of_pos hd'] at hrest
    have hsplit' : t' :: more'
        = (t' :: more'.takeWhile Token.isData) ++ more'.dropWhile Token.isData := by
      rw [List.cons_append, List.takeWhile_append_dropWhile]
    rw [hosts_cons_of_isData _ hd', hstart]
    rw [hsplit] at ha he hm
    rw [hsplit'] at he'
    obtain ⟨lower', inside', ha'⟩ := ha.append_right
    refine .cons (.text ?_) (ih hrest ha' (he.subset (List.subset_append_right _ _))
      (he'.subset (List.subset_append_right _ _))
      (hm.subset (List.subset_append_right _ _)))
    exact hrun.sameLive (hm.subset (List.subset_append_left _ _))
      (he.subset (List.subset_append_left _ _))
      (he'.subset (List.subset_append_left _ _)) hadj (by rintro u ⟨⟩; rfl)
  | case3 t more hd ih =>
    intro ts' lower inside h ha he he' hm
    cases h with
    | @same _ _ more' hk h =>
      have hrest := ih h ha.2.2.2 (he.subset (List.subset_cons_self _ _))
        (he'.subset (List.subset_cons_self _ _))
        (hm.subset (List.subset_cons_self _ _))
      rw [hosts_cons_of_not_isData _ (Bool.not_eq_true _ ▸ hd)]
      cases t.host? with
      | none => exact hrest
      | some g => exact .cons (.same g) hrest
    | comment hk hk' hstart hstop hfirst hlast h =>
      exact absurd (Token.isData_iff.mpr (Or.inr hk)) hd

/-! ## §3. The expressions of both documents. -/

/-- Where an expression is: its host's kind and attribute, and its region in the document. -/
def Injection.site (i : Injection) : HostKind × Option (List Char) × Region :=
  (i.host.kind, i.host.attribute?, i.absolute)

/-- No marker holds an angle bracket. -/
def Delimiters.NoAngles (d : Delimiters) : Prop :=
  ('<' ∉ d.opening.toList ∧ '>' ∉ d.opening.toList)
    ∧ ('<' ∉ d.closing.toList ∧ '>' ∉ d.closing.toList)

namespace Injector

theorem regions_of_sameHost {j : Injector} (hd : j.delimiters.NoAngles) {scans : Bool}
    {ts : Array Token} {g g' : Host}
    (h : SameHost (fun k => isComment ts (k : Nat)) g g') :
    j.regions scans ts g = j.regions scans ts g' := by
  cases h with
  | same => rfl
  | @text start s s' h =>
    have hscanned : j.scannedRegions ts ⟨.text, start, s⟩
        = j.scannedRegions ts ⟨.text, start, s'⟩ := h.regions_eq hd.1 hd.2
    unfold regions
    rw [hscanned]
    rfl

/-- **The expressions of both documents are at the same places.** -/
theorem map_site_injections {j : Injector} (hd : j.delimiters.NoAngles) {s s' : List Char}
    (h : Rewritten s s') (file : Option String) :
    (j.injections s file).map Injection.site = (j.injections s' file).map Injection.site := by
  have hsites := h.sameSites
  have hcomment := hsites.isComment_eq
  have hhosts := hsites.hosts (aligned_tokens s) (exact_tokens s) (exact_tokens s')
    (SameSites.marks_tokens s)
  have hhost : ∀ {scans : Bool} {g g' : Host},
      SameHost (fun k => isComment (tokens s).toArray (k : Nat)) g g' →
        (j.regions scans (tokens s).toArray g).map (fun r => Injection.site ⟨g, r, j.language⟩)
          = (j.regions scans (tokens s').toArray g').map
            fun r => Injection.site ⟨g', r, j.language⟩ := by
    intro scans g g' hg
    rw [regions_of_sameHost hd hg, regions_congr (g := g') (h := g') rfl rfl fun k _ =>
      congrFun hcomment _]
    cases hg <;> rfl
  unfold injections
  simp only [List.map_flatMap, List.map_map, Function.comp_def]
  generalize hosts (tokens s) = gs at hhosts
  generalize hosts (tokens s') = gs' at hhosts
  induction hhosts with
  | nil => rfl
  | cons hg _ ih => rw [List.flatMap_cons, List.flatMap_cons, hhost hg, ih]

end Injector

/-- **What stands in comments does not change where a project's expressions are**, whatever the
file, the registry and the project, when the delimiters hold no angle bracket.  They may hold
the dashes of a comment's marks. -/
theorem Project.sites_of_rewritten (p : Project) (tree : Entry) (j : Injector)
    (hd : j.delimiters.NoAngles) {s s' : List Char} (h : Rewritten s s')
    (file : Option String) :
    (p.injections tree j s file).1.map Injection.site
      = (p.injections tree j s' file).1.map Injection.site := by
  unfold Project.injections
  by_cases huses : (p.hasFramework tree).1 = true
  · simp only [huses, if_true]
    exact Injector.map_site_injections hd h file
  · simp only [huses]
    rfl

/-- A comment that opens an expression is rewritten to one that closes it. -/
theorem Project.sites_of_rewritten_openedComment :
    Rewritten "<!--\x7b\x7b-->\x7b\x7bx\x7d\x7d".toList "<!--\x7d\x7d-->\x7b\x7bx\x7d\x7d".toList
      ∧ Delimiters.standard.NoAngles
      ∧ ((⟨[], .default, [], ⟨"", [], []⟩, [], some true⟩ : Project).injections .empty
            ⟨.ofExtra [], .standard, "AngularJS"⟩
            "<!--\x7b\x7b-->\x7b\x7bx\x7d\x7d".toList none).1.map Injection.site
        = ((⟨[], .default, [], ⟨"", [], []⟩, [], some true⟩ : Project).injections .empty
            ⟨.ofExtra [], .standard, "AngularJS"⟩
            "<!--\x7d\x7d-->\x7b\x7bx\x7d\x7d".toList none).1.map Injection.site
      ∧ ((⟨[], .default, [], ⟨"", [], []⟩, [], some true⟩ : Project).injections .empty
            ⟨.ofExtra [], .standard, "AngularJS"⟩
            "<!--\x7b\x7b-->\x7b\x7bx\x7d\x7d".toList none).1.map Injection.site
        = [(.text, none, ⟨11, 12⟩)] := by
  have h : Rewritten "<!--\x7b\x7b-->\x7b\x7bx\x7d\x7d".toList
      "<!--\x7d\x7d-->\x7b\x7bx\x7d\x7d".toList := by decide +kernel
  have hd : Delimiters.standard.NoAngles := by unfold Delimiters.NoAngles; decide
  exact ⟨h, hd, Project.sites_of_rewritten _ _ _ hd h none, by decide +kernel⟩

end EmbeddedExpr
