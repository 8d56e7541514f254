/-
  EmbeddedExpr.Proofs.Injection.Markers
  ─────────────────────────────────────
  **MARKERS AND COMMENTS.**

  A scanned expression stands between markers that begin outside of comments, and a pair of
  delimiters is accepted only when neither of its markers holds the mark of a comment.  So a
  marker goes on into a comment only when it ends with the beginning of that mark
  (`endsInto_of_covers`).  When neither does, no marker has a character of a comment, and no
  expression begins inside of one (`outsideComments_of_mem_injections`).

  An accepted pair may end so: `accepted_straddling` has an expression that begins in the
  middle of a comment's mark.
-/
import EmbeddedExpr.Proofs.Injection.Placement
import EmbeddedExpr.Proofs.Markup.Comments
import EmbeddedExpr.Proofs.Markup.Lookup
import EmbeddedExpr.Proofs.Scan.Marker

namespace EmbeddedExpr

open Markup Text

/-! ## §1. Accepted delimiters. -/

theorem DocumentSyntax.markupComment_mem_ofFile (file : Option String) :
    markupComment ∈ (ofFile file).comments := by
  cases file with
  | none => exact List.mem_cons_self
  | some name =>
    unfold ofFile ofExtension
    simp only
    split
    · exact List.mem_cons_self
    · split
      · exact List.mem_cons_self
      · split <;> exact List.mem_cons_self

theorem Delimiters.not_infix_of_overlaps {a b : String} (h : overlaps a b = false) :
    ¬ b.toList <:+: a.toList := by
  have h := (Bool.or_eq_false_iff.mp h).2
  exact cut?_eq_none_iff.mp (Option.not_isSome_iff_eq_none.mp (Bool.eq_false_iff.mp h))

/-- Markers of an accepted pair do not hold the mark of a comment. -/
theorem Delimiters.not_infix_of_accepted {d : Delimiters} {file : Option String}
    (h : d.conflictsIn file = false) :
    ¬ commentMark <:+: d.opening.toList ∧ ¬ commentMark <:+: d.closing.toList := by
  unfold conflictsIn conflicts at h
  simp only [Bool.or_eq_false_iff] at h
  obtain ⟨⟨-, hcomments⟩, -⟩ := h
  have hmeets := Bool.eq_false_iff.mpr fun hmeets => Bool.eq_false_iff.mp hcomments
    (List.any_eq_true.mpr ⟨_, DocumentSyntax.markupComment_mem_ofFile file, hmeets⟩)
  simp only [meetsComment, Bool.or_eq_false_iff] at hmeets
  exact ⟨not_infix_of_overlaps hmeets.1.1.1, not_infix_of_overlaps hmeets.1.2⟩

/-! ## §2. Markers in a document. -/

/-- **A marker that begins outside of the comments and goes on into one ends with the beginning
of a comment's mark**, unless it holds that mark. -/
theorem endsInto_of_covers {s m : List Char} {a k : Nat} (hm : m <+: s.drop a)
    (hlive : isComment (tokens s).toArray (a : Nat) = false)
    (hpart : ¬ commentMark <:+: m) {t : Token} (ht : t ∈ tokens s) (hk : t.kind = .comment)
    (hcov : t.Covers k) (hlow : a ≤ k) (hup : k < a + m.length) :
    endsInto m commentMark = true := by
  obtain ⟨hfrom, hto⟩ := hcov
  have hstart : a ≤ t.start := by
    refine Nat.not_lt.mp fun hlt => Bool.eq_false_iff.mp hlive ?_
    exact (isComment_eq_true_iff (aligned_tokens s)).mpr ⟨t, ht, hk, by omega, by omega⟩
  have hreach : t.start < a + m.length := Nat.lt_of_le_of_lt hfrom hup
  exact (endsInto_of_overlap hm (commentMark_prefix_drop ht hk) hstart hreach).resolve_left hpart

/-- No offset of the marker that stands at `a` belongs to a comment. -/
def ClearOfComments (s m : List Char) (a : Nat) : Prop :=
  ∀ t ∈ tokens s, t.kind = .comment → ∀ k, a ≤ k → k < a + m.length → ¬ t.Covers k

theorem clearOfComments_of_live {s m : List Char} {a : Nat} (hm : m <+: s.drop a)
    (hlive : isComment (tokens s).toArray (a : Nat) = false) (hpart : ¬ commentMark <:+: m)
    (hends : endsInto m commentMark = false) : ClearOfComments s m a := by
  intro t ht hk k hlow hup hcov
  rw [endsInto_of_covers hm hlive hpart ht hk hcov hlow hup] at hends
  cases hends

/-- The markers of an expression stand outside of the document's comments. -/
structure OutsideComments (d : Delimiters) (s : List Char) (i : Injection) : Prop where
  opened : ∃ a : Nat, i.absolute.start = (a + d.opening.toList.length : Nat)
    ∧ d.opening.toList <+: s.drop a ∧ ClearOfComments s d.opening.toList a
  /-- An expression without a closing marker ends with its host. -/
  closed : i.absolute.stop = i.host.stop ∨ ∃ b : Nat, i.absolute.stop = (b : Nat)
    ∧ d.closing.toList <+: s.drop b ∧ ClearOfComments s d.closing.toList b
  /-- The expression does not begin strictly inside of a comment. -/
  start : ∀ t ∈ tokens s, t.kind = .comment →
    ¬ ((t.start : Int) < i.absolute.start ∧ i.absolute.start < t.stop)

namespace Injector

variable {j : Injector} {s : List Char} {file : Option String} {i : Injection}

/-- The expressions of a document that are no whole hosts stand between live markers. -/
theorem delimited_of_mem_injections (hi : i ∈ j.injections s file)
    (hscanned : j.isWhole i.host = false) :
    Scan.Delimited j.delimiters.opening.toList j.delimiters.closing.toList
      (fun k => isComment (tokens s).toArray (k : Nat)) i.host.stop s i.absolute := by
  obtain ⟨hh, hr⟩ := mem_injections hi
  obtain ⟨htext, hstop⟩ := text_eq_of_mem_hosts hh
  have hr := (List.mem_filter.mp hr).1
  rw [if_neg (Bool.eq_false_iff.mp hscanned)] at hr
  split at hr
  · have h := Scan.delimited_of_mem_regions hr
    rw [htext] at h
    exact h.shift (Nat.le_add_right _ _) hstop
  · cases hr

/-- **The markers of scanned expressions stand outside of comments**, whatever the document and
the file, when the delimiters are accepted and neither marker ends with the beginning of a
comment's mark. -/
theorem outsideComments_of_mem_injections (hok : j.delimiters.conflictsIn file = false)
    (hopening : endsInto j.delimiters.opening.toList commentMark = false)
    (hclosing : endsInto j.delimiters.closing.toList commentMark = false)
    (hi : i ∈ j.injections s file) (hscanned : j.isWhole i.host = false) :
    OutsideComments j.delimiters s i := by
  obtain ⟨hopen, hclose⟩ := Delimiters.not_infix_of_accepted hok
  obtain ⟨⟨a, hstart, hlive, hmark⟩, hclosed⟩ := delimited_of_mem_injections hi hscanned
  have hclear := clearOfComments_of_live hmark hlive hopen hopening
  refine ⟨⟨a, hstart, hmark, hclear⟩, ?_, ?_⟩
  · refine hclosed.imp_right ?_
    rintro ⟨b, hstop, hlive', hmark'⟩
    exact ⟨b, hstop, hmark', clearOfComments_of_live hmark' hlive' hclose hclosing⟩
  · -- the character before the expression is the last one of the opening marker
    rintro t ht hk ⟨hlow, hup⟩
    rw [hstart] at hlow hup
    rcases Nat.eq_zero_or_pos j.delimiters.opening.toList.length with hzero | hpos
    · refine Bool.eq_false_iff.mp hlive ?_
      exact (isComment_eq_true_iff (aligned_tokens s)).mpr ⟨t, ht, hk, by omega, by omega⟩
    · exact hclear t ht hk (a + j.delimiters.opening.toList.length - 1) (by omega) (by omega)
        ⟨by omega, by omega⟩

/-- An expression before a comment that opens another one. -/
theorem outsideComments_of_mem_injections_standard :
    ∃ i, i ∈ (⟨.ofExtra [], .standard, "AngularJS"⟩ : Injector).injections
        "\x7b\x7ba\x7d\x7d<!--\x7b\x7b-->".toList (some "index.html")
      ∧ OutsideComments .standard "\x7b\x7ba\x7d\x7d<!--\x7b\x7b-->".toList i := by
  have hi : (⟨⟨.text, 0, "\x7b\x7ba\x7d\x7d<!--\x7b\x7b-->".toList⟩, ⟨2, 3⟩, "AngularJS"⟩
      : Injection) ∈ (⟨.ofExtra [], .standard, "AngularJS"⟩ : Injector).injections
        "\x7b\x7ba\x7d\x7d<!--\x7b\x7b-->".toList (some "index.html") := by decide +kernel
  exact ⟨_, hi, outsideComments_of_mem_injections (j := ⟨.ofExtra [], .standard, "AngularJS"⟩)
    (by decide +kernel) (by decide) (by decide) hi rfl⟩

/-- A pair whose opening marker goes on into a comment is accepted. -/
theorem accepted_straddling :
    (⟨"[<", ">]"⟩ : Delimiters).conflictsIn (some "index.html") = false
      ∧ ∃ i ∈ (⟨.ofExtra [], ⟨"[<", ">]"⟩, "AngularJS"⟩ : Injector).injections
          "a [<!-- b --> c".toList (some "index.html"),
        ∃ t ∈ tokens "a [<!-- b --> c".toList, t.kind = .comment
          ∧ (t.start : Int) < i.absolute.start ∧ i.absolute.start < t.stop := by
  decide +kernel

end Injector

end EmbeddedExpr
