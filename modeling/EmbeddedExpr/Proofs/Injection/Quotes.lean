/-
  EmbeddedExpr.Proofs.Injection.Quotes
  ────────────────────────────────────
  **EXPRESSIONS AND THE QUOTES OF THEIR VALUE.**

  An expression in a value between quotes never has the first quote.  It has the last one
  exactly when it was found by its opening marker and no closing marker follows in the value:
  such an expression goes on to the end of its host, and the quote is the end of it.

      InsideQuotes i  ↔  j.isWhole i.host ∨ closing <:+: i.host.text.drop i.region.start

  Comments have no part in this, since no offset of a value is in a comment.
-/
import EmbeddedExpr.Proofs.Injection.Comments
import EmbeddedExpr.Proofs.Injection.Values
import EmbeddedExpr.Proofs.Scan.Candidates
import EmbeddedExpr.Proofs.Scan.Embedding

namespace EmbeddedExpr

open Markup

/-! ## §1. Expressions of a text without inert offsets. -/

namespace Scan

/-- Where no offset is inert, a search stops before the end of the text exactly when the marker
occurs in what is left of it. -/
theorem searchStop_lt_iff (m : Marker) (w : List Char) (start : Nat) :
    searchStop m (fun _ => false) w start < w.length ↔ m.text <:+: w.drop start := by
  unfold searchStop
  rw [firstCounted?_eq rfl, live?_of_never]
  cases hcut : Text.cut? m.text (w.drop start) with
  | none =>
    show w.length < w.length ↔ _
    simp [Text.cut?_eq_none_iff.mp hcut]
  | some found =>
    obtain ⟨before, after⟩ := found
    show start + before.length < w.length ↔ _
    have hlen := Text.length_of_cut? hcut
    have hpos := Marker.length_pos m
    rw [List.length_drop] at hlen
    have hoccurs : m.text <:+: w.drop start :=
      ⟨before, after, (Text.eq_of_cut? hcut).symm⟩
    simp only [hoccurs, iff_true]
    omega

/-- **An expression of a text without inert offsets ends before the text does exactly when a
closing marker occurs after its start.**  Otherwise it ends with the text. -/
theorem stop_lt_iff_of_mem_regions {opening closing w : List Char} {r : Region}
    (hr : r ∈ regions opening closing (fun _ => false) w) :
    r.stop ≤ w.length
      ∧ (r.stop < w.length ↔ closing <:+: w.drop r.start.toNat) := by
  obtain ⟨o, c, rfl, rfl, hmem⟩ := exists_markers_of_mem_regions hr
  obtain ⟨start, hle, rfl⟩ := (scanned_candidates o c (fun _ => false) w).eq_searchStop r hmem
  have hstop := searchStop_lt_iff c w start
  have hbound : searchStop c (fun _ => false) w start ≤ w.length := by
    rcases (searchStop_here c (fun _ => false) hle).1 with hlive | hend
    · exact Nat.le_of_lt hlive.lt_length
    · exact Nat.le_of_eq hend
  refine ⟨Int.ofNat_le.mpr hbound, ?_⟩
  show ((searchStop c (fun _ => false) w start : Nat) : Int) < (w.length : Nat) ↔ _
  rw [Int.ofNat_lt]
  exact hstop

theorem eq_of_mem_quotedValue {s : List Char} {r : Region} (hr : r ∈ quotedValue s) :
    r = ⟨1, s.length - 1⟩ := by
  unfold quotedValue at hr
  split at hr
  · cases hr
  · exact List.mem_singleton.mp (List.mem_filter.mp hr).1

end Scan

/-! ## §2. Expressions of a quoted value. -/

/-- The host is a value between two quotes. -/
structure Markup.Host.Closed (h : Host) : Prop where
  quoted : h.isQuoted = true
  two : 1 < h.text.length
  ends : h.text.getLast? = h.text.head?

/-- The expression has neither the first nor the last character of its host. -/
def Injection.InsideQuotes (i : Injection) : Prop :=
  (i.host.start : Int) + 1 ≤ i.absolute.start ∧ i.absolute.stop ≤ (i.host.stop : Int) - 1

namespace Injector

variable {j : Injector} {s : List Char} {file : Option String} {i : Injection}

/-- No offset of a value is in a comment. -/
theorem isComment_of_value {g : Host} (hg : g ∈ hosts (tokens s)) (hk : g.kind ≠ .text) {k : Nat}
    (hlt : k < g.text.length) :
    isComment (tokens s).toArray ((g.start + k : Nat) : Int) = false := by
  cases (mem_hosts_iff (aligned_tokens s) (exact_tokens s)).mp hg with
  | run run hrun hkind htext => exact absurd hkind hk
  | value t ht hhost =>
    obtain ⟨hkind, hstart, htext⟩ := Token.eq_of_host? hhost
    have hstop := exact_tokens s t ht
    rw [htext] at hlt
    have hmarks := SameSites.marks_tokens s t ht (g.start + k) (by omega) (by omega)
    rw [hkind] at hmarks
    exact Bool.eq_false_iff.mpr fun hcomment => nomatch hmarks.mp hcomment

/-- The scan of a value finds what a scan without inert offsets finds. -/
theorem scannedRegions_of_value {g : Host} (hg : g ∈ hosts (tokens s)) (hk : g.kind ≠ .text) :
    j.scannedRegions (tokens s).toArray g
      = Scan.regions j.delimiters.opening.toList j.delimiters.closing.toList (fun _ => false)
          g.text := by
  unfold scannedRegions
  exact Scan.regions_congr fun k hlt => isComment_of_value hg hk hlt

/-- A value that is an expression as a whole is one without its quotes. -/
theorem insideQuotes_of_isWhole (hi : i ∈ j.injections s file) (hclosed : i.host.Closed)
    (hw : j.isWhole i.host = true) : i.InsideQuotes := by
  obtain ⟨hquoted, htwo, hends⟩ := hclosed
  have hr := (mem_injections hi).2
  rw [regions_of_isWhole hw] at hr
  have hregion : i.region ∈ Scan.quotedValue i.host.text := by
    have hr := (List.mem_filter.mp hr).1
    unfold wholeRegions at hr
    rw [hquoted, if_neg (by decide), if_neg (not_not.mpr hends)] at hr
    exact hr
  have hregion := Scan.eq_of_mem_quotedValue hregion
  have hend : i.host.stop = i.host.start + i.host.text.length := rfl
  unfold Injection.InsideQuotes Injection.absolute Region.shift
  rw [hregion]
  simp only
  omega

/-- An expression that was found by its markers begins after the first character of its value.
It ends before the last one if a closing marker follows, and with the value if none does. -/
theorem scanned_of_value (hi : i ∈ j.injections s file) (hk : i.host.kind ≠ .text)
    (hw : j.isWhole i.host = false) :
    (i.host.start : Int) + 1 ≤ i.absolute.start
    ∧ (i.absolute.stop < i.host.stop
        ↔ j.delimiters.closing.toList <:+: i.host.text.drop i.region.start.toNat)
    ∧ i.absolute.stop ≤ i.host.stop := by
  obtain ⟨hh, hr⟩ := mem_injections hi
  have hstart : i.absolute.start = i.region.start + i.host.start := rfl
  have hstop : i.absolute.stop = i.region.stop + i.host.start := rfl
  have hend : i.host.stop = i.host.start + i.host.text.length := rfl
  have hr := (List.mem_filter.mp hr).1
  rw [if_neg (Bool.eq_false_iff.mp hw)] at hr
  split at hr
  · rw [scannedRegions_of_value hh hk] at hr
    have hlow := Scan.one_le_start_of_mem_regions hr
    obtain ⟨hle, hiff⟩ := Scan.stop_lt_iff_of_mem_regions hr
    rw [← hiff]
    omega
  · cases hr

end Injector

namespace Project

/-- **An expression in a value between quotes is inside of them when it is the value as a whole,
or a closing marker occurs after its start, and in no other case.**  It always begins after the
first quote, and ends with its host when it is not inside. -/
theorem insideQuotes_iff (p : Project) (tree : Entry) (j : Injector) (s : List Char)
    (file : Option String) (i : Injection) (hi : i ∈ (p.injections tree j s file).1)
    (hclosed : i.host.Closed) :
    (i.host.start : Int) + 1 ≤ i.absolute.start
    ∧ (i.InsideQuotes ↔ j.isWhole i.host = true
        ∨ j.delimiters.closing.toList <:+: i.host.text.drop i.region.start.toNat)
    ∧ (¬ i.InsideQuotes → i.absolute.stop = i.host.stop) := by
  have hi : i ∈ j.injections s file := by
    cases huses : (p.hasFramework tree).1 with
    | true => simpa [injections, huses] using hi
    | false => simp [injections, huses] at hi
  have hk : i.host.kind ≠ .text := by
    intro hk
    have hquoted := hclosed.quoted
    rw [Host.isQuoted, hk] at hquoted
    cases hquoted
  cases hw : j.isWhole i.host with
  | true =>
    have hin := Injector.insideQuotes_of_isWhole hi hclosed hw
    exact ⟨hin.1, iff_of_true hin (Or.inl rfl), fun hout => absurd hin hout⟩
  | false =>
    obtain ⟨hlow, hiff, hle⟩ := Injector.scanned_of_value hi hk hw
    rw [← hiff, Injection.InsideQuotes]
    simp only [Bool.false_eq_true, false_or]
    omega

/-- Of two expressions in one value the second one is not closed. -/
theorem insideQuotes_iff_unclosed :
    ∃ i i' : Injection, i.host.Closed ∧ i.InsideQuotes
      ∧ i'.host.Closed ∧ i'.absolute.stop = i'.host.stop
      ∧ ((⟨[], .default, [], ⟨"", [], []⟩, [], some true⟩ : Project).injections .empty
          ⟨.ofExtra [], .standard, "AngularJS"⟩
          "<a title=\x22\x7b\x7bb\x7d\x7d \x7b\x7bc\x22>".toList none).1 = [i, i'] := by
  have hclosed : (⟨.attribute "title".toList true, 9,
      "\x22\x7b\x7bb\x7d\x7d \x7b\x7bc\x22".toList⟩ : Host).Closed := ⟨rfl, by decide, rfl⟩
  have hinj : ((⟨[], .default, [], ⟨"", [], []⟩, [], some true⟩ : Project).injections .empty
      ⟨.ofExtra [], .standard, "AngularJS"⟩
      "<a title=\x22\x7b\x7bb\x7d\x7d \x7b\x7bc\x22>".toList none).1
        = [⟨⟨.attribute "title".toList true, 9,
            "\x22\x7b\x7bb\x7d\x7d \x7b\x7bc\x22".toList⟩, ⟨3, 4⟩, "AngularJS"⟩,
          ⟨⟨.attribute "title".toList true, 9,
            "\x22\x7b\x7bb\x7d\x7d \x7b\x7bc\x22".toList⟩, ⟨9, 11⟩, "AngularJS"⟩] := by
    decide +kernel
  have hiff := insideQuotes_iff ⟨[], .default, [], ⟨"", [], []⟩, [], some true⟩ .empty
    ⟨.ofExtra [], .standard, "AngularJS"⟩ "<a title=\x22\x7b\x7bb\x7d\x7d \x7b\x7bc\x22>".toList none
  rw [hinj] at hiff
  refine ⟨_, _, hclosed, ?_, hclosed, ?_, hinj⟩
  · exact (hiff _ List.mem_cons_self hclosed).2.1.mpr (Or.inr (by decide +kernel))
  · exact (hiff _ (List.mem_cons_of_mem _ List.mem_cons_self) hclosed).2.2
      fun hin => absurd hin.2 (by decide)

/-- The last quote of a value is part of an expression that is not closed in it. -/
theorem exists_not_insideQuotes :
    ¬ ∀ (p : Project) (tree : Entry) (j : Injector) (s : List Char) (file : Option String)
        (i : Injection), (p.hasFramework tree).1 = true → i ∈ (p.injections tree j s file).1 →
      i.host.Closed → i.InsideQuotes := by
  intro h
  have hin := h ⟨[], .default, [], ⟨"", [], []⟩, [], some true⟩ .empty
    ⟨.ofExtra [], .standard, "AngularJS"⟩ "<a title=\x22\x7b\x7bb\x22>".toList (some "index.html")
    ⟨⟨.attribute "title".toList true, 9, "\x22\x7b\x7bb\x22".toList⟩, ⟨3, 5⟩, "AngularJS"⟩
    rfl (by decide +kernel) ⟨rfl, by decide, rfl⟩
  exact absurd hin.2 (by decide)

end Project

end EmbeddedExpr
