/-
  EmbeddedExpr.Proofs.Injection.Cutting
  ─────────────────────────────────────
  **EXPRESSIONS ARE FOUND ON EITHER SIDE OF A CUT BY ITSELF.**

  A document may be cut where a section, a declaration, an instruction or a tag ends.  The
  expressions of the document are those of its first part, and those of its rest at their
  places in the document:

      CutsAt s n  →  injections s = injections (s.take n) ++ (injections (s.drop n)).map (·.shift n)

  The end of a comment is no such place, since a host goes on across it.  The tokens come
  apart at the cut, so hosts do; and whether an offset is in a comment is told by the tokens
  of its own side.
-/
import EmbeddedExpr.Project.Expressions
import EmbeddedExpr.Proofs.Markup.Cutting
import EmbeddedExpr.Proofs.Markup.Host
import EmbeddedExpr.Proofs.Markup.Lookup
import EmbeddedExpr.Proofs.Scan.Order

namespace EmbeddedExpr

open Markup

/-! ## §1. Tokens further on. -/

namespace Markup

/-- The host in a document that stands after `n` more characters. -/
def Host.shift (h : Host) (n : Nat) : Host := { h with start := n + h.start }

theorem Token.host?_shift (t : Token) (n : Nat) :
    (t.shift n).host? = t.host?.map fun h => h.shift n := by
  cases hk : t.kind <;> simp only [Token.host?, Token.shift, hk] <;> rfl

/-- **Hosts move with their tokens.** -/
theorem hosts_map_shift (n : Nat) (ts : List Token) :
    hosts (ts.map fun t => t.shift n) = (hosts ts).map fun h => h.shift n := by
  fun_induction hosts ts with
  | case1 => rw [List.map_nil, hosts, List.map_nil]
  | case2 t more hd ih =>
    have hd' : (t.shift n).isData = true := hd
    have htake : (more.map fun t => t.shift n).takeWhile Token.isData
        = (more.takeWhile Token.isData).map fun t => t.shift n := List.takeWhile_map
    have hdrop : (more.map fun t => t.shift n).dropWhile Token.isData
        = (more.dropWhile Token.isData).map fun t => t.shift n := List.dropWhile_map
    rw [List.map_cons, hosts_cons_of_isData _ hd', htake, hdrop, ih, List.flatMap_map]
    rfl
  | case3 t more hd ih =>
    have hd' : (t.shift n).isData = false := Bool.not_eq_true _ ▸ hd
    rw [List.map_cons, hosts_cons_of_not_isData _ hd', ih,
      Token.host?_shift, List.map_append]
    cases t.host? <;> rfl

/-- Before the second part of the tokens, comments are those of the first part. -/
theorem isComment_append_of_lt {xs ys : List Token} {n : Nat} {offset : Int}
    (hall : Aligned 0 false (xs ++ ys)) (hx : Aligned 0 false xs) (hy : ∀ t ∈ ys, n ≤ t.start)
    (ho : offset < n) : isComment (xs ++ ys).toArray offset = isComment xs.toArray offset := by
  rw [Bool.eq_iff_iff, isComment_eq_true_iff hall, isComment_eq_true_iff hx]
  constructor
  · rintro ⟨t, ht, hk, hstart, hstop⟩
    rcases List.mem_append.mp ht with ht | ht
    · exact ⟨t, ht, hk, hstart, hstop⟩
    · have := hy t ht
      omega
  · rintro ⟨t, ht, hcov⟩
    exact ⟨t, List.mem_append_left _ ht, hcov⟩

/-- After the first part of the tokens, comments are those of the second part, moved. -/
theorem isComment_append_shift {xs ys : List Token} {n k : Nat}
    (hall : Aligned 0 false (xs ++ ys.map fun t => t.shift n)) (hx : ∀ t ∈ xs, t.stop ≤ n)
    (hy : Aligned 0 false ys) :
    isComment (xs ++ ys.map fun t => t.shift n).toArray (n + k : Nat)
      = isComment ys.toArray (k : Nat) := by
  rw [Bool.eq_iff_iff, isComment_eq_true_iff hall, isComment_eq_true_iff hy]
  constructor
  · rintro ⟨t, ht, hk, hstart, hstop⟩
    rcases List.mem_append.mp ht with ht | ht
    · have := hx t ht
      omega
    · obtain ⟨u, hu, rfl⟩ := List.mem_map.mp ht
      refine ⟨u, hu, hk, ?_, ?_⟩
      · simp only [Token.shift] at hstart
        omega
      · simp only [Token.shift] at hstop
        omega
  · rintro ⟨t, ht, hk, hstart, hstop⟩
    refine ⟨t.shift n, List.mem_append_right _ (List.mem_map_of_mem ht), hk, ?_, ?_⟩
    · simp only [Token.shift]
      omega
    · simp only [Token.shift]
      omega

end Markup

/-! ## §2. Where a document may be cut. -/

/-- A construct with an end mark ends at the offset, and it is no comment.  The angle bracket
that ends the opening tag of a raw element is no such place, since the raw contents belong to
the tag. -/
def CutsAt (s : List Char) (n : Nat) : Prop :=
  ∃ before t after, tokens s = before ++ t :: after ∧ t.stop = n
    ∧ t.kind ≠ .comment ∧ EndsConstruct before t

/-- **Tokens and hosts come apart at a cut.** -/
theorem CutsAt.tokens_hosts {s : List Char} {n : Nat} (h : CutsAt s n) :
    n ≤ s.length
      ∧ tokens s = tokens (s.take n) ++ (tokens (s.drop n)).map (fun t => t.shift n)
      ∧ hosts (tokens s)
        = hosts (tokens (s.take n)) ++ (hosts (tokens (s.drop n))).map fun g => g.shift n := by
  obtain ⟨before, t, after, htokens, rfl, hcomment, he⟩ := h
  obtain ⟨hfirst, hall⟩ := tokens_of_endsConstruct htokens he
  have hmem : t ∈ tokens s := htokens ▸ List.mem_append_right _ List.mem_cons_self
  refine ⟨stop_le_length hmem, hall, ?_⟩
  -- the first part ends with `t`, which is no data, so no host goes on
  rw [hall, hosts_append, hosts_map_shift]
  intro u hu
  rw [hfirst, List.getLast?_concat, Option.mem_some] at hu
  rw [← hu, Bool.eq_false_iff]
  intro hdata
  rcases Token.isData_iff.mp hdata with hk | hk
  · exact he.kind_ne.1 hk
  · exact hcomment hk

/-! ## §3. Expressions on either side. -/

namespace Injection

/-- The expression in a document that stands after `n` more characters. -/
def shift (i : Injection) (n : Nat) : Injection := { i with host := i.host.shift n }

@[simp] theorem text_shift (i : Injection) (n : Nat) : (i.shift n).text = i.text := rfl

@[simp] theorem absolute_shift (i : Injection) (n : Nat) :
    (i.shift n).absolute = i.absolute.shift n := by
  simp only [absolute, shift, Host.shift, Region.shift, Region.mk.injEq]
  omega

end Injection

namespace Injector

/-- The regions of a host depend on its kind, its text, and the comments in it. -/
theorem regions_congr {j : Injector} {scans : Bool} {ts us : Array Token} {g h : Host}
    (hkind : g.kind = h.kind) (htext : g.text = h.text)
    (hc : ∀ k < h.text.length,
      isComment ts (g.start + k : Nat) = isComment us (h.start + k : Nat)) :
    j.regions scans ts g = j.regions scans us h := by
  have hquoted : g.isQuoted = h.isQuoted := by
    simp only [Host.isQuoted, hkind]
  have hwhole : j.isWhole g = j.isWhole h := by
    simp only [isWhole, hkind, htext]
  have hregions : wholeRegions g = wholeRegions h := by
    simp only [wholeRegions, hquoted, htext]
  have hscanned : j.scannedRegions ts g = j.scannedRegions us h := by
    unfold scannedRegions
    rw [htext]
    exact Scan.regions_congr hc
  unfold regions
  rw [hwhole, hregions, hscanned]

/-- **The expressions of a document are those of its two parts.** -/
theorem injections_append (j : Injector) {s : List Char} {n : Nat} (h : CutsAt s n)
    (file : Option String) :
    j.injections s file
      = j.injections (s.take n) file ++ (j.injections (s.drop n) file).map fun i => i.shift n := by
  obtain ⟨hn, htokens, hhosts⟩ := h.tokens_hosts
  -- tokens of the first part end at the cut or before, and those of the rest begin after it
  have hall := aligned_tokens s
  rw [htokens] at hall
  have hstop : ∀ t ∈ tokens (s.take n), t.stop ≤ n := by
    intro t ht
    have := stop_le_length ht
    rw [List.length_take] at this
    omega
  have hstart : ∀ t ∈ (tokens (s.drop n)).map (fun t => t.shift n), n ≤ t.start := by
    intro t ht
    obtain ⟨u, -, rfl⟩ := List.mem_map.mp ht
    exact Nat.le_add_right n u.start
  unfold injections
  simp only [hhosts]
  rw [List.flatMap_append, List.flatMap_map, List.map_flatMap, htokens]
  congr 1
  · -- a host of the first part ends before the cut
    refine List.flatMap_congr fun g hg => ?_
    congr 1
    refine regions_congr rfl rfl fun k hk => ?_
    have hup := (text_eq_of_mem_hosts hg).2
    rw [List.length_take] at hup
    refine isComment_append_of_lt hall (aligned_tokens _) hstart ?_
    simp only [Host.stop] at hup
    omega
  · -- an offset of the rest is looked up past all tokens of the first part
    refine List.flatMap_congr fun g hg => ?_
    rw [List.map_map]
    have hregions : ∀ scans, j.regions scans
        (tokens (s.take n) ++ (tokens (s.drop n)).map fun t => t.shift n).toArray (g.shift n)
          = j.regions scans (tokens (s.drop n)).toArray g := by
      intro scans
      refine regions_congr rfl rfl fun k hk => ?_
      show isComment _ (n + g.start + k : Nat) = _
      rw [Nat.add_assoc]
      exact isComment_append_shift hall hstop (aligned_tokens _)
    rw [hregions]
    rfl

end Injector

/-- **The expressions of a project's document are those of its two parts**, whatever the file,
the delimiters, the registry and the project. -/
theorem Project.injections_of_cutsAt (p : Project) (tree : Entry) (j : Injector) {s : List Char}
    {n : Nat} (h : CutsAt s n) (file : Option String) :
    (p.injections tree j s file).1
      = (p.injections tree j (s.take n) file).1
        ++ (p.injections tree j (s.drop n) file).1.map fun i => i.shift n := by
  unfold Project.injections
  by_cases huses : (p.hasFramework tree).1 = true
  · simp only [huses, if_true]
    exact j.injections_append h file
  · simp only [huses]
    rfl

/-- Two expressions, one inside of an element and one after it. -/
theorem Project.injections_of_cutsAt_element :
    CutsAt "<b>\x7b\x7bx\x7d\x7d</b>\x7b\x7by\x7d\x7d".toList 12
      ∧ ((⟨[], .default, [], ⟨"", [], []⟩, [], some true⟩ : Project).injections .empty
            ⟨.ofExtra [], .standard, "AngularJS"⟩
            "<b>\x7b\x7bx\x7d\x7d</b>\x7b\x7by\x7d\x7d".toList none).1
        = ((⟨[], .default, [], ⟨"", [], []⟩, [], some true⟩ : Project).injections .empty
              ⟨.ofExtra [], .standard, "AngularJS"⟩
              ("<b>\x7b\x7bx\x7d\x7d</b>\x7b\x7by\x7d\x7d".toList.take 12) none).1
          ++ ((⟨[], .default, [], ⟨"", [], []⟩, [], some true⟩ : Project).injections .empty
              ⟨.ofExtra [], .standard, "AngularJS"⟩
              ("<b>\x7b\x7bx\x7d\x7d</b>\x7b\x7by\x7d\x7d".toList.drop 12) none).1.map
                (fun i => i.shift 12)
      ∧ ((⟨[], .default, [], ⟨"", [], []⟩, [], some true⟩ : Project).injections .empty
            ⟨.ofExtra [], .standard, "AngularJS"⟩
            "<b>\x7b\x7bx\x7d\x7d</b>\x7b\x7by\x7d\x7d".toList none).1.map
              (fun i => (i.text, i.absolute))
        = [(['x'], ⟨5, 6⟩), (['y'], ⟨14, 15⟩)] := by
  have hcut : CutsAt "<b>\x7b\x7bx\x7d\x7d</b>\x7b\x7by\x7d\x7d".toList 12 :=
    ⟨(tokens "<b>\x7b\x7bx\x7d\x7d</b>\x7b\x7by\x7d\x7d".toList).take 4,
      ⟨.tagEnd, 11, 12, ['>'], none⟩,
      (tokens "<b>\x7b\x7bx\x7d\x7d</b>\x7b\x7by\x7d\x7d".toList).drop 5,
      by decide +kernel, rfl, by decide, by decide +kernel⟩
  exact ⟨hcut, Project.injections_of_cutsAt _ _ _ hcut none, by decide +kernel⟩

end EmbeddedExpr
