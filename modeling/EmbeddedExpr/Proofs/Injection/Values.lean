/-
  EmbeddedExpr.Proofs.Injection.Values
  ────────────────────────────────────
  **THE VALUES OF EXPRESSION ATTRIBUTES.**

  The expression that a value is as a whole is told by the value alone:

      without quotes                     all of it
      between quotes                     what stands between them, if anything does
      after a quote that is not closed   what follows the quote, if anything does

  So the expressions in the values of expression attributes are one for each token whose value
  is an expression, in order.  The delimiters and the file have no part in it, although a lone
  quote is scanned like any other host (`Project.filter_injections_isExpression`).
-/
import EmbeddedExpr.Proofs.Injection.Placement
import EmbeddedExpr.Proofs.Markup.Value
import EmbeddedExpr.Proofs.Scan.Marker

namespace EmbeddedExpr

open Markup

/-! ## §1. The expression that a value is. -/

namespace Markup

namespace Value

/-- The place of the characters that follow the first quote, if there are any. -/
def afterQuote? (body : List Char) : Option Region :=
  if body = [] then none else some ⟨1, (1 + body.length : Nat)⟩

/-- The place in a value of the expression that it is as a whole. -/
def expression? : Value → Option Region
  | plain text => some ⟨0, text.length⟩
  | closed _ body => afterQuote? body
  | unclosed _ body => afterQuote? body

/-- The host that the value is, of the named attribute and at a place. -/
def host (v : Value) (name : List Char) (start : Nat) : Host :=
  ⟨.attribute name (startsQuoted v.text), start, v.text⟩

end Value

/-- The host is the value of an expression attribute. -/
def Host.isExpression (registry : Attribute.Registry) (h : Host) : Bool :=
  h.attribute?.any registry.isExpression

/-- The expression that the token is as the value of an expression attribute. -/
def wholeInjection? (registry : Attribute.Registry) (language : String) (t : Token) :
    Option Injection :=
  match t.host? with
  | none => none
  | some h =>
    if h.isExpression registry then
      (Value.ofText t.text).expression?.map fun r => ⟨h, r, language⟩
    else none

/-! ## §2. Hosts that are values. -/

/-- The host that a token is by itself is its value. -/
theorem Token.eq_host_of_host? {t : Token} {g : Host} (h : t.host? = some g) :
    t.kind = .attrValue ∧ g = (Value.ofText t.text).host (t.name.getD []) t.start := by
  refine ⟨(Token.eq_of_host? h).1, ?_⟩
  unfold Token.host? at h
  split at h
  · rw [← Option.some.inj h, Value.host, Value.text_ofText]
  · cases h

end Markup

/-! ## §3. The regions of a value. -/

/-- A text of one character has no delimited expression. -/
theorem Scan.regions_of_length_le_one {opening closing s : List Char} {inert : Nat → Bool}
    (hs : s.length ≤ 1) : regions opening closing inert s = [] := by
  refine List.eq_nil_iff_forall_not_mem.mpr fun r hr => ?_
  have hne := (List.mem_filter.mp hr).2
  obtain ⟨-, -, hup⟩ := (spread_regions opening closing inert s).bounds hr
  have hlow := one_le_start_of_mem_regions hr
  simp only [Region.isEmpty, Bool.not_eq_true', decide_eq_false_iff_not] at hne
  omega

namespace Injector

theorem filter_afterQuote (body : List Char) :
    ([⟨1, (1 + body.length : Nat)⟩] : List Region).filter (fun r => !r.isEmpty)
      = (Value.afterQuote? body).toList := by
  cases body with
  | nil => rfl
  | cons c more =>
    refine List.filter_cons_of_pos ?_
    simp only [Region.isEmpty, List.length_cons, Bool.not_eq_true', decide_eq_false_iff_not]
    omega

theorem regions_of_isWhole {j : Injector} {h : Host} (hw : j.isWhole h = true) (scans : Bool)
    (ts : Array Token) : j.regions scans ts h = (wholeRegions h).filter fun r => !r.isEmpty := by
  unfold regions
  rw [if_pos hw]

section Value

variable {j : Injector} {name : List Char} (hname : j.registry.isExpression name = true)
  (scans : Bool) (ts : Array Token) (start : Nat)

include hname

theorem regions_plain {text : List Char} (hne : text ≠ []) (hquoted : startsQuoted text = false) :
    j.regions scans ts ((Value.plain text).host name start) = [⟨0, text.length⟩] := by
  have hpos := List.length_pos_iff.mpr hne
  have hwhole : j.isWhole ((Value.plain text).host name start) = true := by
    simp [isWhole, Value.host, Value.text, hname, hquoted]
  have hregions : wholeRegions ((Value.plain text).host name start) = [⟨0, text.length⟩] := by
    simp [wholeRegions, Host.isQuoted, Value.host, Value.text, hquoted]
  rw [regions_of_isWhole hwhole, hregions]
  refine List.filter_cons_of_pos ?_
  simp only [Region.isEmpty, Bool.not_eq_true', decide_eq_false_iff_not]
  omega

theorem regions_closed {quote : Char} (hquote : isQuote quote = true) (body : List Char) :
    j.regions scans ts ((Value.closed quote body).host name start)
      = (Value.afterQuote? body).toList := by
  have hquoted : startsQuoted (Value.closed quote body).text = true := hquote
  have hlen : (Value.closed quote body).text.length = body.length + 2 := by
    simp [Value.text]
  have hends : (Value.closed quote body).text.getLast?
      = (Value.closed quote body).text.head? := by
    show (quote :: body ++ [quote]).getLast? = some quote
    exact List.getLast?_concat ..
  have hwhole : j.isWhole ((Value.closed quote body).host name start) = true := by
    simp [isWhole, Value.host, Value.text, hname]
  have hregions : wholeRegions ((Value.closed quote body).host name start)
      = ([⟨1, (1 + body.length : Nat)⟩] : List Region).filter fun r => !r.isEmpty := by
    have hstop : ((body.length + 2 : Nat) : Int) - 1 = (1 + body.length : Nat) := by omega
    simp only [wholeRegions, Host.isQuoted, Value.host, hquoted, Scan.quotedValue, hlen, hstop]
    rw [if_neg (by decide), if_neg (not_not.mpr hends), if_neg (by omega)]
  rw [regions_of_isWhole hwhole, hregions, List.filter_filter]
  simp only [Bool.and_self]
  exact filter_afterQuote body

theorem regions_unclosed {quote : Char} (hquote : isQuote quote = true) {body : List Char}
    (hnot : quote ∉ body) (hne : body ≠ []) :
    j.regions scans ts ((Value.unclosed quote body).host name start)
      = (Value.afterQuote? body).toList := by
  have hquoted : startsQuoted (Value.unclosed quote body).text = true := hquote
  have hwhole : j.isWhole ((Value.unclosed quote body).host name start) = true := by
    simp [isWhole, Value.host, Value.text, hname, List.length_pos_iff.mpr hne]
  have hends : (Value.unclosed quote body).text.getLast?
      ≠ (Value.unclosed quote body).text.head? := by
    show (quote :: body).getLast? ≠ some quote
    rw [List.getLast?_cons_of_ne_nil hne]
    exact fun hlast => hnot (List.mem_of_getLast? hlast)
  have hregions : wholeRegions ((Value.unclosed quote body).host name start)
      = [⟨1, (1 + body.length : Nat)⟩] := by
    simp only [wholeRegions, Host.isQuoted, Value.host, hquoted]
    rw [if_neg (by decide), if_pos hends, Nat.add_comm]
    rfl
  rw [regions_of_isWhole hwhole, hregions]
  exact filter_afterQuote body

omit hname in
/-- A lone quote is no expression as a whole, and a scan of it is in vain. -/
theorem regions_loneQuote {quote : Char} (hquote : isQuote quote = true) :
    j.regions scans ts ((Value.unclosed quote []).host name start) = [] := by
  have hwhole : j.isWhole ((Value.unclosed quote []).host name start) = false := by
    have hquoted : startsQuoted (Value.unclosed quote []).text = true := hquote
    simp only [isWhole, Value.host, hquoted, Bool.not_true, Bool.false_or]
    exact Bool.and_false _
  unfold regions
  rw [hwhole]
  cases scans with
  | false => rfl
  | true =>
    have hnone : j.scannedRegions ts ((Value.unclosed quote []).host name start) = [] :=
      Scan.regions_of_length_le_one (Nat.le_refl 1)
    rw [if_neg Bool.false_ne_true, if_pos rfl, hnone]
    rfl

/-- **The regions of an expression attribute's value are those of the expression that the value
is**, whether hosts are scanned or not. -/
theorem regions_value {last : Prop} {v : Value} (hv : v.Proper last) :
    j.regions scans ts (v.host name start) = v.expression?.toList := by
  cases v with
  | plain text =>
    obtain ⟨hne, hquoted⟩ := hv
    exact regions_plain hname scans ts start hne hquoted
  | closed quote body => exact regions_closed hname scans ts start hv.1 body
  | unclosed quote body =>
    obtain ⟨hquote, hnot, -⟩ := hv
    by_cases hne : body = []
    · rw [hne]
      exact regions_loneQuote scans ts start hquote
    · exact regions_unclosed hname scans ts start hquote hnot hne

end Value

/-! ## §4. The values of a document. -/

/-- The regions of the host that a token of a document is by itself. -/
theorem regions_of_host? {j : Injector} {s : List Char} {t : Token} (ht : t ∈ tokens s) {g : Host}
    (hg : t.host? = some g) (he : g.isExpression j.registry = true) (scans : Bool)
    (ts : Array Token) : j.regions scans ts g = (Value.ofText t.text).expression?.toList := by
  obtain ⟨hk, rfl⟩ := Token.eq_host_of_host? hg
  exact regions_value he scans ts t.start (Value.proper_of_mem_tokens ht hk)

/-- The expressions of a host are kept all or none. -/
theorem filter_map_host (registry : Attribute.Registry) (language : String) (h : Host)
    (rs : List Region) :
    (rs.map fun r => (⟨h, r, language⟩ : Injection)).filter
        (fun i => i.host.isExpression registry)
      = if h.isExpression registry then rs.map fun r => ⟨h, r, language⟩ else [] := by
  by_cases he : h.isExpression registry = true
  · rw [if_pos he]
    refine List.filter_eq_self.mpr fun i hi => ?_
    obtain ⟨r, -, rfl⟩ := List.mem_map.mp hi
    exact he
  · rw [if_neg he]
    refine List.filter_eq_nil_iff.mpr fun i hi => ?_
    obtain ⟨r, -, rfl⟩ := List.mem_map.mp hi
    exact he

/-- **The expressions in the values of expression attributes are those that the tokens are by
themselves.** -/
theorem filter_injections (j : Injector) (s : List Char) (file : Option String) :
    (j.injections s file).filter (fun i => i.host.isExpression j.registry)
      = (tokens s).filterMap (wholeInjection? j.registry j.language) := by
  unfold injections
  simp only [List.filter_flatMap, filter_map_host]
  rw [flatMap_hosts, List.filterMap_eq_flatMap_toList]
  · refine List.flatMap_congr fun t ht => ?_
    unfold wholeInjection?
    cases hg : t.host? with
    | none => rfl
    | some g =>
      simp only [Option.toList_some, List.flatMap_singleton]
      by_cases he : g.isExpression j.registry = true
      · rw [if_pos he, if_pos he, regions_of_host? ht hg he]
        cases (Value.ofText t.text).expression? <;> rfl
      · rw [if_neg he, if_neg he]
        rfl
  · -- a run of data is the value of no attribute
    intro h hk
    rw [if_neg]
    simp [Host.isExpression, Host.attribute?, hk]

end Injector

/-- **The values of expression attributes are expressions by themselves**, whatever the
delimiters and the file are. -/
theorem Project.filter_injections_isExpression (p : Project) (tree : Entry)
    (huses : (p.hasFramework tree).1 = true) (registry : Attribute.Registry) (language : String)
    (s : List Char) :
    (∀ t ∈ tokens s, t.kind = .attrValue →
      (Value.ofText t.text).text = t.text
        ∧ (Value.ofText t.text).Proper (t.stop = s.length))
    ∧ (∀ (d : Delimiters) (file : Option String),
        (p.injections tree ⟨registry, d, language⟩ s file).1.filter
            (fun i => i.host.isExpression registry)
          = (tokens s).filterMap (wholeInjection? registry language))
    ∧ ∀ (d d' : Delimiters) (file file' : Option String),
        (p.injections tree ⟨registry, d, language⟩ s file).1.filter
            (fun i => i.host.isExpression registry)
          = (p.injections tree ⟨registry, d', language⟩ s file').1.filter
            (fun i => i.host.isExpression registry) := by
  have hall : ∀ (d : Delimiters) (file : Option String),
      (p.injections tree ⟨registry, d, language⟩ s file).1.filter
          (fun i => i.host.isExpression registry)
        = (tokens s).filterMap (wholeInjection? registry language) := by
    intro d file
    unfold Project.injections
    simp only [huses, if_true]
    exact Injector.filter_injections ⟨registry, d, language⟩ s file
  refine ⟨fun t ht hk => ⟨Value.text_ofText t.text, Value.proper_of_mem_tokens ht hk⟩, hall, ?_⟩
  intro d d' file file'
  rw [hall, hall]

/-- A value that holds delimiters, and one that is not closed. -/
theorem Project.filter_injections_isExpression_unclosed :
    ((⟨[], .default, [], ⟨"", [], []⟩, [], some true⟩ : Project).hasFramework .empty).1 = true
    ∧ ∀ (d : Delimiters) (file : Option String),
        ((⟨[], .default, [], ⟨"", [], []⟩, [], some true⟩ : Project).injections .empty
            ⟨.ofExtra [], d, "AngularJS"⟩
            "<a ng-if='\x7b\x7bb\x7d\x7d' ng-show=\x22c".toList file).1.filter
              (fun i => i.host.isExpression (.ofExtra []))
          = [⟨⟨.attribute "ng-if".toList true, 9, "'\x7b\x7bb\x7d\x7d'".toList⟩, ⟨1, 6⟩, "AngularJS"⟩,
            ⟨⟨.attribute "ng-show".toList true, 25, "\x22c".toList⟩, ⟨1, 2⟩, "AngularJS"⟩] := by
  refine ⟨rfl, fun d file => ?_⟩
  rw [(Project.filter_injections_isExpression ⟨[], .default, [], ⟨"", [], []⟩, [], some true⟩ .empty
    rfl (.ofExtra []) "AngularJS" _).2.1 d file]
  decide +kernel

end EmbeddedExpr
