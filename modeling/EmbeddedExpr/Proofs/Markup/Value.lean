/-
  EmbeddedExpr.Proofs.Markup.Value
  ────────────────────────────────
  **HOW THE VALUES OF ATTRIBUTES ARE WRITTEN.**

  A `Value` is an attribute's value in parts: without quotes, between two quotes, or after a
  quote that is never closed.  The token of a value is what the reader of values takes at its
  place (`attrValue_of_mem_tokens`), so it is one of the three, and only the last value of a
  document can be unclosed:

      t ∈ tokens s  →  t.kind = .attrValue
        →  (Value.ofText t.text).Proper (t.stop = s.length)
-/
import EmbeddedExpr.Markup.Host
import EmbeddedExpr.Proofs.Markup.Host
import EmbeddedExpr.Proofs.Markup.Readers
import EmbeddedExpr.Proofs.Text.Search

namespace EmbeddedExpr.Markup

/-! ## §1. The reader of values. -/

/-- A value is what the reader of values takes where it stands. -/
def ReadAsValue (kind : Kind) (text after : List Char) : Prop :=
  kind = .attrValue → attrValue (text ++ after) = (text, after)

theorem readBy_readAsValue : ReadBy ReadAsValue where
  data _ := fun hk => (by cases hk)
  fence ho := by
    have hall : ∀ f ∈ fences, f.1 ≠ .attrValue := by decide
    exact fun hk => absurd hk (hall _ (fence_of_opening? ho).1)
  tagStart _ _ := fun hk => (by cases hk)
  attrName _ := fun hk => (by cases hk)
  attrValue s := by
    intro _
    rw [attrValue_append]
  tagEnd _ _ _ _ := fun hk => (by cases hk)
  rawText _ _ := fun hk => (by cases hk)

/-- **The token of a value is what the reader of values takes at its place.** -/
theorem attrValue_of_mem_tokens {s : List Char} {t : Token} (ht : t ∈ tokens s)
    (hk : t.kind = .attrValue) : attrValue (t.text ++ s.drop t.stop) = (t.text, s.drop t.stop) :=
  readBy_readAsValue.of_mem_tokens ht hk

/-! ## §2. Values in parts. -/

/-- A character with which a quoted value begins. -/
def isQuote (c : Char) : Bool := c = '\x22' || c = '\x27'

/-- The value of an attribute in parts. -/
inductive Value where
  /-- A value without quotes. -/
  | plain (text : List Char)
  /-- A value between two quotes. -/
  | closed (quote : Char) (body : List Char)
  /-- A value after a quote that is never closed. -/
  | unclosed (quote : Char) (body : List Char)
  deriving DecidableEq, Repr

namespace Value

/-- The value as it is written. -/
def text : Value → List Char
  | plain text => text
  | closed quote body => quote :: (body ++ [quote])
  | unclosed quote body => quote :: body

/-- The value is in the form in which a document has it: the quote of a quoted value does not
stand inside of it, and an unclosed one is the last of the document. -/
def Proper (last : Prop) : Value → Prop
  | plain text => text ≠ [] ∧ startsQuoted text = false
  | closed quote body => isQuote quote = true ∧ quote ∉ body
  | unclosed quote body => isQuote quote = true ∧ quote ∉ body ∧ last

/-- The parts of a value as it is written. -/
def ofText : List Char → Value
  | [] => plain []
  | c :: rest =>
    if isQuote c then
      if rest.getLast? = some c then closed c rest.dropLast else unclosed c rest
    else plain (c :: rest)

theorem text_ofText (s : List Char) : (ofText s).text = s := by
  cases s with
  | nil => rfl
  | cons c rest =>
    simp only [ofText]
    by_cases hq : isQuote c = true
    · rw [if_pos hq]
      by_cases hlast : rest.getLast? = some c
      · rw [if_pos hlast]
        exact congrArg (c :: ·) (List.dropLast_append_getLast? c hlast)
      · rw [if_neg hlast]
        rfl
    · rw [if_neg hq]
      rfl

theorem ofText_closed {c : Char} (hq : isQuote c = true) (body : List Char) :
    ofText (c :: (body ++ [c])) = closed c body := by
  simp only [ofText, hq, if_true]
  rw [if_pos (List.getLast?_concat ..), List.dropLast_concat]

theorem ofText_unclosed {c : Char} (hq : isQuote c = true) {body : List Char} (hc : c ∉ body) :
    ofText (c :: body) = unclosed c body := by
  simp only [ofText, hq, if_true]
  rw [if_neg fun hlast => hc (List.mem_of_getLast? hlast)]

/-- **The reader of values takes a value in one of its forms.**  It takes an unclosed one only
when nothing is left over. -/
theorem proper_attrValue {s : List Char} (hne : (attrValue s).1 ≠ []) :
    (ofText (attrValue s).1).Proper ((attrValue s).2 = []) := by
  cases s with
  | nil => exact absurd rfl hne
  | cons c rest =>
    by_cases hq : isQuote c = true
    · have hread : attrValue (c :: rest)
          = (c :: (Text.throughMark [c] rest).1, (Text.throughMark [c] rest).2) := by
        exact if_pos hq
      rw [hread]
      unfold Text.throughMark
      cases hcut : Text.cut? [c] rest with
      | none =>
        have hc : c ∉ rest := Text.notMem_of_cut?_eq_none hcut
        rw [ofText_unclosed hq hc]
        exact ⟨hq, hc, rfl⟩
      | some found =>
        rw [ofText_closed hq]
        exact ⟨hq, Text.notMem_of_cut? hcut⟩
    · have hread : (attrValue (c :: rest)).1 = (c :: rest).takeWhile isValueChar := by
        exact congrArg Prod.fst (if_neg hq)
      rw [hread] at hne ⊢
      -- a run of at least one character begins with the first of the text
      have hc : isValueChar c = true := by
        by_contra hc
        exact hne (List.takeWhile_cons_of_neg hc)
      rw [List.takeWhile_cons_of_pos hc]
      simp only [ofText]
      rw [if_neg hq]
      exact ⟨List.cons_ne_nil _ _, Bool.eq_false_iff.mpr hq⟩

/-- **The values of a document are in one of the three forms**, and only one that the document
ends with is unclosed. -/
theorem proper_of_mem_tokens {s : List Char} {t : Token} (ht : t ∈ tokens s)
    (hk : t.kind = .attrValue) : (ofText t.text).Proper (t.stop = s.length) := by
  have hread := attrValue_of_mem_tokens ht hk
  have hpos := start_lt_stop ht
  have hlen := exact_tokens s t ht
  have hne : t.text ≠ [] := by
    rintro hnil
    rw [hnil, List.length_nil] at hlen
    omega
  have hproper := proper_attrValue (s := t.text ++ s.drop t.stop) (by rw [hread]; exact hne)
  rw [hread] at hproper
  have hend : (s.drop t.stop = []) = (t.stop = s.length) := by
    have := stop_le_length ht
    rw [List.drop_eq_nil_iff, eq_iff_iff]
    omega
  rw [← hend]
  exact hproper

end Value

end EmbeddedExpr.Markup
