/-
  EmbeddedExpr.Proofs.Markup.Sealed
  ─────────────────────────────────
  **READERS OF SEALED TEXTS.**

  A text is `Sealed` before another when an angle bracket stands where they meet.  No reader
  of the lexer can tell what follows a sealed text, unless it reads on into what follows, or
  sees it begin with another construct (`SameStart`): each of the lemmas

      Sealed a b  →  SameStart b b'  →  b.length ≤ (read (a ++ b)).2.length
        →  read (a ++ b') = ((read a).1, (read a).2 ++ b')

  says so for one of the readers, up to `construct`.
-/
import EmbeddedExpr.Markup.Lexer
import EmbeddedExpr.Proofs.Text.Search
import Mathlib.Data.List.Basic
import Mathlib.Data.List.TakeWhile

namespace EmbeddedExpr.Markup

/-! ## §1. Sealed texts. -/

/-- An angle bracket stands where the first text ends and the second begins. -/
def Sealed (a b : List Char) : Prop := a.getLast? = some '>' ∨ b.head? = some '<'

theorem Sealed.suffix {s a b : List Char} (h : Sealed s b) (ha : a <:+ s) (hne : a ≠ []) :
    Sealed a b := by
  obtain ⟨front, rfl⟩ := ha
  rwa [Sealed, List.getLast?_append_of_ne_nil front hne] at h

theorem Sealed.tail {c : Char} {a b : List Char} (h : Sealed (c :: a) b) (hne : a ≠ []) :
    Sealed a b :=
  h.suffix (List.suffix_cons c a) hne

/-- What is left of a sealed text after some characters without the bracket is sealed, also
when nothing is left. -/
theorem Sealed.of_append {x a b : List Char} (h : Sealed (x ++ a) b) (hx : '>' ∉ x) :
    Sealed a b := by
  cases a with
  | nil =>
    rcases h with h | h
    · rw [List.append_nil] at h
      exact absurd (List.mem_of_getLast? h) hx
    · exact Or.inr h
  | cons c a => exact h.suffix (List.suffix_append x _) (List.cons_ne_nil c a)

theorem Sealed.of_cons {c : Char} {a b : List Char} (h : Sealed (c :: a) b) (hc : c ≠ '>') :
    Sealed a b :=
  h.of_append (x := [c]) fun hmem => hc (List.mem_singleton.mp hmem).symm

theorem Sealed.head?_of_nil {b : List Char} (h : Sealed [] b) : b.head? = some '<' :=
  h.resolve_left (fun h => by cases h)

/-- A word without angle brackets begins a longer text when it begins its sealed part. -/
theorem Sealed.prefix_iff {w a b : List Char} (h : Sealed a b) (hgt : '>' ∉ w) (hlt : '<' ∉ w) :
    w <+: a ++ b ↔ w <+: a := by
  refine ⟨fun hw => ?_, fun hw => hw.trans (List.prefix_append a b)⟩
  rcases List.prefix_or_prefix_of_prefix hw (List.prefix_append a b) with hwa | haw
  · exact hwa
  · -- a longer word would hold the bracket that seals the text
    obtain ⟨more, rfl⟩ := haw
    cases more with
    | nil => simp
    | cons d more =>
      rcases h with h | h
      · exact absurd (List.mem_append_left _ (List.mem_of_getLast? h)) hgt
      · obtain ⟨b, rfl⟩ := List.head?_eq_some_iff.mp h
        obtain ⟨rfl, -⟩ := List.cons_prefix_cons.mp ((List.prefix_append_right_inj a).mp hw)
        exact absurd (List.mem_append_right a List.mem_cons_self) hlt

/-- A run of a class without angle brackets ends where a sealed text ends, or before, and
leaves a sealed text over. -/
theorem Sealed.run {a b : List Char} (h : Sealed a b) {p : Char → Bool} (hgt : p '>' = false)
    (hlt : p '<' = false) :
    (a ++ b).takeWhile p = a.takeWhile p ∧ (a ++ b).dropWhile p = a.dropWhile p ++ b
      ∧ Sealed (a.dropWhile p) b := by
  have hleft : Sealed (a.dropWhile p) b := by
    rw [← List.takeWhile_append_dropWhile (p := p) (l := a)] at h
    refine h.of_append fun hmem => ?_
    have := List.all_eq_true.mp List.all_takeWhile '>' hmem
    rw [hgt] at this
    cases this
  by_cases hstop : ∃ x ∈ a, p x = false
  · obtain ⟨htake, hdrop⟩ := Text.takeWhile_append_stop b hstop
    exact ⟨htake, hdrop, hleft⟩
  · -- the run takes all of the text, and ends at the bracket that follows
    have hall : ∀ x ∈ a, p x = true := fun x hx =>
      Bool.of_not_eq_false fun hpx => hstop ⟨x, hx, hpx⟩
    have hnil : a.dropWhile p = [] := List.dropWhile_eq_nil_iff.mpr hall
    rw [hnil] at hleft
    obtain ⟨more, rfl⟩ := List.head?_eq_some_iff.mp hleft.head?_of_nil
    have hneg : ¬ p '<' = true := by rw [hlt]; exact Bool.false_ne_true
    rw [List.takeWhile_append_of_pos hall, List.dropWhile_append_of_pos hall,
      List.takeWhile_cons_of_neg hneg, List.dropWhile_cons_of_neg hneg, List.append_nil, hnil,
      List.takeWhile_eq_self_iff.mpr hall]
    exact ⟨rfl, rfl, hleft⟩

/-- A reader that comes to the end of a sealed text cannot tell which of the two texts
follows: both begin with the same character, with a construct or none of them does, and
with the closing tag of a raw element or none of them does. -/
structure SameStart (b b' : List Char) : Prop where
  head : b.head? = b'.head?
  opens : (opening? b).isSome = (opening? b').isSome
  closes : ∀ name ∈ rawNames, closesRaw name b = closesRaw name b'

theorem SameStart.refl (b : List Char) : SameStart b b := ⟨rfl, rfl, fun _ _ => rfl⟩

theorem SameStart.eq_nil {b b' : List Char} (h : SameStart b b') (hb : b = []) : b' = [] := by
  rw [← List.head?_eq_none_iff, ← h.head, hb]
  rfl

theorem SameStart.sealed {a b b' : List Char} (h : SameStart b b') (ha : Sealed a b) :
    Sealed a b' := by
  rwa [Sealed, ← h.head]

/-! ## §2. Attributes and tags. -/

theorem isAttrChar_gt : isAttrChar '>' = false := by decide +kernel

theorem isAttrChar_lt : isAttrChar '<' = false := by decide +kernel

theorem isBlank_gt : Text.isBlank '>' = false := by decide +kernel

theorem isBlank_lt : Text.isBlank '<' = false := by decide +kernel

theorem isTagChar_gt : isTagChar '>' = false := by decide +kernel

theorem isTagChar_lt : isTagChar '<' = false := by decide +kernel

/-- A value without quotes reads on over the angle bracket of a construct, so it ends inside
of a sealed text when it leaves over all that follows. -/
theorem Sealed.exists_stop {a b : List Char} (ha : Sealed a b)
    (h : b.length ≤ ((a ++ b).dropWhile isValueChar).length) :
    ∃ x ∈ a, isValueChar x = false := by
  rcases ha with ha | hb
  · exact ⟨'>', List.mem_of_getLast? ha, by decide +kernel⟩
  · by_contra hno
    have hall : ∀ x ∈ a, isValueChar x = true := fun x hx =>
      Bool.of_not_eq_false fun hpx => hno ⟨x, hx, hpx⟩
    obtain ⟨more, rfl⟩ := List.head?_eq_some_iff.mp hb
    have hlt : isValueChar '<' = true := by decide +kernel
    have hle := (List.dropWhile_suffix (l := more) isValueChar).length_le
    rw [List.dropWhile_append_of_pos hall, List.dropWhile_cons_of_pos hlt,
      List.length_cons] at h
    omega

theorem attrValue_append_of_le {a b b' : List Char} (ha : Sealed a b) (hb : SameStart b b')
    (h : b.length ≤ (attrValue (a ++ b)).2.length) :
    attrValue (a ++ b') = ((attrValue a).1, (attrValue a).2 ++ b') := by
  cases a with
  | nil =>
    obtain ⟨more, rfl⟩ := List.head?_eq_some_iff.mp ha.head?_of_nil
    have hvalue : (attrValue ('<' :: more)).2 = ('<' :: more).dropWhile isValueChar := by
      simp [attrValue]
    rw [List.nil_append, hvalue] at h
    obtain ⟨x, hx, -⟩ := ha.exists_stop h
    cases hx
  | cons c a =>
    rw [List.cons_append] at h ⊢
    simp only [attrValue] at h ⊢
    by_cases hc : (decide (c = '\x22') || decide (c = '\x27')) = true
    · rw [if_pos hc] at h ⊢
      rw [if_pos hc, Text.throughMark_append_of_le h hb.eq_nil]
    · rw [if_neg hc] at h ⊢
      rw [if_neg hc, ← List.cons_append]
      obtain ⟨htake, hdrop⟩ := Text.takeWhile_append_stop b' (ha.exists_stop h)
      rw [htake, hdrop]

theorem attributeAt_append_of_le {a b b' : List Char} (ha : Sealed a b) (hb : SameStart b b')
    (h : b.length ≤ (attributeAt (a ++ b)).2.length) :
    attributeAt (a ++ b') = ((attributeAt a).1, (attributeAt a).2 ++ b') := by
  obtain ⟨-, hrest, hrs⟩ := ha.run isAttrChar_gt isAttrChar_lt
  obtain ⟨-, hafter, has⟩ := hrs.run isBlank_gt isBlank_lt
  obtain ⟨hname', hrest', hrs'⟩ := (hb.sealed ha).run isAttrChar_gt isAttrChar_lt
  obtain ⟨hgap', hafter', has'⟩ := hrs'.run isBlank_gt isBlank_lt
  simp only [attributeAt, hrest, hafter] at h
  simp only [attributeAt, hname', hrest', hgap', hafter']
  generalize (a.dropWhile isAttrChar).dropWhile Text.isBlank = after at *
  by_cases heq : ∃ more, after = '=' :: more
  · obtain ⟨more, rfl⟩ := heq
    rw [List.cons_append] at h
    rw [List.cons_append]
    obtain ⟨-, hvalue, hms⟩ := (has.of_cons (by decide)).run isBlank_gt isBlank_lt
    obtain ⟨hblank', hvalue', -⟩ := (has'.of_cons (by decide)).run isBlank_gt isBlank_lt
    simp only [hvalue] at h
    simp only [hblank', hvalue']
    have hv : b.length ≤ (attrValue (more.dropWhile Text.isBlank ++ b)).2.length := by
      split at h <;> exact h
    rw [attrValue_append_of_le hms hb hv]
    simp only
    split <;> rfl
  · -- without an equals sign the attribute is its name, whatever follows
    have hno : ∀ more, after ++ b' ≠ '=' :: more := by
      intro more hmore
      cases after with
      | nil =>
        have hlt := has'.head?_of_nil
        rw [← List.nil_append b', hmore] at hlt
        cases hlt
      | cons d after => exact heq ⟨after, by rw [(List.cons.inj hmore).1]⟩
    split
    · next hmore => exact absurd hmore (hno _)
    · split
      · next hmore => exact absurd ⟨_, rfl⟩ heq
      · rfl

/-- What a tag's reader leaves over is not longer than what it is given. -/
theorem length_tagBody_le (s : List Char) : (tagBody s).2.2.length ≤ s.length :=
  List.IsSuffix.length_le ⟨_, tagBody_append s⟩

theorem tagBody_of_isAttrChar {c : Char} (rest : List Char) (hc : isAttrChar c = true) :
    tagBody (c :: rest) = ((attributeAt (c :: rest)).1 ++ (tagBody (attributeAt (c :: rest)).2).1,
      (tagBody (attributeAt (c :: rest)).2).2) := by
  rw [tagBody]
  · rw [dif_pos hc]
  · rintro rest' rfl
    exact absurd hc (by decide +kernel)
  · rintro rfl
    exact absurd hc (by decide +kernel)
  · rintro rfl
    exact absurd hc (by decide +kernel)

theorem tagBody_of_stray {c : Char} {rest : List Char} (hc : isAttrChar c = false)
    (hgt : c ≠ '>') (hlt : c ≠ '<') (hend : ∀ more, c = '/' → rest ≠ '>' :: more) :
    tagBody (c :: rest) = (.gap [c] :: (tagBody rest).1, (tagBody rest).2) := by
  rw [tagBody]
  · rw [dif_neg (by rw [hc]; exact Bool.false_ne_true)]
  · intro more hc hr
    exact hend more hc hr
  · exact hgt
  · exact hlt

/-- A tag's reader leaves all of its text over at the end of the document and at the bracket
of the next construct only. -/
theorem head?_of_tagBody_le {s : List Char} (h : s.length ≤ (tagBody s).2.2.length) :
    s = [] ∨ s.head? = some '<' := by
  fun_cases tagBody s with
  | case1 => exact Or.inl rfl
  | case2 rest =>
    simp only [tagBody, List.length_cons] at h
    omega
  | case3 rest =>
    simp only [tagBody, List.length_cons] at h
    omega
  | case4 rest => exact Or.inr rfl
  | case5 c rest _ _ _ hc =>
    have hle := length_tagBody_le (attributeAt (c :: rest)).2
    have hlt := length_attributeAt rest hc
    rw [tagBody_of_isAttrChar rest hc] at h
    simp only [List.length_cons] at h
    omega
  | case6 c rest hend hgt hlt hc =>
    have hle := length_tagBody_le rest
    rw [tagBody_of_stray (Bool.not_eq_true _ ▸ hc) hgt hlt fun more hc hr => hend more hc hr] at h
    simp only [List.length_cons] at h
    omega

theorem tagBody_of_head? {s : List Char} (h : s = [] ∨ s.head? = some '<') :
    tagBody s = ([], .cut, s) := by
  rcases h with rfl | h
  · rw [tagBody]
  · obtain ⟨rest, rfl⟩ := List.head?_eq_some_iff.mp h
    rw [tagBody]

theorem tagBody_append_of_le {a b b' : List Char} (ha : a ≠ [] → Sealed a b)
    (hb : SameStart b b') (h : b.length ≤ (tagBody (a ++ b)).2.2.length) :
    tagBody (a ++ b') = ((tagBody a).1, (tagBody a).2.1, (tagBody a).2.2 ++ b') := by
  fun_induction tagBody a with
  | case1 =>
    -- nothing is read of `b`, so it begins with a bracket or is empty, and so does `b'`
    refine tagBody_of_head? ((head?_of_tagBody_le h).imp hb.eq_nil fun hlt => ?_)
    rw [List.nil_append, ← hb.head]
    exact hlt
  | case2 rest => simp only [List.cons_append, tagBody]
  | case3 rest => simp only [List.cons_append, tagBody]
  | case4 rest => simp only [List.cons_append, tagBody]
  | case5 c rest _ _ _ hc pieces ending more he ih =>
    have ha := ha (List.cons_ne_nil c rest)
    rw [List.cons_append, tagBody_of_isAttrChar (rest ++ b) hc, ← List.cons_append] at h
    rw [List.cons_append, tagBody_of_isAttrChar (rest ++ b') hc, ← List.cons_append]
    simp only at h
    -- the attribute ends inside of `a`, since the tag's reader leaves `b` over
    have hle := Nat.le_trans h (length_tagBody_le _)
    have hs : (attributeAt (c :: rest)).2 ≠ [] → Sealed (attributeAt (c :: rest)).2 b :=
      ha.suffix ⟨_, attributeAt_append (c :: rest)⟩
    rw [attributeAt_append_of_le ha (SameStart.refl b) hle] at h
    rw [attributeAt_append_of_le ha hb hle]
    simp only at h ⊢
    rw [ih hs h, he]
  | case6 c rest hend hgt hlt hc pieces ending more he ih =>
    have hgt : c ≠ '>' := hgt
    have hrest := (ha (List.cons_ne_nil c rest)).of_cons hgt
    -- no end mark of the tag begins with the last character before a bracket
    have hend' : ∀ {d : List Char}, Sealed rest d →
        ∀ more, c = '/' → rest ++ d ≠ '>' :: more := by
      intro d hd more hslash heq
      cases rest with
      | nil =>
        have hlt := hd.head?_of_nil
        rw [← List.nil_append d, heq] at hlt
        cases hlt
      | cons e rest =>
        obtain ⟨rfl, -⟩ := List.cons.inj heq
        exact hend rest hslash rfl
    have hc : isAttrChar c = false := Bool.not_eq_true _ ▸ hc
    rw [List.cons_append, tagBody_of_stray hc hgt hlt (hend' hrest)] at h
    rw [List.cons_append, tagBody_of_stray hc hgt hlt (hend' (hb.sealed hrest))]
    simp only at h ⊢
    rw [ih (fun _ => hrest) h, he]

/-! ## §3. Texts up to a stop. -/

/-- The reader `f` takes what stands before the first place of some kind. -/
structure UpTo (stops : List Char → Bool) (f : List Char → List Char × List Char) : Prop where
  nil : f [] = ([], [])
  cons : ∀ c rest, f (c :: rest)
    = if stops (c :: rest) then ([], c :: rest) else (c :: (f rest).1, (f rest).2)

section UpTo

variable {stops : List Char → Bool} {f : List Char → List Char × List Char}

theorem UpTo.length_le (hf : UpTo stops f) (s : List Char) : (f s).2.length ≤ s.length := by
  induction s with
  | nil => simp only [hf.nil, Nat.le_refl]
  | cons c rest ih =>
    rw [hf.cons]
    split
    · exact Nat.le_refl _
    · exact Nat.le_succ_of_le ih

/-- The reader passes over no place of the kind, and leaves one over unless it takes all. -/
theorem UpTo.stops_at (hf : UpTo stops f) (s : List Char) :
    (∀ k < (f s).1.length, stops (s.drop k) = false)
      ∧ ((f s).2 = [] ∨ stops (f s).2 = true) := by
  induction s with
  | nil =>
    rw [hf.nil]
    exact ⟨fun k hk => absurd hk (Nat.not_lt_zero k), Or.inl rfl⟩
  | cons c rest ih =>
    rw [hf.cons]
    by_cases hs : stops (c :: rest) = true
    · rw [if_pos hs]
      exact ⟨fun k hk => absurd hk (Nat.not_lt_zero k), Or.inr hs⟩
    · rw [if_neg hs]
      refine ⟨fun k hk => ?_, ih.2⟩
      cases k with
      | zero => exact Bool.eq_false_iff.mpr hs
      | succ k => exact ih.1 k (Nat.lt_of_succ_lt_succ hk)

/-- A reader up to the first place of some kind, where sealed texts show the kind of their
places, ends inside of a sealed text or at its end, unless it reads on. -/
theorem UpTo.append_of_le (hf : UpTo stops f) {a b b' : List Char}
    (hstops : ∀ a d, Sealed a d → a ≠ [] → stops (a ++ d) = stops a) (hsame : stops b = stops b')
    (ha : a ≠ [] → Sealed a b) (hb : SameStart b b') (h : b.length ≤ (f (a ++ b)).2.length) :
    f (a ++ b') = ((f a).1, (f a).2 ++ b') := by
  induction a with
  | nil =>
    rw [hf.nil, List.nil_append]
    cases b with
    | nil => rw [hb.eq_nil rfl]; exact hf.nil
    | cons c rest =>
      obtain ⟨rest', rfl⟩ := List.head?_eq_some_iff.mp hb.head.symm
      rw [List.nil_append, hf.cons] at h
      split at h
      · next hs => rw [hf.cons, ← hsame, if_pos hs]
      · -- a reader that goes on leaves less than `b` over
        have := hf.length_le rest
        simp only [List.length_cons] at h
        omega
  | cons c a ih =>
    have hca := ha (List.cons_ne_nil c a)
    have hs := hstops (c :: a) b hca (List.cons_ne_nil c a)
    have hs' := hstops (c :: a) b' (hb.sealed hca) (List.cons_ne_nil c a)
    rw [List.cons_append] at h hs hs' ⊢
    rw [hf.cons, hs] at h
    rw [hf.cons, hf.cons, hs']
    split at h
    · next hstop => rw [if_pos hstop, if_pos hstop]; rfl
    · next hstop => rw [if_neg hstop, if_neg hstop, ih hca.tail h]

end UpTo

theorem upTo_rawText (name : List Char) : UpTo (closesRaw name) (rawText name) :=
  ⟨rfl, fun _ _ => rfl⟩

theorem upTo_characterData : UpTo (fun s => (opening? s).isSome) characterData :=
  ⟨rfl, fun _ _ => rfl⟩

theorem isCaseOf_gt {letter : Char} (h : letter ≠ '>') : Text.isCaseOf letter '>' = false := by
  have hlower : Char.toLower '>' = '>' := by decide
  simp [Text.isCaseOf, hlower, Ne.symm h]

theorem isCaseOf_lt {letter : Char} (h : letter ≠ '<') : Text.isCaseOf letter '<' = false := by
  have hlower : Char.toLower '<' = '<' := by decide
  simp [Text.isCaseOf, hlower, Ne.symm h]

/-- A word is found, or not, inside of a sealed text, and leaves a sealed text over. -/
theorem afterWord?_append {word b : List Char} (hgt : '>' ∉ word) (hlt : '<' ∉ word) :
    ∀ {s : List Char}, Sealed s b →
      Text.afterWord? word (s ++ b) = (Text.afterWord? word s).map (fun r => r ++ b)
        ∧ ∀ r, Text.afterWord? word s = some r → Sealed r b := by
  induction word with
  | nil =>
    intro s hs
    exact ⟨rfl, fun r hr => Option.some.inj hr ▸ hs⟩
  | cons letter word ih =>
    intro s hs
    cases s with
    | nil =>
      obtain ⟨more, rfl⟩ := List.head?_eq_some_iff.mp hs.head?_of_nil
      have hc : ¬ Text.isCaseOf letter '<' = true := by
        rw [isCaseOf_lt fun he => hlt (he ▸ List.mem_cons_self)]
        exact Bool.false_ne_true
      rw [List.nil_append]
      simp only [Text.afterWord?]
      rw [if_neg hc]
      exact ⟨rfl, fun r hr => by cases hr⟩
    | cons c s =>
      rw [List.cons_append]
      simp only [Text.afterWord?]
      by_cases hc : Text.isCaseOf letter c = true
      · have hcgt : c ≠ '>' := by
          rintro rfl
          rw [isCaseOf_gt fun he => hgt (he ▸ List.mem_cons_self)] at hc
          exact Bool.false_ne_true hc
        rw [if_pos hc, if_pos hc]
        exact ih (fun he => hgt (List.mem_cons_of_mem _ he))
          (fun he => hlt (List.mem_cons_of_mem _ he)) (hs.of_cons hcgt)
      · rw [if_neg hc, if_neg hc]
        exact ⟨rfl, fun r hr => by cases hr⟩

/-- A closing tag begins with its two marks. -/
theorem closesRaw_eq_false {name s : List Char} (h : ¬ ['<', '/'] <+: s) :
    closesRaw name s = false := by
  unfold closesRaw
  split
  · exact absurd (List.prefix_append ['<', '/'] _) h
  · rfl

theorem closesRaw_append {name a b : List Char} (hgt : '>' ∉ name) (hlt : '<' ∉ name)
    (ha : Sealed a b) (hne : a ≠ []) : closesRaw name (a ++ b) = closesRaw name a := by
  obtain ⟨c, a, rfl⟩ := List.exists_cons_of_ne_nil hne
  by_cases hmark : ['<', '/'] <+: c :: a
  · obtain ⟨a, ha'⟩ := hmark
    rw [← ha'] at ha ⊢
    obtain ⟨happ, hrest⟩ := afterWord?_append hgt hlt (ha.of_append (by decide))
    simp only [List.cons_append, List.nil_append, closesRaw, happ]
    cases hr : Text.afterWord? name a with
    | none => rfl
    | some r =>
      cases r with
      | nil =>
        -- the name ends with the text, and a bracket follows
        obtain ⟨more, rfl⟩ := List.head?_eq_some_iff.mp (hrest [] hr).head?_of_nil
        show (!Text.isWord '<') = true
        decide +kernel
      | cons e r => rfl
  · have hmark' : ¬ ['<', '/'] <+: c :: a ++ b := by
      intro h
      obtain ⟨rfl, hslash⟩ := List.cons_prefix_cons.mp h
      exact hmark (List.cons_prefix_cons.mpr ⟨rfl,
        ((ha.of_cons (by decide)).prefix_iff (by decide) (by decide)).mp hslash⟩)
    rw [closesRaw_eq_false hmark, closesRaw_eq_false hmark']

theorem rawNames_angles {name : List Char} (h : name ∈ rawNames) : '>' ∉ name ∧ '<' ∉ name := by
  have hall : ∀ name ∈ rawNames, '>' ∉ name ∧ '<' ∉ name := by decide
  exact hall name h

theorem rawText_append_of_le {name a b b' : List Char} (hname : name ∈ rawNames)
    (ha : a ≠ [] → Sealed a b) (hb : SameStart b b')
    (h : b.length ≤ (rawText name (a ++ b)).2.length) :
    rawText name (a ++ b') = ((rawText name a).1, (rawText name a).2 ++ b') := by
  obtain ⟨hgt, hlt⟩ := rawNames_angles hname
  exact (upTo_rawText name).append_of_le (fun a d ha hne => closesRaw_append hgt hlt ha hne)
    (hb.closes name hname) ha hb h

theorem length_contents_le (name : List Char) (closing : Bool) (ending : Ending)
    (s : List Char) : (contents name closing ending s).2.length ≤ s.length :=
  List.IsSuffix.length_le ⟨_, contents_append name closing ending s⟩

theorem contents_append_of_le {name : List Char} {closing : Bool} {ending : Ending}
    {a b b' : List Char} (ha : a ≠ [] → Sealed a b) (hb : SameStart b b')
    (h : b.length ≤ (contents name closing ending (a ++ b)).2.length) :
    contents name closing ending (a ++ b')
      = ((contents name closing ending a).1, (contents name closing ending a).2 ++ b') := by
  unfold contents at h ⊢
  split at h
  · next hraw =>
    have hname : name ∈ rawNames := by
      simp only [Bool.and_eq_true] at hraw
      exact List.contains_iff_mem.mp hraw.2
    rw [if_pos hraw, if_pos hraw, rawText_append_of_le hname ha hb h]
  · next hraw => rw [if_neg hraw, if_neg hraw]

/-! ## §4. Constructs. -/

/-- After a bracket, any other character than a mark's second one must begin a name. -/
theorem opening?_of_ne {d : Char} (hbang : d ≠ '!') (hquery : d ≠ '?') (hslash : d ≠ '/')
    (s : List Char) :
    opening? ('<' :: d :: s) = if isTagLetter d then some (.tag false) else none := by
  have hp : ∀ w : List Char, ('!' :: w).isPrefixOf (d :: s) = false := by
    intro w
    simp [List.isPrefixOf, Ne.symm hbang]
  unfold opening?
  split
  · next rest heq =>
    obtain ⟨-, rfl⟩ := List.cons.inj heq
    rw [if_neg (by rw [show "!--".toList = '!' :: ['-', '-'] from rfl, hp]; decide),
      if_neg (by rw [show "![CDATA[".toList = '!' :: "[CDATA[".toList from rfl, hp]; decide)]
    split
    · next h => exact absurd (List.cons.inj h).1 hbang
    · next h => exact absurd (List.cons.inj h).1 hquery
    · next h => exact absurd (List.cons.inj h).1 hslash
    · next h =>
      obtain ⟨rfl, -⟩ := List.cons.inj h
      rfl
    · next h => cases h
  · next hno => exact absurd rfl (hno (d :: s))

/-- The construct that begins a sealed text begins it when more follows. -/
theorem opening?_append {a b : List Char} (ha : Sealed a b) (hne : a ≠ []) :
    opening? (a ++ b) = opening? a := by
  obtain ⟨c, a, rfl⟩ := List.exists_cons_of_ne_nil hne
  by_cases hc : c = '<'
  · subst hc
    have ha : Sealed a b := ha.of_cons (by decide)
    cases a with
    | nil =>
      -- no construct begins with two brackets
      obtain ⟨more, rfl⟩ := List.head?_eq_some_iff.mp ha.head?_of_nil
      exact opening?_of_ne (by decide) (by decide) (by decide) more
    | cons d a =>
      by_cases hbang : d = '!'
      · subst hbang
        have hmark : ∀ w : List Char, '>' ∉ w → '<' ∉ w →
            w.isPrefixOf ('!' :: a ++ b) = w.isPrefixOf ('!' :: a) := by
          intro w hgt hlt
          rw [Bool.eq_iff_iff, List.isPrefixOf_iff_prefix, List.isPrefixOf_iff_prefix]
          exact ha.prefix_iff hgt hlt
        have hcomment := hmark "!--".toList (by decide) (by decide)
        have hcdata := hmark "![CDATA[".toList (by decide) (by decide)
        rw [List.cons_append] at hcomment hcdata
        simp only [List.cons_append, opening?, hcomment, hcdata]
      · by_cases hquery : d = '?'
        · subst hquery
          rfl
        · by_cases hslash : d = '/'
          · subst hslash
            -- a name is looked for after the slash
            cases a with
            | nil =>
              obtain ⟨more, rfl⟩ :=
                List.head?_eq_some_iff.mp (ha.of_cons (by decide)).head?_of_nil
              rfl
            | cons e a => rfl
          · rw [List.cons_append, List.cons_append, opening?_of_ne hbang hquery hslash,
              opening?_of_ne hbang hquery hslash]
  · have hno : ∀ s : List Char, opening? (c :: s) = none := by
      intro s
      unfold opening?
      split
      · next heq => exact absurd (List.cons.inj heq).1 hc
      · rfl
    rw [List.cons_append, hno, hno]

theorem characterData_append_of_le {a b b' : List Char} (ha : a ≠ [] → Sealed a b)
    (hb : SameStart b b') (h : b.length ≤ (characterData (a ++ b)).2.length) :
    characterData (a ++ b') = ((characterData a).1, (characterData a).2 ++ b') := by
  refine upTo_characterData.append_of_le (fun a d ha hne => ?_) hb.opens ha hb h
  rw [opening?_append ha hne]

/-- The fenced constructs: their kinds, and their marks. -/
def fences : List (Kind × List Char × List Char) := [
  (.comment, "<!--".toList, "-->".toList),
  (.cdata, "<![CDATA[".toList, "]]>".toList),
  (.doctype, "<!".toList, ">".toList),
  (.instruction, "<?".toList, "?>".toList)]

/-- A fenced construct is one of the four, and the text begins with its mark. -/
theorem fence_of_opening? {kind : Kind} {mark closing s : List Char}
    (h : opening? s = some (.fenced kind mark closing)) :
    (kind, mark, closing) ∈ fences ∧ mark <+: s := by
  unfold opening? at h
  split at h
  · next rest =>
    split at h
    · next hp =>
      obtain ⟨rfl, rfl, rfl⟩ := Opening.fenced.inj (Option.some.inj h)
      obtain ⟨more, rfl⟩ := List.isPrefixOf_iff_prefix.mp hp
      exact ⟨by decide, more, rfl⟩
    · split at h
      · next hp =>
        obtain ⟨rfl, rfl, rfl⟩ := Opening.fenced.inj (Option.some.inj h)
        obtain ⟨more, rfl⟩ := List.isPrefixOf_iff_prefix.mp hp
        exact ⟨by decide, more, rfl⟩
      · split at h
        · obtain ⟨rfl, rfl, rfl⟩ := Opening.fenced.inj (Option.some.inj h)
          exact ⟨by decide, _, rfl⟩
        · obtain ⟨rfl, rfl, rfl⟩ := Opening.fenced.inj (Option.some.inj h)
          exact ⟨by decide, _, rfl⟩
        · split at h <;> cases h
        · split at h <;> cases h
        · cases h
  · cases h

theorem fenced_append_of_le {mark closing a b b' : List Char} (hm : mark <+: a)
    (hb : SameStart b b') (h : b.length ≤ (fenced mark closing (a ++ b)).2.length) :
    fenced mark closing (a ++ b')
      = ((fenced mark closing a).1, (fenced mark closing a).2 ++ b') := by
  unfold fenced at h ⊢
  rw [List.drop_append_of_le_length hm.length_le] at h ⊢
  rw [List.take_append_of_le_length hm.length_le, Text.throughMark_append_of_le h hb.eq_nil]

theorem tag_append_of_le {closing : Bool} {a b b' : List Char} (ha : Sealed a b)
    (hb : SameStart b b') (hm : (if closing then ['<', '/'] else ['<']) <+: a)
    (h : b.length ≤ (tag closing (a ++ b)).2.length) :
    tag closing (a ++ b') = ((tag closing a).1, (tag closing a).2 ++ b') := by
  obtain ⟨a, rfl⟩ := hm
  have hs : Sealed a b := ha.of_append (by cases closing <;> decide)
  obtain ⟨hname, hrest, hsrest⟩ := hs.run isTagChar_gt isTagChar_lt
  obtain ⟨hname', hrest', -⟩ := (hb.sealed hs).run isTagChar_gt isTagChar_lt
  unfold tag at h ⊢
  simp only [List.append_assoc, List.drop_left, hname, hrest] at h
  simp only [List.append_assoc, List.drop_left, hname', hrest']
  -- the raw contents are read after the body, so the body leaves `b` over as well
  have hle := Nat.le_trans h (length_contents_le _ _ _ _)
  have hs' : (tagBody (a.dropWhile isTagChar)).2.2 ≠ [] →
      Sealed (tagBody (a.dropWhile isTagChar)).2.2 b := hsrest.suffix ⟨_, tagBody_append _⟩
  rw [tagBody_append_of_le (fun _ => hsrest) (SameStart.refl b) hle] at h
  rw [tagBody_append_of_le (fun _ => hsrest) hb hle]
  simp only at h ⊢
  rw [contents_append_of_le hs' hb h]

/-- **A construct of a sealed text is the same whatever follows**, as long as the reader does
not read on and cannot tell the texts that follow apart. -/
theorem construct_append_of_le {c : Char} {a b b' : List Char} (ha : Sealed (c :: a) b)
    (hb : SameStart b b') (h : b.length ≤ (construct c (a ++ b)).2.length) :
    construct c (a ++ b') = ((construct c a).1, (construct c a).2 ++ b') := by
  have hopen := opening?_append ha (List.cons_ne_nil c a)
  have hopen' := opening?_append (hb.sealed ha) (List.cons_ne_nil c a)
  rw [List.cons_append] at hopen hopen'
  unfold construct at h ⊢
  rw [hopen] at h
  rw [hopen']
  cases ho : opening? (c :: a) with
  | none =>
    simp only [ho] at h ⊢
    rw [characterData_append_of_le ha.tail hb h]
  | some o =>
    cases o with
    | fenced kind mark closing =>
      simp only [ho, ← List.cons_append] at h ⊢
      rw [fenced_append_of_le (fence_of_opening? ho).2 hb h]
    | tag closing =>
      simp only [ho, ← List.cons_append] at h ⊢
      rw [tag_append_of_le ha hb (mark_of_tag ho) h]

end EmbeddedExpr.Markup
