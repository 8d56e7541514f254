/-
  EmbeddedExpr.Proofs.Text.Lower
  ──────────────────────────────
  **LOWER CASE IS REACHED IN ONE STEP.**

  No character of a text in lower case has a lower case other than itself (`IsSmall`), so that
  lowering such a text again changes nothing, whatever stands around its sigmas:

      lower (lower s) = lower s

  Beyond ASCII this is a fact about the table of runs: no run leads into another one
  (`misses_caseRuns`), nor to a character with a rule of its own, nor to white space
  (`isProper_caseRuns`).  Both are read off the ends of the runs, not code point by code point.
-/
import EmbeddedExpr.Proofs.Text.Case
import EmbeddedExpr.Text.Blank

namespace EmbeddedExpr.Text

/-! ## §1. Runs of the table. -/

namespace CaseRun

/-- The run moves the code point. -/
def Holds (r : CaseRun) (code : Nat) : Prop :=
  r.first ≤ code ∧ code ≤ r.last ∧ (code - r.first) % r.step = 0

/-- The first code point that a run leads to. -/
def low (r : CaseRun) : Nat := (r.first + r.shift).toNat

/-- The last code point that a run leads to. -/
def high (r : CaseRun) : Nat := (r.last + r.shift).toNat

/-- The code points that a run leads to end before a range, or begin after it. -/
def missesRange (r : CaseRun) (first last : Nat) : Bool := Nat.blt r.high first || Nat.blt last r.low

/-- The code points that a run leads to are outside of another run, or between those that it
moves. -/
def misses (r q : CaseRun) : Bool :=
  r.missesRange q.first q.last
    || (Nat.beq r.step 2 || Nat.beq r.first r.last) && Nat.beq q.step 2
      && Nat.beq ((r.low + q.first) % 2) 1

/-- The code points that no run leads to: the capital letters of ASCII, the dotted capital I, what
is no character, and white space. -/
def avoided : List (Nat × Nat) := [(0x41, 0x5A), (0x130, 0x130), (0xD800, 0xDFFF)] ++ blankRanges.toList

/-- The run leads from characters beyond ASCII to characters that are not avoided. -/
def isProper (r : CaseRun) : Bool :=
  0x80 ≤ r.first && 0 ≤ r.first + r.shift && r.high < 0x110000
    && avoided.all fun range => r.missesRange range.1 range.2

variable {r q : CaseRun} {code image : Nat}

theorem shift_nonneg (h : r.isProper = true) : 0 ≤ r.first + r.shift := by
  simp only [isProper, Bool.and_eq_true, decide_eq_true_eq] at h
  exact h.1.1.2

/-- What a code point of the run is moved to lies between the ends of what the run leads to. -/
theorem image_mem (hproper : r.isProper = true) (hcode : r.Holds code)
    (himage : image = ((code : Int) + r.shift).toNat) : r.low ≤ image ∧ image ≤ r.high := by
  obtain ⟨hfirst, hlast, -⟩ := hcode
  have hshift := shift_nonneg hproper
  unfold low high
  omega

theorem not_mem_of_missesRange {first last : Nat} (h : r.missesRange first last = true)
    (himage : r.low ≤ image ∧ image ≤ r.high) : ¬ (first ≤ image ∧ image ≤ last) := by
  simp only [missesRange, Bool.or_eq_true, Nat.blt_eq] at h
  omega

theorem not_holds_of_misses (h : r.misses q = true) (hproper : r.isProper = true)
    (hcode : r.Holds code) (himage : image = ((code : Int) + r.shift).toNat) : ¬ q.Holds image := by
  rintro ⟨hfirst, hlast, hstep⟩
  rcases Bool.or_eq_true _ _ ▸ h with h | h
  · exact not_mem_of_missesRange h (image_mem hproper hcode himage) ⟨hfirst, hlast⟩
  · -- both runs go by every second code point, and one leads to what the other leaves out
    simp only [Bool.and_eq_true, Bool.or_eq_true, Nat.beq_eq] at h
    obtain ⟨⟨htwo, hq⟩, hodd⟩ := h
    obtain ⟨hbegin, hend, hcode⟩ := hcode
    have hshift := shift_nonneg hproper
    have heven : (code - r.first) % 2 = 0 := by
      rcases htwo with htwo | hone
      · rwa [htwo] at hcode
      · omega
    rw [hq] at hstep
    unfold low at hodd
    omega

end CaseRun

theorem misses_caseRuns : (caseRuns.toList.all fun r => caseRuns.toList.all r.misses) = true := by
  decide +kernel

theorem isProper_caseRuns : caseRuns.toList.all CaseRun.isProper = true := by
  decide +kernel

/-! ## §2. Characters. -/

/-- A character that lower case leaves as it is, wherever it stands. -/
structure IsSmall (c : Char) : Prop where
  fixed : lowerChar c = c
  not_sigma : c ≠ '\u03A3'
  not_dotted : c ≠ '\u0130'

variable {c : Char}

/-- What a run of the table leads to is no character that is avoided. -/
theorem not_avoided {r : CaseRun} (hr : r ∈ caseRuns) {code image : Nat} (hcode : r.Holds code)
    (himage : image = ((code : Int) + r.shift).toNat) :
    ∀ range ∈ CaseRun.avoided, ¬ (range.1 ≤ image ∧ image ≤ range.2) := by
  intro range hrange
  have hproper := List.all_eq_true.mp isProper_caseRuns r (Array.mem_def.mp hr)
  refine CaseRun.not_mem_of_missesRange ?_ (CaseRun.image_mem hproper hcode himage)
  exact List.all_eq_true.mp (Bool.and_eq_true _ _ ▸ hproper).2 range hrange

/-- Beyond ASCII, a character is in no run and its own lower case, or a run moves it. -/
theorem lowerChar_cases (hc : ¬ c.toNat < 128) :
    lowerChar c = c ∨ ∃ r ∈ caseRuns, r.Holds c.toNat
      ∧ (lowerChar c).toNat = ((c.toNat : Int) + r.shift).toNat := by
  unfold lowerChar
  dsimp only
  rw [if_neg hc]
  split
  · next r hfound =>
    have hr := Array.mem_of_find?_eq_some hfound
    have hcode : r.Holds c.toNat := by
      have hholds := Array.find?_some hfound
      simp only [Bool.and_eq_true, decide_eq_true_eq, and_assoc] at hholds
      exact hholds
    refine Or.inr ⟨r, hr, hcode, ?_⟩
    have hproper := List.all_eq_true.mp isProper_caseRuns r (Array.mem_def.mp hr)
    have hhigh := (CaseRun.image_mem hproper hcode rfl).2
    have hsurrogate := not_avoided hr hcode rfl (0xD800, 0xDFFF) (by decide)
    simp only [CaseRun.isProper, Bool.and_eq_true, decide_eq_true_eq] at hproper
    have hvalid : ((c.toNat : Int) + r.shift).toNat.isValidChar := by
      unfold Nat.isValidChar
      omega
    unfold Char.ofNat
    rw [dif_pos hvalid]
    rfl
  · exact Or.inl rfl

theorem lowerChar_of_not_holds (hc : ¬ c.toNat < 128) (h : ∀ r ∈ caseRuns, ¬ r.Holds c.toNat) :
    lowerChar c = c := by
  rcases lowerChar_cases hc with heq | ⟨r, hr, hcode, -⟩
  · exact heq
  · exact absurd hcode (h r hr)

/-- **The lower case of a character has no other lower case.** -/
theorem isSmall_lowerChar (hsigma : c ≠ '\u03A3') (hdotted : c ≠ '\u0130') : IsSmall (lowerChar c) := by
  by_cases hc : c.toNat < 128
  · have hsmall : lowerChar (lowerChar c) = lowerChar c ∧ lowerChar c ≠ '\u03A3'
        ∧ lowerChar c ≠ '\u0130' :=
      forall_ascii (P := fun c => lowerChar (lowerChar c) = lowerChar c ∧ lowerChar c ≠ '\u03A3'
        ∧ lowerChar c ≠ '\u0130') (by decide +kernel) hc
    exact ⟨hsmall.1, hsmall.2.1, hsmall.2.2⟩
  · rcases lowerChar_cases hc with heq | ⟨r, hr, hcode, himage⟩
    · rw [heq]
      exact ⟨heq, hsigma, hdotted⟩
    · -- no run moves what the run leads to
      have hfree : ∀ q ∈ caseRuns, ¬ q.Holds (lowerChar c).toNat := by
        intro q hq
        refine CaseRun.not_holds_of_misses ?_ ?_ hcode himage
        · exact List.all_eq_true.mp (List.all_eq_true.mp misses_caseRuns r (Array.mem_def.mp hr)) q
            (Array.mem_def.mp hq)
        · exact List.all_eq_true.mp isProper_caseRuns r (Array.mem_def.mp hr)
      have havoided := not_avoided hr hcode himage
      constructor
      case fixed =>
        by_cases hascii : (lowerChar c).toNat < 128
        · rw [lowerChar_of_ascii hascii]
          have hcapital := havoided (0x41, 0x5A) (by decide)
          unfold Char.toLower
          refine dif_neg fun hupper => hcapital ?_
          exact ⟨UInt32.le_iff_toNat_le.mp hupper.1, UInt32.le_iff_toNat_le.mp hupper.2⟩
        · exact lowerChar_of_not_holds hascii hfree
      case not_sigma =>
        intro heq
        rw [heq] at hfree
        have hmoved : ∃ q ∈ caseRuns,
            q.first ≤ 0x3A3 ∧ 0x3A3 ≤ q.last ∧ (0x3A3 - q.first) % q.step = 0 := by
          decide +kernel
        obtain ⟨q, hq, hholds⟩ := hmoved
        exact hfree q hq hholds
      case not_dotted =>
        intro heq
        rw [heq] at havoided
        exact havoided (0x130, 0x130) (by decide) (by decide)

/-- Lower case makes no white space. -/
theorem isBlank_lowerChar (h : isBlank c = false) : isBlank (lowerChar c) = false := by
  by_cases hc : c.toNat < 128
  · exact forall_ascii (P := fun c => isBlank c = false → isBlank (lowerChar c) = false)
      (by decide +kernel) hc h
  · rcases lowerChar_cases hc with heq | ⟨r, hr, hcode, himage⟩
    · rw [heq]
      exact h
    · refine Bool.eq_false_iff.mpr fun hblank => ?_
      unfold isBlank Ranges.mem at hblank
      obtain ⟨i, hi, hrange⟩ := Array.any_eq_true.mp hblank
      simp only [Bool.and_eq_true, decide_eq_true_eq] at hrange
      refine not_avoided hr hcode himage _ ?_ hrange
      exact List.mem_append_right _ (Array.mem_def.mp (Array.getElem_mem hi))

/-! ## §3. Texts. -/

/-- The lower case of a character in a text: one or more characters that stay as they are, and
no white space unless the character is. -/
theorem exists_lowerAfter_cons (before : List Char) (c : Char) (rest : List Char) :
    ∃ here, lowerAfter before (c :: rest) = here ++ lowerAfter (c :: before) rest ∧ here ≠ []
      ∧ (∀ d ∈ here, IsSmall d) ∧ (isBlank c = false → ∀ d ∈ here, isBlank d = false) := by
  have hfinal : IsSmall '\u03C2' := ⟨by decide +kernel, by decide, by decide⟩
  have hsmall : IsSmall '\u03C3' := ⟨by decide +kernel, by decide, by decide⟩
  have hi : IsSmall 'i' := ⟨by decide +kernel, by decide, by decide⟩
  have hdot : IsSmall '\u0307' := ⟨by decide +kernel, by decide, by decide⟩
  have hblank : ∀ d ∈ ['\u03C2', '\u03C3', 'i', '\u0307'], isBlank d = false := by
    simp only [List.forall_mem_cons]
    exact ⟨by decide +kernel, by decide +kernel, by decide +kernel, by decide +kernel, nofun⟩
  refine ⟨_, by rw [lowerAfter], ?_⟩
  split
  · split
    · exact ⟨List.cons_ne_nil _ _, by simpa using hfinal, fun _ d hd => hblank d (by simp_all)⟩
    · exact ⟨List.cons_ne_nil _ _, by simpa using hsmall, fun _ d hd => hblank d (by simp_all)⟩
  · next hsigma =>
    split
    · refine ⟨List.cons_ne_nil _ _, ?_, fun _ d hd => hblank d (by simp_all)⟩
      intro d hd
      rcases List.mem_pair.mp hd with rfl | rfl
      · exact hi
      · exact hdot
    · next hdotted =>
      refine ⟨List.cons_ne_nil _ _, ?_, ?_⟩
      · intro d hd
        obtain rfl := List.mem_singleton.mp hd
        exact isSmall_lowerChar hsigma hdotted
      · intro hc d hd
        obtain rfl := List.mem_singleton.mp hd
        exact isBlank_lowerChar hc

theorem isSmall_of_mem_lowerAfter {s : List Char} :
    ∀ {before : List Char}, c ∈ lowerAfter before s → IsSmall c := by
  induction s with
  | nil =>
    intro before hc
    cases hc
  | cons d rest ih =>
    intro before hc
    obtain ⟨here, heq, -, hsmall, -⟩ := exists_lowerAfter_cons before d rest
    rw [heq] at hc
    rcases List.mem_append.mp hc with hc | hc
    · exact hsmall c hc
    · exact ih hc

/-- What lower case leaves as it is it leaves as it is in every text. -/
theorem lowerAfter_of_small {s : List Char} :
    ∀ {before : List Char}, (∀ c ∈ s, IsSmall c) → lowerAfter before s = s := by
  induction s with
  | nil => intro before _; rfl
  | cons c rest ih =>
    intro before h
    have hc := h c List.mem_cons_self
    rw [lowerAfter, if_neg hc.not_sigma, if_neg hc.not_dotted, hc.fixed,
      ih fun d hd => h d (List.mem_cons_of_mem _ hd)]
    rfl

theorem lower_of_small {s : List Char} (h : ∀ c ∈ s, IsSmall c) : lower s = s := lowerAfter_of_small h

theorem isSmall_of_mem_lower {s : List Char} (h : c ∈ lower s) : IsSmall c :=
  isSmall_of_mem_lowerAfter h

/-- **Lower case is reached in one step.** -/
theorem lower_lower (s : List Char) : lower (lower s) = lower s :=
  lower_of_small fun _ hc => isSmall_of_mem_lower hc

/-- A text that does not end in white space does not in lower case. -/
theorem isBlank_getLast?_lowerAfter {s : List Char} :
    ∀ {before : List Char}, (∀ c ∈ s.getLast?, isBlank c = false) →
      ∀ c ∈ (lowerAfter before s).getLast?, isBlank c = false := by
  induction s with
  | nil =>
    intro before _ c hc
    cases hc
  | cons d rest ih =>
    intro before h c hc
    obtain ⟨here, heq, hne, -, hblank⟩ := exists_lowerAfter_cons before d rest
    rw [heq, List.getLast?_append] at hc
    cases rest with
    | nil => exact hblank (h d rfl) c (List.mem_of_getLast? hc)
    | cons e more =>
      -- the end of the text is the end of what follows
      have hrest : (lowerAfter (d :: before) (e :: more)).getLast? ≠ none := by
        obtain ⟨here', heq', hne', -⟩ := exists_lowerAfter_cons (d :: before) e more
        rw [heq', Ne, List.getLast?_eq_none_iff]
        simp [hne']
      obtain ⟨last, hlast⟩ := Option.ne_none_iff_exists'.mp hrest
      rw [hlast] at hc
      refine @ih (d :: before) (fun c hc => h c ?_) c (hlast.trans hc)
      rw [Option.mem_def, List.getLast?_cons_cons]
      exact hc

theorem isBlank_getLast?_lower {s : List Char} (h : ∀ c ∈ s.getLast?, isBlank c = false) :
    ∀ c ∈ (lower s).getLast?, isBlank c = false := isBlank_getLast?_lowerAfter h

end EmbeddedExpr.Text
