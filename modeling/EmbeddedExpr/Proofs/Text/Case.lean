/-
  EmbeddedExpr.Proofs.Text.Case
  ─────────────────────────────
  **LOWER CASE AND LETTERS UP TO CASE.**

  A word in small letters matches texts that are not the word in lower case: the long s and
  the dotless i have no other lower case than themselves, and the dotted capital I becomes two
  characters.  A text that matches is the word in lower case exactly when it is so in ASCII.
-/
import EmbeddedExpr.Text.Case
import EmbeddedExpr.Text.CaseMatch
import Mathlib.Data.List.Forall2

namespace EmbeddedExpr.Text

/-! ## §1. Lower case. -/

/-- What holds of the first code points holds of the characters of ASCII. -/
theorem forall_ascii {P : Char → Prop} (h : ∀ n < 128, P (Char.ofNat n)) {c : Char}
    (hc : c.toNat < 128) : P c := by
  have h := h c.toNat hc
  rwa [Char.ofNat_toNat] at h

/-- In ASCII, only the capital letters have a lower case. -/
theorem lowerChar_of_ascii {c : Char} (hc : c.toNat < 128) : lowerChar c = c.toLower :=
  forall_ascii (P := fun c => lowerChar c = c.toLower) (by decide +kernel) hc

theorem isAlpha_toLower_of_ascii {c : Char} (hc : c.toNat < 128) :
    c.toLower.isAlpha = c.isAlpha :=
  forall_ascii (P := fun c => c.toLower.isAlpha = c.isAlpha) (by decide +kernel) hc

theorem lowerAfter_cons_of_ascii {c : Char} (hc : c.toNat < 128) (before rest : List Char) :
    lowerAfter before (c :: rest) = c.toLower :: lowerAfter (c :: before) rest := by
  have hsigma : c ≠ '\u03A3' := by
    rintro rfl
    exact absurd hc (by decide)
  have hdotted : c ≠ '\u0130' := by
    rintro rfl
    exact absurd hc (by decide)
  simp only [lowerAfter]
  rw [if_neg hsigma, if_neg hdotted, lowerChar_of_ascii hc]
  rfl

/-- No text gets shorter in lower case. -/
theorem length_le_lowerAfter (s : List Char) :
    ∀ before : List Char, s.length ≤ (lowerAfter before s).length := by
  induction s with
  | nil => intro before; exact Nat.le_refl 0
  | cons c rest ih =>
    intro before
    have hrest := ih (c :: before)
    simp only [lowerAfter]
    rw [List.length_append, List.length_cons, Nat.add_comm]
    refine Nat.add_le_add ?_ hrest
    split
    · split
      · exact Nat.le_refl 1
      · exact Nat.le_refl 1
    · split
      · exact Nat.le_succ 1
      · exact Nat.le_refl 1

/-! ## §2. Letters up to case. -/

/-- The letters are those of the word up to case. -/
def Recased (word letters : List Char) : Prop :=
  List.Forall₂ (fun letter c => isCaseOf letter c = true) word letters

theorem Recased.length_eq {word letters : List Char} (h : Recased word letters) :
    word.length = letters.length :=
  List.Forall₂.length_eq h

theorem Recased.exists_of_mem {word letters : List Char} (h : Recased word letters) {c : Char}
    (hc : c ∈ letters) : ∃ letter ∈ word, isCaseOf letter c = true := by
  induction h with
  | nil => cases hc
  | @cons letter d word letters hd _ ih =>
    rcases List.mem_cons.mp hc with rfl | hc
    · exact ⟨letter, List.mem_cons_self, hd⟩
    · obtain ⟨letter', hmem, hcase⟩ := ih hc
      exact ⟨letter', List.mem_cons_of_mem _ hmem, hcase⟩

/-- What stands before the rest is the word up to case. -/
theorem exists_letters_of_afterWord? {word s rest : List Char} (h : afterWord? word s = some rest) :
    ∃ letters, s = letters ++ rest ∧ Recased word letters := by
  induction word generalizing s with
  | nil => exact ⟨[], Option.some.inj h, List.Forall₂.nil⟩
  | cons letter word ih =>
    cases s with
    | nil => cases h
    | cons c s =>
      simp only [afterWord?] at h
      split at h
      · next hc =>
        obtain ⟨letters, rfl, hcase⟩ := ih h
        exact ⟨c :: letters, rfl, List.Forall₂.cons hc hcase⟩
      · cases h

/-- The letters that are not the small letter in ASCII lower case. -/
theorem eq_of_isCaseOf {letter c : Char} (h : isCaseOf letter c = true) (hk : letter ≠ 'k') :
    c.toLower = letter ∨ (letter = 's' ∧ c = '\u017F') ∨ (letter = 'i' ∧ c = '\u0130')
      ∨ (letter = 'i' ∧ c = '\u0131') := by
  simp only [isCaseOf, Bool.or_eq_true, Bool.and_eq_true, decide_eq_true_eq] at h
  rcases h with ((h | h) | ⟨hi, hdotted | hdotless⟩) | ⟨h, -⟩
  · exact Or.inl h
  · exact Or.inr (Or.inl h)
  · exact Or.inr (Or.inr (Or.inl ⟨hi, hdotted⟩))
  · exact Or.inr (Or.inr (Or.inr ⟨hi, hdotless⟩))
  · exact absurd h hk

theorem ascii_of_toLower {c : Char} (h : c.toLower.toNat < 128) : c.toNat < 128 := by
  unfold Char.toLower at h
  split at h
  · next hupper =>
    have hle := UInt32.le_iff_toNat_le.mp hupper.2
    have hZ : 'Z'.val.toNat = 90 := rfl
    show c.val.toNat < 128
    omega
  · exact h

/-- **A text that is a word up to case is the word in lower case when it is so in ASCII, and
in no other case.** -/
theorem lowerAfter_eq_iff {word letters : List Char}
    (hword : ∀ letter ∈ word, letter.toNat < 128 ∧ letter ≠ 'k') (h : Recased word letters) :
    ∀ before : List Char, lowerAfter before letters = word ↔ letters.map Char.toLower = word := by
  induction h with
  | nil => exact fun before => Iff.rfl
  | @cons letter c word letters hc _ ih =>
    intro before
    obtain ⟨hascii, hk⟩ := hword letter List.mem_cons_self
    have hmore := ih (fun l hl => hword l (List.mem_cons_of_mem _ hl)) (c :: before)
    by_cases hlower : c.toLower = letter
    · have hcode : c.toNat < 128 := ascii_of_toLower (by rw [hlower]; exact hascii)
      rw [lowerAfter_cons_of_ascii hcode, List.map_cons, hlower, List.cons.injEq, List.cons.injEq,
        hmore]
    · -- neither the lower case nor the one in ASCII begins with the letter
      have hmap : ¬ (c :: letters).map Char.toLower = letter :: word := by
        intro heq
        exact hlower (List.cons.inj heq).1
      refine iff_of_false ?_ hmap
      rcases (eq_of_isCaseOf hc hk).resolve_left hlower with ⟨rfl, rfl⟩ | ⟨rfl, rfl⟩ | ⟨rfl, rfl⟩
      · intro heq
        have hhead : lowerChar '\u017F' = 's' := (List.cons.inj heq).1
        exact absurd hhead (by decide +kernel)
      · intro heq
        have hdot : '\u0307' :: lowerAfter ('\u0130' :: before) letters = word :=
          (List.cons.inj heq).2
        have hcode := (hword '\u0307' (List.mem_cons_of_mem _ (hdot ▸ List.mem_cons_self))).1
        exact absurd hcode (by decide)
      · intro heq
        have hhead : lowerChar '\u0131' = 'i' := (List.cons.inj heq).1
        exact absurd hhead (by decide +kernel)

end EmbeddedExpr.Text
