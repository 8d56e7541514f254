/-
  EmbeddedExpr.Proofs.Text.Lines
  ──────────────────────────────
  **LINE ENDS AND WHAT STANDS BETWEEN THEM.**

  Reading a text file writes every line end as one line feed.  A carriage return with a line feed
  after it becomes one character, so that what follows moves up by one (`pairs` counts them):

      (unifyBreaks s).length + pairs s = s.length

  Each place of the text that is read has a place in the file, where what stands before it and after
  it is read separately (`exists_split_of_unifyBreaks`).

  A file that holds lines (`Holds`), whatever their ends are, is cut into these lines again; a blank
  one at the end may be missing.
-/
import EmbeddedExpr.Text.Lines
import EmbeddedExpr.Text.Utf8
import Mathlib.Data.List.Basic

namespace EmbeddedExpr.Text

/-! ## §1. Octets. -/

/-- In octets that are well formed throughout there is nothing to leave out. -/
theorem Utf8.decodeValid_of_decode? {octets : List UInt8} {text : List Char}
    (h : decode? octets = some text) : decodeValid octets = text := by
  induction octets using decode?.induct generalizing text with
  | case1 =>
    rw [decode?] at h
    rw [decodeValid]
    exact Option.some.inj h
  | case2 lead rest c size hhead ih =>
    rw [decode?, hhead] at h
    obtain ⟨more, hmore, rfl⟩ := Option.map_eq_some_iff.mp h
    rw [decodeValid, hhead]
    show c :: decodeValid _ = c :: more
    rw [ih hmore]
  | case3 lead rest size hhead =>
    rw [decode?, hhead] at h
    cases h

/-! ## §2. Line ends written as line feeds. -/

/-- The number of carriage returns with a line feed after them. -/
def pairs : List Char → Nat
  | [] => 0
  | '\r' :: '\n' :: rest => pairs rest + 1
  | _ :: rest => pairs rest

theorem unifyBreaks_cons_of_ne {c : Char} (hc : c ≠ '\r') (rest : List Char) :
    unifyBreaks (c :: rest) = c :: unifyBreaks rest := by
  rw [unifyBreaks]
  · intro _ h _
    exact hc h
  · exact hc

/-- A carriage return alone is a line end of its own. -/
theorem unifyBreaks_return {rest : List Char} (h : ∀ more, rest ≠ '\n' :: more) :
    unifyBreaks ('\r' :: rest) = '\n' :: unifyBreaks rest := by
  rw [unifyBreaks]
  exact h

/-- Whatever comes after a carriage return, what is read there begins with a line feed. -/
theorem exists_unifyBreaks_return (rest : List Char) :
    ∃ more, unifyBreaks ('\r' :: rest) = '\n' :: more := by
  cases rest with
  | nil => exact ⟨[], rfl⟩
  | cons d rest =>
    by_cases hd : d = '\n'
    · rw [hd]
      exact ⟨_, unifyBreaks.eq_2 rest⟩
    · refine ⟨_, unifyBreaks_return ?_⟩
      intro more h
      exact hd (List.cons.inj h).1

/-- **Every pair makes the text that is read shorter by one character.** -/
theorem length_unifyBreaks (s : List Char) : (unifyBreaks s).length + pairs s = s.length := by
  induction s using pairs.induct with
  | case1 => rfl
  | case2 rest ih =>
    rw [unifyBreaks, pairs, List.length_cons, List.length_cons, List.length_cons]
    omega
  | case3 c rest hpair ih =>
    rw [pairs]
    · by_cases hc : c = '\r'
      · rw [hc, unifyBreaks_return (fun more => hpair more hc), List.length_cons, List.length_cons]
        omega
      · rw [unifyBreaks_cons_of_ne hc, List.length_cons, List.length_cons]
        omega
    · exact hpair

theorem pairs_of_notMem {s : List Char} (h : '\r' ∉ s) : pairs s = 0 := by
  induction s with
  | nil => rfl
  | cons c rest ih =>
    have hc : c ≠ '\r' := fun heq => h (heq ▸ List.mem_cons_self)
    rw [pairs]
    · exact ih fun hmem => h (List.mem_cons_of_mem _ hmem)
    · intro _ heq _
      exact hc heq

/-- **A place of the text that is read has a place in the file.** -/
theorem exists_split_of_unifyBreaks {s : List Char} :
    ∀ k ≤ (unifyBreaks s).length, ∃ front back, s = front ++ back
      ∧ unifyBreaks front = (unifyBreaks s).take k ∧ unifyBreaks back = (unifyBreaks s).drop k := by
  induction s using unifyBreaks.induct with
  | case1 =>
    intro k _
    exact ⟨[], [], rfl, by simp [unifyBreaks], by simp [unifyBreaks]⟩
  | case2 rest ih =>
    intro k hk
    rw [unifyBreaks] at hk ⊢
    cases k with
    | zero => exact ⟨[], _, rfl, rfl, unifyBreaks.eq_2 rest⟩
    | succ k =>
      -- both characters of the pair are before the place
      obtain ⟨front, back, rfl, hfront, hback⟩ := ih k (Nat.le_of_succ_le_succ hk)
      refine ⟨'\r' :: '\n' :: front, back, rfl, ?_, hback⟩
      rw [unifyBreaks, hfront]
      rfl
  | case3 rest hpair ih =>
    intro k hk
    rw [unifyBreaks_return hpair] at hk ⊢
    cases k with
    | zero => exact ⟨[], _, rfl, rfl, unifyBreaks_return hpair⟩
    | succ k =>
      obtain ⟨front, back, rfl, hfront, hback⟩ := ih k (Nat.le_of_succ_le_succ hk)
      refine ⟨'\r' :: front, back, rfl, ?_, hback⟩
      -- what is before the place has no pair here either, as the file has none
      have halone : ∀ more, front ≠ '\n' :: more := by
        intro more hmore
        exact hpair (more ++ back) (by rw [hmore]; rfl)
      rw [unifyBreaks_return halone, hfront]
      rfl
  | case4 c rest hpair hc ih =>
    intro k hk
    rw [unifyBreaks_cons_of_ne hc] at hk ⊢
    cases k with
    | zero => exact ⟨[], _, rfl, rfl, unifyBreaks_cons_of_ne hc rest⟩
    | succ k =>
      obtain ⟨front, back, rfl, hfront, hback⟩ := ih k (Nat.le_of_succ_le_succ hk)
      refine ⟨c :: front, back, rfl, ?_, hback⟩
      rw [unifyBreaks_cons_of_ne hc, hfront]
      rfl

/-- **A text is read as it stands in the file exactly when it has no carriage return**, whatever
follows it there. -/
theorem take_eq_unifyBreaks_iff (s back : List Char) :
    (s ++ back).take (unifyBreaks s).length = unifyBreaks s ↔ '\r' ∉ s := by
  induction s with
  | nil => simp [unifyBreaks]
  | cons c rest ih =>
    by_cases hc : c = '\r'
    · -- the file has a carriage return here, and what is read a line feed
      rw [hc]
      refine iff_of_false ?_ (fun h => h List.mem_cons_self)
      intro heq
      obtain ⟨more, hmore⟩ := exists_unifyBreaks_return rest
      rw [hmore] at heq
      exact absurd (List.cons.inj heq).1 (by decide)
    · rw [unifyBreaks_cons_of_ne hc, List.length_cons, List.cons_append, List.take_succ_cons,
        List.cons.injEq, List.mem_cons, ih]
      simp [Ne.symm hc]

/-! ## §3. Lines. -/

/-- A text without a character that ends a line. -/
def IsLine (s : List Char) : Prop := ∀ c ∈ s, isLineEnd c = false

instance : DecidablePred IsLine := fun s => List.decidableBAll (fun c => isLineEnd c = false) s

/-- The text of a file is the lines one after the other.  Each has a line end, in any of the ways to
write one, but perhaps the last. -/
def Holds (text : List Char) (all : List (List Char)) : Prop :=
  ∃ ended last, unifyBreaks text = (ended.flatMap fun line => line ++ ['\n']) ++ last
    ∧ (all = ended ++ [last] ∨ all = ended ∧ last = [])

theorem linePieces_cons_of_not {c : Char} (hc : isLineEnd c = false) {rest piece : List Char}
    {more : List (List Char)} (h : linePieces rest = piece :: more) :
    linePieces (c :: rest) = (c :: piece) :: more := by
  rw [linePieces, hc, h]
  · rfl
  · intro _ hr _
    rw [hr] at hc
    exact absurd hc (by decide)

theorem linePieces_append {line : List Char} (hline : IsLine line) {rest piece : List Char}
    {more : List (List Char)} (h : linePieces rest = piece :: more) :
    linePieces (line ++ rest) = (line ++ piece) :: more := by
  induction line with
  | nil => exact h
  | cons c line ih =>
    have hrest := ih fun d hd => hline d (List.mem_cons_of_mem _ hd)
    exact linePieces_cons_of_not (hline c List.mem_cons_self) hrest

/-- Lines with a line feed after each of them but the last are the pieces of their text. -/
theorem linePieces_lines {ended : List (List Char)} {last : List Char}
    (hended : ∀ line ∈ ended, IsLine line) (hlast : IsLine last) :
    linePieces ((ended.flatMap fun line => line ++ ['\n']) ++ last) = ended ++ [last] := by
  induction ended with
  | nil =>
    have hpieces : linePieces (last ++ []) = (last ++ []) :: [] := linePieces_append hlast rfl
    rwa [List.append_nil] at hpieces
  | cons line ended ih =>
    have hrest := ih fun l hl => hended l (List.mem_cons_of_mem _ hl)
    have hfeed : ∀ s, linePieces ('\n' :: s) = [] :: linePieces s := by
      intro s
      rw [linePieces]
      · rfl
      · intro _ h _
        exact absurd h (by decide)
    rw [List.flatMap_cons, List.append_assoc, List.append_assoc]
    show linePieces (line ++ '\n' :: ((ended.flatMap fun line => line ++ ['\n']) ++ last)) = _
    rw [linePieces_append (hended line List.mem_cons_self) (hfeed _), hrest, List.append_nil]
    rfl

/-- **A file that holds lines is cut into them**, but for a blank one at its end. -/
theorem lines_of_holds {text : List Char} {all : List (List Char)} (h : Holds text all)
    (hall : ∀ line ∈ all, IsLine line) :
    lines (unifyBreaks text) = all ∨ all = lines (unifyBreaks text) ++ [[]] := by
  obtain ⟨ended, last, htext, hcases⟩ := h
  have hended : ∀ line ∈ ended, IsLine line := by
    intro line hline
    apply hall
    rcases hcases with rfl | ⟨rfl, -⟩
    · exact List.mem_append_left _ hline
    · exact hline
  have hlast : IsLine last := by
    rcases hcases with rfl | ⟨-, rfl⟩
    · exact hall last (by simp)
    · intro c hc
      cases hc
  have hlines : lines (unifyBreaks text) = if last = [] then ended else ended ++ [last] := by
    unfold lines
    rw [htext, linePieces_lines hended hlast]
    simp
  rw [hlines]
  rcases hcases with rfl | ⟨rfl, rfl⟩
  · split
    · next hempty =>
      rw [hempty]
      exact Or.inr rfl
    · exact Or.inl rfl
  · exact Or.inl (if_pos rfl)

end EmbeddedExpr.Text
