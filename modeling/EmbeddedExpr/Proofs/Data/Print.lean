/-
  EmbeddedExpr.Proofs.Data.Print
  ──────────────────────────────
  **WHICH VALUES HAVE A TEXT.**

  A whole number has no text when it has too many digits, and a value has none when such a number
  stands in it (`isWritable`).  Every other value has a text, whatever places it leads through:

      d and all shares are writable  →  d.display? shares ≠ none

  A collection may hold itself.  The places around one another differ, so that going from place
  to place comes to an end before the fuel does (`sharedText_isSome`).
-/
import EmbeddedExpr.Data.Print

namespace EmbeddedExpr.Data

/-! ## §1. Values without long numbers. -/

/-- The whole number has few enough digits to be written. -/
def isShort (i : Int) : Bool := (intText i.natAbs).length ≤ Text.mostDecimalDigits

mutual
/-- Every whole number in a value can be written. -/
def isWritable : Data → Bool
  | .int i => isShort i
  | .list items => areWritable items
  | .tuple items => areWritable items
  | .set items => areWritable items
  | .map entries => areEntriesWritable entries
  | .ordered entries => areEntriesWritable entries
  | _ => true
/-- Every whole number in values can be written. -/
def areWritable : List Data → Bool
  | [] => true
  | d :: more => isWritable d && areWritable more
/-- Every whole number in entries can be written. -/
def areEntriesWritable : List (Data × Data) → Bool
  | [] => true
  | (k, v) :: more => isWritable k && isWritable v && areEntriesWritable more
end

theorem isWritable_of_mem {d : Data} {items : List Data} (h : areWritable items = true)
    (hd : d ∈ items) : d.isWritable = true := by
  induction items with
  | nil => cases hd
  | cons first more ih =>
    unfold areWritable at h
    rw [Bool.and_eq_true] at h
    rcases List.mem_cons.mp hd with rfl | hd
    · exact h.1
    · exact ih h.2 hd

theorem isWritable_of_mem_entries {e : Data × Data} {entries : List (Data × Data)}
    (h : areEntriesWritable entries = true) (he : e ∈ entries) :
    e.1.isWritable = true ∧ e.2.isWritable = true := by
  induction entries with
  | nil => cases he
  | cons first more ih =>
    obtain ⟨k, v⟩ := first
    unfold areEntriesWritable at h
    rw [Bool.and_eq_true, Bool.and_eq_true] at h
    rcases List.mem_cons.mp he with rfl | he
    · exact h.1
    · exact ih h.2 he

/-- The entries of a value without long numbers have none. -/
theorem areEntriesWritable_of_entries? {d : Data} {entries : List (Data × Data)}
    (h : d.isWritable = true) (hentries : d.entries? = some entries) :
    areEntriesWritable entries = true := by
  cases d <;> simp_all [entries?, isWritable]

/-- The value of a field of entries without long numbers has none. -/
theorem isWritable_of_field? {name : String} {d : Data} {entries : List (Data × Data)}
    (h : areEntriesWritable entries = true) (hd : field? name entries = some d) :
    d.isWritable = true := by
  obtain ⟨e, he, rfl⟩ := Option.map_eq_some_iff.mp hd
  exact (isWritable_of_mem_entries h (List.mem_of_find?_eq_some he)).2

/-! ## §2. Texts. -/

theorem intText?_isSome {i : Int} : (intText? i).isSome = isShort i := by
  unfold intText? isShort
  split
  · next h => exact (decide_eq_false (Nat.not_le.mpr h)).symm
  · next h => exact (decide_eq_true (Nat.not_lt.mp h)).symm

theorem lt_length_intText {number digits : Nat} (hdigits : 0 < digits)
    (h : Nat.pow 10 digits ≤ number) : digits < (intText number).length := by
  refine Nat.lt_of_not_le fun hle => ?_
  have hle : number.repr.length ≤ digits := String.length_toList ▸ hle
  exact Nat.not_lt_of_ge h ((Nat.length_repr_le_iff hdigits).mp hle)

theorem intText?_eq_none {number : Nat} (h : Nat.pow 10 Text.mostDecimalDigits ≤ number) :
    intText? number = none := if_pos (lt_length_intText (by decide) h)

variable {named : Nat → Option (List Char)}

mutual
/-- A value has a text when what its places hold has. -/
theorem quotedWith_isSome (hnamed : ∀ place, (named place).isSome = true) (d : Data)
    (h : d.isWritable = true) : (quotedWith named d).isSome = true := by
  match d with
  | .null | .bool true | .bool false | .float _ | .str _ | .date _ | .timestamp _ | .octets _
  | .set [] => rfl
  | .int i => exact intText?_isSome.trans h
  | .shared place => exact hnamed place
  | .list items | .tuple items =>
    unfold quotedWith
    rw [Option.isSome_map]
    exact quotedItems_isSome hnamed items h
  | .map entries | .ordered entries =>
    unfold quotedWith
    rw [Option.isSome_map]
    exact quotedEntries_isSome hnamed entries h
  | .set (item :: items) =>
    unfold quotedWith
    rw [Option.isSome_map]
    exact quotedItems_isSome hnamed (item :: items) h
theorem quotedItems_isSome (hnamed : ∀ place, (named place).isSome = true) (items : List Data)
    (h : areWritable items = true) : (quotedItems named items).isSome = true := by
  match items with
  | [] => rfl
  | d :: more =>
    unfold areWritable at h
    rw [Bool.and_eq_true] at h
    obtain ⟨text, htext⟩ := Option.isSome_iff_exists.mp (quotedWith_isSome hnamed d h.1)
    obtain ⟨texts, htexts⟩ := Option.isSome_iff_exists.mp (quotedItems_isSome hnamed more h.2)
    unfold quotedItems
    rw [htext, htexts]
    rfl
theorem quotedEntries_isSome (hnamed : ∀ place, (named place).isSome = true)
    (entries : List (Data × Data)) (h : areEntriesWritable entries = true) :
    (quotedEntries named entries).isSome = true := by
  match entries with
  | [] => rfl
  | (k, v) :: more =>
    unfold areEntriesWritable at h
    rw [Bool.and_eq_true, Bool.and_eq_true] at h
    obtain ⟨key, hkey⟩ := Option.isSome_iff_exists.mp (quotedWith_isSome hnamed k h.1.1)
    obtain ⟨value, hvalue⟩ := Option.isSome_iff_exists.mp (quotedWith_isSome hnamed v h.1.2)
    obtain ⟨texts, htexts⟩ := Option.isSome_iff_exists.mp (quotedEntries_isSome hnamed more h.2)
    unfold quotedEntries
    rw [hkey, hvalue, htexts]
    rfl
end

/-! ## §3. Places. -/

variable {shares : Shares}

/-- The shares of a document have no long numbers. -/
def Shares.AreWritable (shares : Shares) : Prop := ∀ s ∈ shares, s.2.isWritable = true

theorem isWritable_view (h : Shares.AreWritable shares) {d : Data} (hd : d.isWritable = true) :
    (d.view shares).isWritable = true := by
  cases d with
  | shared place =>
    show ((shares.lookup place).getD .null).isWritable = true
    cases hlookup : shares.lookup place with
    | none => rfl
    | some contents =>
      obtain ⟨front, back, rfl, -⟩ := List.lookup_eq_some_iff.mp hlookup
      exact h (place, contents) (by simp)
  | _ => exact hd

/-- The places of a document that are not around a value. -/
def outside (shares : Shares) (around : List Nat) : List (Nat × Data) :=
  shares.filter fun s => !around.contains s.1

/-- A place that is entered is no longer outside. -/
theorem outside_lt {around : List Nat} {place : Nat} {contents : Data}
    (hplace : (place, contents) ∈ shares) (h : around.contains place = false) :
    (outside shares (place :: around)).length < (outside shares around).length := by
  have heq : outside shares (place :: around)
      = (outside shares around).filter fun s => s.1 ≠ place := by
    unfold outside
    rw [List.filter_filter]
    refine List.filter_congr fun s _ => ?_
    simp
  rw [heq]
  refine List.length_filter_lt_length_iff_exists.mpr ⟨(place, contents), ?_, by simp⟩
  exact List.mem_filter.mpr ⟨hplace, Bool.not_eq_true' _ ▸ h⟩

/-- **What a place holds has a text**, when fewer places are outside than there is fuel. -/
theorem sharedText_isSome (h : Shares.AreWritable shares) (fuel : Nat) :
    ∀ {around : List Nat} (place : Nat), (outside shares around).length < fuel →
      (sharedText shares fuel around place).isSome = true := by
  -- on the fuel: a place that is entered is outside no more, so fewer are left for what it holds
  induction fuel with
  | zero => intro around place hfuel; cases hfuel
  | succ fuel ih =>
    intro around place hfuel
    rw [sharedText]
    by_cases haround : around.contains place = true
    · rw [if_pos haround]
      rfl
    · have haround := Bool.eq_false_iff.mpr haround
      rw [haround, if_neg Bool.false_ne_true]
      cases hlookup : shares.lookup place with
      | none =>
        -- nothing stands at the place
        rw [view, hlookup]
        rfl
      | some contents =>
        obtain ⟨front, back, hshares, -⟩ := List.lookup_eq_some_iff.mp hlookup
        have hplace : (place, contents) ∈ shares := by simp [hshares]
        have hlt := outside_lt hplace haround
        refine quotedWith_isSome (fun other => ih other (by omega)) _ ?_
        exact isWritable_view h rfl

/-- **A value without long numbers has a text.** -/
theorem quoted?_isSome (h : Shares.AreWritable shares) {d : Data} (hd : d.isWritable = true) :
    (d.quoted? shares).isSome = true := by
  refine quotedWith_isSome (fun place => sharedText_isSome h _ place ?_) d hd
  exact Nat.lt_succ_of_le (List.length_filter_le _ _)

theorem display?_isSome (h : Shares.AreWritable shares) {d : Data} (hd : d.isWritable = true) :
    (d.display? shares).isSome = true := by
  unfold display?
  split
  · rfl
  · rfl
  · rfl
  · rw [Option.isSome_map]
    exact quoted?_isSome h hd

end EmbeddedExpr.Data
