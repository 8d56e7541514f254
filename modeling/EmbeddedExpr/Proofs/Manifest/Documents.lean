/-
  EmbeddedExpr.Proofs.Manifest.Documents
  ──────────────────────────────────────
  **THE STAMP OF A DOCUMENT TELLS ITS TEXT.**

  Documents are opened, changed and closed, while files and links change in any way.  What is
  open at a location is its last update, unless it was closed since (`OpenAt`):

      (after es n).document? l = some (number, text)  ↔  OpenAt es n l number text

  The number of an update is greater than all before it (`number_lt`), so no two updates share
  one.  A stamp with a number therefore stands for one location and one text, at whatever
  moments it is seen (`stamps_tell_texts`).

  `document?_next_iff` says what one edit does to a document, and `document?_after_iff` what a
  run of edits does.
-/
import EmbeddedExpr.Proofs.Manifest.Run

namespace EmbeddedExpr.Manifest.Buffers

/-! ## §1. Edits. -/

/-- What is done with a document. -/
inductive Action where
  | update (text : List Char)
  | close

/-- What is done with the document that a path names, and the files as they are then. -/
structure Edit where
  tree : Entry
  path : List String
  action : Action

/-- The path of the edit names the location. -/
def Edit.At (e : Edit) (l : Location) : Prop := Tree.resolve e.tree e.path = .ok l

/-- The documents after an edit, and the number that it returns if it is an update. -/
def edit (b : Buffers) (e : Edit) : Option Nat × Buffers :=
  match e.action with
  | .update text => ((b.updateAt e.tree e.path text).1.toOption, (b.updateAt e.tree e.path text).2)
  | .close => (none, (b.closeAt e.tree e.path).toOption.getD b)

/-- The documents after the first `n` edits of a run. -/
def after (es : List Edit) (n : Nat) : Buffers :=
  (es.take n).foldl (fun b e => (b.edit e).2) .empty

/-- The number that the edit at moment `n` of a run returns. -/
def returned? (es : List Edit) (n : Nat) : Option Nat :=
  es[n]?.bind fun e => ((after es n).edit e).1

/-! ## §2. One edit. -/

variable {b : Buffers} {e : Edit} {l : Location} {number : Nat} {text : List Char}

theorem document?_close (b : Buffers) (l other : Location) :
    (b.close l).document? other = if other = l then none else b.document? other :=
  lookup_filter_ne l other b.documents

theorem document?_update (b : Buffers) (l other : Location) (text : List Char) :
    (b.update l text).document? other
      = if other = l then some (b.counter + 1, text) else b.document? other := by
  show ((l, b.counter + 1, text) :: (b.close l).documents).lookup other = _
  rw [List.lookup_cons]
  by_cases h : other = l
  · rw [if_pos h, beq_iff_eq.mpr h]
  · rw [if_neg h, beq_false_of_ne h]
    exact (document?_close b l other).trans (if_neg h)

/-- What an edit does: a document is updated under the next number, a document is closed, or
the path leads through a loop.  An update counts even then. -/
theorem edit_cases (b : Buffers) (e : Edit) :
    (∃ l text, e.action = .update text ∧ e.At l ∧ b.edit e = (some (b.counter + 1), b.update l text))
      ∨ (∃ l, e.action = .close ∧ e.At l ∧ b.edit e = (none, b.close l))
      ∨ ((∀ l, ¬ e.At l) ∧ (b.edit e).1 = none ∧ (b.edit e).2.documents = b.documents
          ∧ b.counter ≤ (b.edit e).2.counter) := by
  obtain ⟨tree, path, action⟩ := e
  unfold Edit.At edit updateAt closeAt
  cases Tree.resolve tree path with
  | ok l =>
    cases action with
    | update text => exact Or.inl ⟨l, text, rfl, rfl, rfl⟩
    | close => exact Or.inr (Or.inl ⟨l, rfl, rfl, rfl⟩)
  | error loop =>
    refine Or.inr (Or.inr ⟨nofun, ?_⟩)
    cases action with
    | update text => exact ⟨rfl, rfl, Nat.le_succ _⟩
    | close => exact ⟨rfl, rfl, Nat.le_refl _⟩

/-- The edit updates the document at a location, and returns the number. -/
def Updates (b : Buffers) (e : Edit) (l : Location) (number : Nat) (text : List Char) : Prop :=
  e.action = .update text ∧ e.At l ∧ (b.edit e).1 = some number

/-- An edit about another location leaves what is open here. -/
theorem updates_or_iff_of_elsewhere (h : ¬ e.At l) :
    b.Updates e l number text ∨ (b.document? l = some (number, text) ∧ ¬ e.At l)
      ↔ b.document? l = some (number, text) :=
  ⟨fun ho => (ho.resolve_left fun hu => h hu.2.1).1, fun hd => Or.inr ⟨hd, h⟩⟩

/-- **After an edit a document is open exactly when the edit updates it, or when it was open
before and the edit is about another location.** -/
theorem document?_next_iff :
    (b.edit e).2.document? l = some (number, text)
      ↔ b.Updates e l number text ∨ (b.document? l = some (number, text) ∧ ¬ e.At l) := by
  by_cases hl : e.At l
  · -- the edit is about this location, so it updates the document or closes it
    unfold Updates
    rcases b.edit_cases e with ⟨at_, new, ha, hat, he⟩ | ⟨at_, ha, hat, he⟩ | ⟨hat, -⟩
    · obtain rfl : at_ = l := Except.ok.inj (hat.symm.trans hl)
      rw [he, document?_update, if_pos rfl, ha]
      constructor
      · intro h
        obtain ⟨rfl, rfl⟩ := Prod.mk.inj (Option.some.inj h)
        exact Or.inl ⟨rfl, hat, rfl⟩
      · rintro (⟨ht, -, hn⟩ | ⟨-, hn⟩)
        · rw [Action.update.inj ht, Option.some.inj hn]
        · exact absurd hat hn
    · obtain rfl : at_ = l := Except.ok.inj (hat.symm.trans hl)
      rw [he, document?_close, if_pos rfl, ha]
      constructor
      · intro h
        cases h
      · rintro (⟨ht, -⟩ | ⟨-, hn⟩)
        · cases ht
        · exact absurd hat hn
    · exact absurd hl (hat l)
  · rw [updates_or_iff_of_elsewhere hl]
    rcases b.edit_cases e with ⟨at_, new, -, hat, he⟩ | ⟨at_, -, hat, he⟩ | ⟨-, -, hsame, -⟩
    · have hne : l ≠ at_ := fun h => hl (h ▸ hat)
      rw [he, document?_update, if_neg hne]
    · have hne : l ≠ at_ := fun h => hl (h ▸ hat)
      rw [he, document?_close, if_neg hne]
    · rw [document?, hsame]
      rfl

theorem counter_le_edit (b : Buffers) (e : Edit) : b.counter ≤ (b.edit e).2.counter := by
  rcases b.edit_cases e with ⟨l, text, -, -, he⟩ | ⟨l, -, -, he⟩ | ⟨-, -, -, hle⟩
  · rw [he]
    exact Nat.le_succ _
  · rw [he]
    exact Nat.le_refl _
  · exact hle

/-- The number that an update returns is the count of updates with it, and is new. -/
theorem counter_of_returned (h : (b.edit e).1 = some number) :
    b.counter < number ∧ (b.edit e).2.counter = number := by
  rcases b.edit_cases e with ⟨l, text, -, -, he⟩ | ⟨l, -, -, he⟩ | ⟨-, he, -, -⟩
  · rw [he] at h
    obtain rfl := Option.some.inj h
    rw [he]
    exact ⟨Nat.lt_succ_self _, rfl⟩
  · rw [he] at h
    cases h
  · rw [he] at h
    cases h

/-! ## §3. Runs. -/

variable {es : List Edit} {n : Nat}

theorem after_succ (h : es[n]? = some e) : after es (n + 1) = ((after es n).edit e).2 := by
  obtain ⟨hn, rfl⟩ := List.getElem?_eq_some_iff.mp h
  unfold after
  rw [List.take_succ_eq_append_getElem hn, List.foldl_append]
  rfl

theorem after_of_length_le (h : es.length ≤ n) : after es (n + 1) = after es n := by
  unfold after
  rw [List.take_of_length_le h, List.take_of_length_le (Nat.le_succ_of_le h)]

theorem counter_le_after {m : Nat} (h : m ≤ n) : (after es m).counter ≤ (after es n).counter := by
  obtain ⟨k, rfl⟩ := Nat.exists_eq_add_of_le h
  clear h
  induction k with
  | zero => exact Nat.le_refl _
  | succ k ih =>
    refine Nat.le_trans ih ?_
    cases he : es[m + k]? with
    | none => exact Nat.le_of_eq (by rw [← Nat.add_assoc,
        after_of_length_le (List.getElem?_eq_none_iff.mp he)])
    | some e =>
      rw [← Nat.add_assoc, after_succ he]
      exact counter_le_edit _ e

/-- **Every number returned is greater than all returned before.** -/
theorem number_lt {i j m k : Nat} (hij : i < j) (hi : returned? es i = some m)
    (hj : returned? es j = some k) : m < k := by
  obtain ⟨e, he, hm⟩ := Option.bind_eq_some_iff.mp hi
  obtain ⟨e', -, hk⟩ := Option.bind_eq_some_iff.mp hj
  calc m = (after es (i + 1)).counter := by rw [after_succ he, (counter_of_returned hm).2]
    _ ≤ (after es j).counter := counter_le_after hij
    _ < k := (counter_of_returned hk).1

/-- At moment `n` of a run the document at a location is updated, and the update returns the
number. -/
def UpdatedAt (es : List Edit) (n : Nat) (l : Location) (number : Nat) (text : List Char) : Prop :=
  ∃ e, es[n]? = some e ∧ e.action = .update text ∧ e.At l ∧ returned? es n = some number

/-- The document at a location was updated before moment `n` of a run, and no edit since then
is about this location. -/
def OpenAt (es : List Edit) (n : Nat) (l : Location) (number : Nat) (text : List Char) : Prop :=
  ∃ i < n, UpdatedAt es i l number text ∧ ∀ j e, i < j → j < n → es[j]? = some e → ¬ e.At l

theorem updatedAt_iff (he : es[n]? = some e) :
    UpdatedAt es n l number text ↔ (after es n).Updates e l number text := by
  unfold UpdatedAt returned? Updates
  rw [he]
  constructor
  · rintro ⟨e', h, hrest⟩
    obtain rfl := Option.some.inj h
    exact hrest
  · exact fun h => ⟨e, rfl, h⟩

/-- What one more edit does to what is open. -/
theorem openAt_succ_iff (he : es[n]? = some e) :
    OpenAt es (n + 1) l number text
      ↔ UpdatedAt es n l number text ∨ (OpenAt es n l number text ∧ ¬ e.At l) := by
  show Since es (n + 1) (fun i => UpdatedAt es i l number text) (fun e => e.At l) ↔ _
  exact since_succ_iff he

/-- **What is open after the first edits of a run are the last updates that were not closed.** -/
theorem document?_after_iff (hn : n ≤ es.length) :
    (after es n).document? l = some (number, text) ↔ OpenAt es n l number text := by
  -- on the number of edits; each updates the document, closes it, or leaves it as it was
  induction n with
  | zero =>
    constructor
    · intro h
      cases h
    · intro h
      exact absurd h not_since_zero
  | succ n ih =>
    have he : es[n]? = some es[n] := List.getElem?_eq_getElem hn
    rw [after_succ he, document?_next_iff, openAt_succ_iff he, updatedAt_iff he,
      ih (Nat.le_of_lt hn)]

/-- A number stands for one location and one text. -/
theorem OpenAt.unique {i j : Nat} {l' : Location} {text' : List Char}
    (h : OpenAt es i l number text) (h' : OpenAt es j l' number text') :
    l = l' ∧ text = text' := by
  obtain ⟨k, -, ⟨e, he, ha, hat, hnumber⟩, -⟩ := h
  obtain ⟨k', -, ⟨e', he', ha', hat', hnumber'⟩, -⟩ := h'
  obtain rfl : k = k' := by
    rcases Nat.lt_trichotomy k k' with hlt | rfl | hlt
    · exact absurd (number_lt hlt hnumber hnumber') (Nat.lt_irrefl _)
    · rfl
    · exact absurd (number_lt hlt hnumber' hnumber) (Nat.lt_irrefl _)
  obtain rfl := Option.some.inj (he.symm.trans he')
  exact ⟨Except.ok.inj (hat.symm.trans hat'), Action.update.inj (ha.symm.trans ha')⟩

/-! ## §4. Stamps and texts. -/

/-- A file has no number. -/
theorem fileStamp_ne_document (tree : Entry) (path : List String) (number : Nat) :
    fileStamp tree path ≠ some (.document number) := by
  unfold fileStamp
  split <;> rintro ⟨⟩

theorem stamp_eq_document_iff {tree : Entry} {path : List String} :
    b.stamp tree path l = some (.document number)
      ↔ ∃ text, b.document? l = some (number, text) := by
  unfold stamp
  cases hd : b.document? l with
  | some found =>
    obtain ⟨kept, text⟩ := found
    constructor
    · intro h
      obtain rfl := Stamp.document.inj (Option.some.inj h)
      exact ⟨text, rfl⟩
    · rintro ⟨text', h⟩
      rw [(Prod.mk.inj (Option.some.inj h)).1]
  | none =>
    constructor
    · intro h
      exact absurd h (fileStamp_ne_document tree path number)
    · rintro ⟨text, h⟩
      cases h

/-- What a path names at moment `n` of a run, in a tree of files, is the document at its
location as long as one is open, and its stamp and its text both are the document's.  They
both are the file's otherwise. -/
structure SeenAt (es : List Edit) (n : Nat) (tree : Entry) (path : List String) (l : Location) :
    Prop where
  opened : ∀ number text, OpenAt es n l number text →
    (after es n).stampAt tree path = .ok (some (.document number))
      ∧ (after es n).textAt tree path = .ok (.ok text)
  closed : (∀ number text, ¬ OpenAt es n l number text) →
    (after es n).stampAt tree path = .ok (fileStamp tree path)
      ∧ (after es n).textAt tree path = .ok (fileText tree path)

theorem seenAt {tree : Entry} {path : List String} (hn : n ≤ es.length)
    (hl : Tree.resolve tree path = .ok l) : SeenAt es n tree path l := by
  constructor
  · intro number text h
    unfold stampAt textAt
    rw [hl]
    simp only [Except.map, stamp, Buffers.text, (document?_after_iff hn).mpr h, and_self]
  · intro h
    have hnone : (after es n).document? l = none :=
      Option.eq_none_iff_forall_ne_some.mpr fun found hf =>
        h found.1 found.2 ((document?_after_iff hn).mp hf)
    unfold stampAt textAt
    rw [hl]
    simp only [Except.map, stamp, Buffers.text, hnone, and_self]

/-- A stamp with a number is that of a document that is open at the path's location. -/
theorem exists_openAt {tree : Entry} {path : List String} (hn : n ≤ es.length)
    (h : (after es n).stampAt tree path = .ok (some (.document number))) :
    ∃ l text, Tree.resolve tree path = .ok l ∧ OpenAt es n l number text := by
  unfold stampAt at h
  cases hl : Tree.resolve tree path with
  | error loop =>
    rw [hl] at h
    cases h
  | ok l =>
    rw [hl] at h
    obtain ⟨text, hd⟩ := stamp_eq_document_iff.mp (Except.ok.inj h)
    exact ⟨l, text, rfl, (document?_after_iff hn).mp hd⟩

theorem exists_returned {i : Nat} (he : es[i]? = some e) (ha : e.action = .update text)
    (hat : e.At l) : ∃ number, returned? es i = some number := by
  refine ⟨(after es i).counter + 1, ?_⟩
  rcases (after es i).edit_cases e with ⟨_, _, -, -, hedit⟩ | ⟨_, hclose, -⟩ | ⟨hnone, -⟩
  · rw [returned?, he, Option.bind_some, hedit]
  · cases ha.symm.trans hclose
  · exact absurd hat (hnone l)

/-- What can be relied on, whatever is done with documents and files. -/
structure Dependable (es : List Edit) : Prop where
  /-- Paths whose stamps are the same number, at any two moments, name one location, and have
  one text. -/
  tells : ∀ i j tree tree' path path' number, i ≤ es.length → j ≤ es.length →
    (after es i).stampAt tree path = .ok (some (.document number)) →
    (after es j).stampAt tree' path' = .ok (some (.document number)) →
      (∃ l, Tree.resolve tree path = .ok l ∧ Tree.resolve tree' path' = .ok l)
        ∧ ∃ text, (after es i).textAt tree path = .ok (.ok text)
          ∧ (after es j).textAt tree' path' = .ok (.ok text)
  /-- An update whose path names a location returns a number. -/
  numbered : ∀ i e l text, es[i]? = some e → e.action = .update text → e.At l →
    ∃ number, returned? es i = some number
  /-- It is greater than every number returned before. -/
  grows : ∀ i j m k, i < j → returned? es i = some m → returned? es j = some k → m < k
  /-- Stamps and texts agree on where they come from. -/
  seen : ∀ n tree path l, n ≤ es.length → Tree.resolve tree path = .ok l →
    SeenAt es n tree path l

/-- **The stamp of a document tells its location and its text, at every moment of every
run.** -/
theorem stamps_tell_texts (es : List Edit) : Dependable es := by
  constructor
  case tells =>
    intro i j tree tree' path path' number hi hj h h'
    obtain ⟨l, text, hl, ho⟩ := exists_openAt hi h
    obtain ⟨l', text', hl', ho'⟩ := exists_openAt hj h'
    -- one number was returned by one update only
    obtain ⟨rfl, rfl⟩ := ho.unique ho'
    exact ⟨⟨l, hl, hl'⟩, text, ((seenAt hi hl).opened number text ho).2,
      ((seenAt hj hl').opened number text ho').2⟩
  case numbered => exact fun i e l text => exists_returned
  case grows => exact fun i j m k => number_lt
  case seen => exact fun n tree path l => seenAt

end EmbeddedExpr.Manifest.Buffers
