/-
  EmbeddedExpr.Proofs.Manifest.History
  ────────────────────────────────────
  **WHAT A CACHE SERVES IS TOLD BY WHAT WAS ASKED BEFORE.**

  A value is served without reading its source exactly when an earlier request of the run made
  it under the stamp that the source has now, and no request since then put an end to it
  (`HeldAt`):

      (a.value = some v ∧ a.didRead = false)
        ↔  ∃ stamp, m.sources.stamp path = some stamp ∧ HeldAt make ms n key stamp v

  A value that was dropped does not come back with its stamp: it is made anew.  Every other
  request for a value reads its source, if that exists.  A request is given one text of its
  source, so it reads the source once or not at all, and `didRead` tells which.

  `find?_next_iff` says what one request does to a value that is kept, and `find?_after_iff`
  what a run of requests does.  Nothing is assumed about stamps: two texts may have the same.
-/
import EmbeddedExpr.Proofs.Manifest.Run

namespace EmbeddedExpr.Manifest

variable {π κ σ ε τ φ ι : Type}

/-! ## §1. Requests that make a value, and requests that drop it. -/

/-- The value under a key is asked for at the moment, when its source has the stamp, or has
none. -/
def Moment.Gets (m : Moment π κ σ ε τ φ) (key : κ) (stamp? : Option σ) : Prop :=
  ∃ path, m.request = .get path ∧ m.sources.locate path = .ok key
    ∧ m.sources.stamp path = stamp?

/-- The request puts an end to a value kept under a key with a stamp: all values are dropped,
or this one is, or it is asked for when its source has another stamp or none. -/
def Moment.Drops (m : Moment π κ σ ε τ φ) (key : κ) (stamp : σ) : Prop :=
  m.request = .clear
    ∨ (∃ path, m.request = .invalidate path ∧ m.sources.locate path = .ok key)
    ∨ ∃ other, other ≠ some stamp ∧ m.Gets key other

/-- The moment with other texts of the sources. -/
def Moment.withTexts (m : Moment π κ σ ε τ φ) (read : π → Except ε τ) :
    Moment π κ σ ε τ φ :=
  { m with sources := { m.sources with read := read } }

section

variable {m : Moment π κ σ ε τ φ} {path : π} {key other : κ} {stamp : σ} {stamp? : Option σ}

theorem Moment.gets_iff (hr : m.request = .get path) (hl : m.sources.locate path = .ok key) :
    m.Gets other stamp? ↔ other = key ∧ m.sources.stamp path = stamp? := by
  constructor
  · rintro ⟨path', hr', hl', hs⟩
    obtain rfl : path = path' := Request.get.inj (hr.symm.trans hr')
    exact ⟨Except.ok.inj (hl'.symm.trans hl), hs⟩
  · rintro ⟨rfl, hs⟩
    exact ⟨path, hr, hl, hs⟩

/-- A request for a value drops it when its source has not the stamp any more. -/
theorem Moment.drops_iff_of_get (hr : m.request = .get path)
    (hl : m.sources.locate path = .ok key) :
    m.Drops other stamp ↔ other = key ∧ m.sources.stamp path ≠ some stamp := by
  constructor
  · rintro (h | ⟨path', h, -⟩ | ⟨found, hne, hgets⟩)
    · cases hr.symm.trans h
    · cases hr.symm.trans h
    · obtain ⟨ho, rfl⟩ := (gets_iff hr hl).mp hgets
      exact ⟨ho, hne⟩
  · rintro ⟨ho, hne⟩
    exact Or.inr (Or.inr ⟨_, hne, (gets_iff hr hl).mpr ⟨ho, rfl⟩⟩)

theorem Moment.drops_iff_of_invalidate (hr : m.request = .invalidate path)
    (hl : m.sources.locate path = .ok key) : m.Drops other stamp ↔ other = key := by
  constructor
  · rintro (h | ⟨path', h, hl'⟩ | ⟨found, -, path', h, -⟩)
    · cases hr.symm.trans h
    · obtain rfl : path = path' := Request.invalidate.inj (hr.symm.trans h)
      exact Except.ok.inj (hl'.symm.trans hl)
    · cases hr.symm.trans h
  · rintro rfl
    exact Or.inr (Or.inl ⟨path, hr, hl⟩)

/-- A path that stands for no key drops nothing. -/
theorem Moment.not_drops_of_refused {fault : φ}
    (hr : m.request = .get path ∨ m.request = .invalidate path)
    (hl : m.sources.locate path = .error fault) : ¬ m.Drops key stamp := by
  rintro (h | ⟨path', h, hl'⟩ | ⟨found, -, path', h, hl', -⟩) <;> rcases hr with hr | hr
  · cases hr.symm.trans h
  · cases hr.symm.trans h
  · cases hr.symm.trans h
  · obtain rfl : path = path' := Request.invalidate.inj (hr.symm.trans h)
    cases hl.symm.trans hl'
  · obtain rfl : path = path' := Request.get.inj (hr.symm.trans h)
    cases hl.symm.trans hl'
  · cases hr.symm.trans h

end

/-! ## §2. One request. -/

namespace Cache

variable [DecidableEq κ]

theorem didRead_refill (c : Cache κ σ ι) (key : κ) (stamp : σ) (made : Option ι) :
    (c.refill key stamp made).didRead = true := by
  cases made <;> rfl

/-- After a refill the value made is kept, and the others are as before. -/
theorem find?_refill (c : Cache κ σ ι) (key other : κ) (stamp : σ) (made : Option ι) :
    (c.refill key stamp made).cache.find? other
      = if other = key then (made.map fun value => (stamp, value)).or (c.find? other)
        else c.find? other := by
  cases made with
  | none => exact (ite_self _).symm
  | some value => exact find?_insert c key other stamp value

variable [DecidableEq σ] {make : τ → Option ι}

/-- An answer that was given without reading the source does not depend on its text. -/
theorem get_of_not_didRead {c : Cache κ σ ι} {key : κ} {stamp : Option σ} {text : Option τ}
    (h : (c.get key stamp text make).didRead = false) (text' : Option τ) :
    c.get key stamp text' make = c.get key stamp text make := by
  rcases c.get_cases key stamp text make with
    ⟨rfl, -⟩ | ⟨current, value, rfl, hkept, hget⟩ | ⟨current, -, -, hget⟩
  · rfl
  · rw [hget]
    unfold get
    simp only [hkept, if_true]
  · rw [hget, didRead_refill] at h
    cases h

/-- A value is served without reading its source exactly when it is kept under the stamp that
the source has. -/
theorem served_iff (c : Cache κ σ ι) (key : κ) (stamp : Option σ) (text : Option τ) (value : ι) :
    ((c.get key stamp text make).value = some value
        ∧ (c.get key stamp text make).didRead = false)
      ↔ ∃ current, stamp = some current ∧ c.find? key = some (current, value) := by
  rcases c.get_cases key stamp text make with
    ⟨rfl, hget⟩ | ⟨current, kept, rfl, hkept, hget⟩ | ⟨current, rfl, hfree, hget⟩
  · rw [hget]
    constructor
    · rintro ⟨h, -⟩
      cases h
    · rintro ⟨current, h, -⟩
      cases h
  · rw [hget]
    constructor
    · rintro ⟨h, -⟩
      exact ⟨current, rfl, by rw [hkept, Option.some.inj h]⟩
    · rintro ⟨other, -, h⟩
      rw [hkept] at h
      exact ⟨congrArg some (Prod.mk.inj (Option.some.inj h)).2, rfl⟩
  · rw [hget, didRead_refill]
    constructor
    · rintro ⟨-, h⟩
      cases h
    · rintro ⟨other, hother, h⟩
      obtain rfl := Option.some.inj hother
      exact absurd h (hfree value)

/-- A request for a value leaves it kept exactly when it makes it, or when it was kept and its
source has the stamp still. -/
theorem find?_get_iff (c : Cache κ σ ι) (key : κ) (stamp? : Option σ) (text : Option τ)
    (stamp : σ) (value : ι) :
    (c.get key stamp? text make).cache.find? key = some (stamp, value)
      ↔ (stamp? = some stamp ∧ (c.get key stamp? text make).didRead = true
          ∧ (c.get key stamp? text make).value = some value)
        ∨ (c.find? key = some (stamp, value) ∧ stamp? = some stamp) := by
  rcases c.get_cases key stamp? text make with
    ⟨rfl, hget⟩ | ⟨current, kept, rfl, hkept, hget⟩ | ⟨current, rfl, hfree, hget⟩
  · rw [hget]
    show (c.invalidate key).find? key = _ ↔ _
    rw [find?_invalidate, if_pos rfl]
    constructor
    · intro h
      cases h
    · rintro (⟨h, -⟩ | ⟨-, h⟩) <;> cases h
  · rw [hget]
    show c.find? key = _ ↔ _
    rw [hkept]
    constructor
    · intro h
      obtain ⟨rfl, rfl⟩ := Prod.mk.inj (Option.some.inj h)
      exact Or.inr ⟨rfl, rfl⟩
    · rintro (⟨-, h, -⟩ | ⟨h, -⟩)
      · cases h
      · exact h
  · rw [hget, find?_refill, if_pos rfl, find?_invalidate, if_pos rfl, Option.or_none,
      didRead_refill, value_refill]
    constructor
    · intro h
      obtain ⟨other, hmade, hpair⟩ := Option.map_eq_some_iff.mp h
      obtain ⟨rfl, rfl⟩ := Prod.mk.inj hpair
      exact Or.inl ⟨rfl, rfl, hmade⟩
    · rintro (⟨hs, -, hmade⟩ | ⟨h, hs⟩)
      · obtain rfl := Option.some.inj hs
        rw [hmade]
        rfl
      · -- a value kept under this stamp would have been served
        obtain rfl := Option.some.inj hs
        exact absurd h (hfree value)

/-- A request for a value leaves those under other keys as they are. -/
theorem find?_get_of_ne {c : Cache κ σ ι} {key other : κ} (h : other ≠ key)
    (stamp? : Option σ) (text : Option τ) :
    (c.get key stamp? text make).cache.find? other = c.find? other := by
  rcases c.get_cases key stamp? text make with
    ⟨rfl, hget⟩ | ⟨current, kept, rfl, hkept, hget⟩ | ⟨current, rfl, hfree, hget⟩
  · rw [hget]
    show (c.invalidate key).find? other = _
    rw [find?_invalidate, if_neg h]
  · rw [hget]
  · rw [hget, find?_refill, if_neg h, find?_invalidate, if_neg h]

/-- The request makes a value: it is asked for under the stamp, and its source is read. -/
def Makes (make : τ → Option ι) (c : Cache κ σ ι) (m : Moment π κ σ ε τ φ) (key : κ)
    (stamp : σ) (value : ι) : Prop :=
  m.Gets key (some stamp)
    ∧ ∃ a, c.serve make m = .ok a ∧ a.didRead = true ∧ a.value = some value

/-- **After a request a value is kept exactly when the request made it, or when it was kept
before and the request does not drop it.** -/
theorem find?_next_iff (c : Cache κ σ ι) (m : Moment π κ σ ε τ φ) (key : κ) (stamp : σ)
    (value : ι) :
    (c.next make m).find? key = some (stamp, value)
      ↔ Makes make c m key stamp value
        ∨ (c.find? key = some (stamp, value) ∧ ¬ m.Drops key stamp) := by
  -- only a request for the value can read its source
  have hidle : (∀ a, c.serve make m = .ok a → a.didRead = false) →
      ¬ Makes make c m key stamp value := by
    rintro h ⟨-, a, hs, hread, -⟩
    rw [h a hs] at hread
    cases hread
  rcases c.serve_cases make m with ⟨hr, hs⟩ | ⟨path, at_, hr, hl, hs⟩ | ⟨path, at_, hr, hl, hs⟩
    | ⟨path, fault, hr, hl, hs⟩
  · have hmakes := hidle fun a ha => by rw [← Except.ok.inj (hs.symm.trans ha)]
    rw [next, hs]
    show (empty : Cache κ σ ι).find? key = _ ↔ _
    rw [find?_empty]
    constructor
    · intro h
      cases h
    · rintro (h | ⟨-, h⟩)
      · exact absurd h hmakes
      · exact absurd (Or.inl hr) h
  · have hmakes := hidle fun a ha => by rw [← Except.ok.inj (hs.symm.trans ha)]
    rw [next, hs, Moment.drops_iff_of_invalidate hr hl]
    show (c.invalidate at_).find? key = _ ↔ _
    rw [find?_invalidate]
    by_cases hk : key = at_
    · rw [if_pos hk]
      constructor
      · intro h
        cases h
      · rintro (h | ⟨-, h⟩)
        · exact absurd h hmakes
        · exact absurd hk h
    · rw [if_neg hk]
      exact ⟨fun h => Or.inr ⟨h, hk⟩, fun h => (h.resolve_left hmakes).1⟩
  · have hgets : m.Gets key (some stamp) ↔ key = at_ ∧ m.sources.stamp path = some stamp :=
      Moment.gets_iff hr hl
    rw [next, hs, Moment.drops_iff_of_get hr hl]
    show (c.get at_ _ _ make).cache.find? key = _ ↔ _
    by_cases hk : key = at_
    · subst hk
      rw [find?_get_iff]
      refine or_congr ⟨?_, ?_⟩ ?_
      · rintro ⟨hstamp, hread, hvalue⟩
        exact ⟨hgets.mpr ⟨rfl, hstamp⟩, _, hs, hread, hvalue⟩
      · rintro ⟨hg, a, ha, hread, hvalue⟩
        obtain rfl := Except.ok.inj (hs.symm.trans ha)
        exact ⟨(hgets.mp hg).2, hread, hvalue⟩
      · exact and_congr_right fun _ => ⟨fun h hn => hn.2 h, fun h =>
          Decidable.not_not.mp fun hn => h ⟨rfl, hn⟩⟩
    · rw [find?_get_of_ne hk]
      refine ⟨fun h => Or.inr ⟨h, fun hd => hk hd.1⟩, ?_⟩
      rintro (⟨hg, -⟩ | ⟨h, -⟩)
      · exact absurd (hgets.mp hg).1 hk
      · exact h
  · have hmakes := hidle fun a ha => by cases hs.symm.trans ha
    rw [next, hs]
    exact ⟨fun h => Or.inr ⟨h, Moment.not_drops_of_refused hr hl⟩,
      fun h => (h.resolve_left hmakes).1⟩

/-! ## §3. Runs. -/

/-- The cache after requests, one after the other. -/
def after (make : τ → Option ι) (c : Cache κ σ ι) (ms : List (Moment π κ σ ε τ φ)) :
    Cache κ σ ι :=
  ms.foldl (next make) c

/-- The answer at a moment of a run is the one that the cache gives after the requests
before it. -/
theorem getElem?_run (ms : List (Moment π κ σ ε τ φ)) :
    ∀ (c : Cache κ σ ι) (n : Nat),
      (run make c ms)[n]? = ms[n]?.map fun m => (after make c (ms.take n)).serve make m := by
  induction ms with
  | nil => intro c n; rfl
  | cons m more ih =>
    intro c n
    cases n with
    | zero => rfl
    | succ n => exact ih (c.next make m) n

/-- At moment `n` of a run the value is made: it is asked for under the stamp, its source is
read, and the value is the answer. -/
def MadeAt (make : τ → Option ι) (ms : List (Moment π κ σ ε τ φ)) (n : Nat) (key : κ)
    (stamp : σ) (value : ι) : Prop :=
  ∃ m, ms[n]? = some m ∧ m.Gets key (some stamp)
    ∧ ∃ a, (run make .empty ms)[n]? = some (.ok a) ∧ a.didRead = true ∧ a.value = some value

/-- The value was made under the stamp before moment `n` of a run, and no request since then
puts an end to it. -/
def HeldAt (make : τ → Option ι) (ms : List (Moment π κ σ ε τ φ)) (n : Nat) (key : κ)
    (stamp : σ) (value : ι) : Prop :=
  ∃ i < n, MadeAt make ms i key stamp value
    ∧ ∀ j m, i < j → j < n → ms[j]? = some m → ¬ m.Drops key stamp

theorem madeAt_iff {ms : List (Moment π κ σ ε τ φ)} {n : Nat} {m : Moment π κ σ ε τ φ}
    (hm : ms[n]? = some m) (key : κ) (stamp : σ) (value : ι) :
    MadeAt make ms n key stamp value
      ↔ Makes make (after make .empty (ms.take n)) m key stamp value := by
  unfold MadeAt Makes
  rw [getElem?_run, hm]
  constructor
  · rintro ⟨m', hm', hg, a, ha, hread⟩
    obtain rfl := Option.some.inj hm'
    exact ⟨hg, a, Option.some.inj ha, hread⟩
  · rintro ⟨hg, a, ha, hread⟩
    exact ⟨m, rfl, hg, a, congrArg some ha, hread⟩

/-- What one more moment does to what is held. -/
theorem heldAt_succ_iff {ms : List (Moment π κ σ ε τ φ)} {n : Nat} {m : Moment π κ σ ε τ φ}
    (hm : ms[n]? = some m) (key : κ) (stamp : σ) (value : ι) :
    HeldAt make ms (n + 1) key stamp value
      ↔ MadeAt make ms n key stamp value
        ∨ (HeldAt make ms n key stamp value ∧ ¬ m.Drops key stamp) := by
  show Since ms (n + 1) (fun i => MadeAt make ms i key stamp value) (fun m => m.Drops key stamp) ↔ _
  exact since_succ_iff hm

/-- **What is kept after the first requests of a run is what is held.** -/
theorem find?_after_iff (make : τ → Option ι) (ms : List (Moment π κ σ ε τ φ)) (key : κ)
    (stamp : σ) (value : ι) {n : Nat} (hn : n ≤ ms.length) :
    (after make (.empty : Cache κ σ ι) (ms.take n)).find? key = some (stamp, value)
      ↔ HeldAt make ms n key stamp value := by
  -- on the number of requests; each makes the value, drops it, or leaves it as it was
  induction n with
  | zero =>
    constructor
    · intro h
      cases h
    · intro h
      exact absurd h not_since_zero
  | succ n ih =>
    have hm : ms[n]? = some ms[n] := List.getElem?_eq_getElem hn
    rw [List.take_succ_eq_append_getElem hn, after, List.foldl_append]
    show ((after make .empty (ms.take n)).next make ms[n]).find? key = _ ↔ _
    rw [find?_next_iff, heldAt_succ_iff hm, madeAt_iff hm, ih (Nat.le_of_lt hn)]

/-! ## §4. Answers. -/

/-- How a request for a value is answered at moment `n` of a run. -/
structure Recalled (make : τ → Option ι) (ms : List (Moment π κ σ ε τ φ)) (n : Nat)
    (m : Moment π κ σ ε τ φ) (path : π) (key : κ) (a : Answer κ σ ι) : Prop where
  answer : (run make .empty ms)[n]? = some (.ok a)
  /-- A value is served without reading its source exactly when it is held under the stamp
  that the source has. -/
  served_iff : ∀ value, (a.value = some value ∧ a.didRead = false)
    ↔ ∃ stamp, m.sources.stamp path = some stamp ∧ HeldAt make ms n key stamp value
  /-- A source without a stamp is not read. -/
  absent : m.sources.stamp path = none → a.value = none ∧ a.didRead = false
  /-- Every other source is read, and the value is made of its text. -/
  read : ∀ stamp, m.sources.stamp path = some stamp →
    (∀ value, ¬ HeldAt make ms n key stamp value) →
      a.didRead = true ∧ a.value = m.sources.load make path
  /-- Where the source is not read, the answer is the same whatever its text. -/
  unread : a.didRead = false → ∀ texts : π → Except ε τ,
    (run make .empty (ms.set n (m.withTexts texts)))[n]? = some (.ok a)

/-- **No value comes back, and no source is read without need**, whatever the requests, and
however stamps and texts change between them. -/
theorem recalled_run (make : τ → Option ι) (ms : List (Moment π κ σ ε τ φ)) {n : Nat}
    {m : Moment π κ σ ε τ φ} {path : π} {key : κ} (hm : ms[n]? = some m)
    (hr : m.request = .get path) (hl : m.sources.locate path = .ok key) :
    ∃ a : Answer κ σ ι, Recalled make ms n m path key a := by
  obtain ⟨hn, hget⟩ := List.getElem?_eq_some_iff.mp hm
  have hheld := fun stamp value => find?_after_iff make ms key stamp value (Nat.le_of_lt hn)
  generalize hc : after make (.empty : Cache κ σ ι) (ms.take n) = c at hheld
  have hserve : ∀ texts : π → Except ε τ, c.serve make (m.withTexts texts)
      = .ok (c.get key (m.sources.stamp path) (texts path).toOption make) := by
    intro texts
    simp only [serve, Moment.withTexts, hr, hl]
    rfl
  have hrun : ∀ texts : π → Except ε τ,
      (run make .empty (ms.set n (m.withTexts texts)))[n]?
        = some (.ok (c.get key (m.sources.stamp path) (texts path).toOption make)) := by
    intro texts
    rw [getElem?_run, List.getElem?_set_self hn, List.take_set_of_le (Nat.le_refl n), hc,
      Option.map_some, hserve]
  have hsame : ms.set n (m.withTexts m.sources.read) = ms := by
    show ms.set n m = ms
    rw [← hget, List.set_getElem_self hn]
  refine ⟨c.get key (m.sources.stamp path) (m.sources.read path).toOption make, ?_, ?_, ?_, ?_, ?_⟩
  · rw [← hrun, hsame]
  · intro value
    rw [c.served_iff]
    exact exists_congr fun stamp => and_congr_right fun _ => hheld stamp value
  · intro hs
    rw [hs]
    exact ⟨rfl, rfl⟩
  · intro stamp hs hfree
    rw [Sources.load_of_stamp hs]
    rcases c.get_cases key (m.sources.stamp path) (m.sources.read path).toOption make with
      ⟨hnone, -⟩ | ⟨current, value, hcurrent, hkept, -⟩ | ⟨current, -, -, hmiss⟩
    · cases hs.symm.trans hnone
    · -- a value that is kept is held
      obtain rfl := Option.some.inj (hs.symm.trans hcurrent)
      exact absurd ((hheld stamp value).mp hkept) (hfree value)
    · rw [hmiss]
      exact ⟨didRead_refill _ _ _ _, value_refill _ _ _ _⟩
  · intro hread texts
    rw [hrun, get_of_not_didRead hread]

/-- A source of numbers, with its stamp and what reading it gives. -/
def numbered (stamp text? : Option Nat) : Sources String String Nat String Nat String where
  locate := .ok
  stamp _ := stamp
  read _ :=
    match text? with
    | some text => .ok text
    | none => .error "unreadable"

/-- A run in which a stamp is used for two texts, is given up for a text that cannot be read,
and comes back. -/
def restampedRun : List (Moment String String Nat String Nat String) := [
  ⟨numbered (some 1) (some 5), .get "m"⟩, ⟨numbered (some 1) (some 7), .get "m"⟩,
  ⟨numbered (some 2) none, .get "m"⟩, ⟨numbered (some 1) (some 7), .get "m"⟩,
  ⟨numbered (some 1) (some 8), .get "n"⟩, ⟨numbered (some 1) (some 9), .get "m"⟩]

theorem recalled_run_restamped :
    restampedRun[5]? = some ⟨numbered (some 1) (some 9), .get "m"⟩
      ∧ (numbered (some 1) (some 9)).locate "m" = .ok "m"
      ∧ ∃ a : Answer String Nat Nat,
        Recalled some restampedRun 5 ⟨numbered (some 1) (some 9), .get "m"⟩ "m" "m" a :=
  ⟨rfl, rfl, recalled_run some restampedRun rfl rfl rfl⟩

/-- The value is served under the stamp it was made with, and is not served again once the
stamp has changed. -/
example : (run some (.empty : Cache String Nat Nat) restampedRun).map
      (fun a => a.toOption.map fun a => (a.value, a.didRead))
    = [some (some 5, true), some (some 5, false), some (none, true), some (some 7, true),
      some (some 8, true), some (some 7, false)] := by decide

end Cache

end EmbeddedExpr.Manifest
