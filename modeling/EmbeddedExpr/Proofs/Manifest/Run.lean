/-
  EmbeddedExpr.Proofs.Manifest.Run
  ────────────────────────────────
  **REQUESTS TO A CACHE, ONE AFTER THE OTHER.**

  A request reaches a cache at a moment, when its sources have certain stamps and texts.  The
  sources, and the keys that paths stand for, may change in any way from one moment to the
  next.  `run` gives the answers to requests, and `Moment.uncached` what each would give
  without a cache.

  `get_cases` says all that asking for a value can do.  A store asks for manifests in this
  way (`Store.get_eq_serve`).
-/
import EmbeddedExpr.Manifest.Store

namespace EmbeddedExpr.Manifest

variable {π κ σ ε τ φ ι : Type}

/-! ## §1. What is kept under a key. -/

/-- Without the values under a key, those under the others are found as before. -/
theorem lookup_filter_ne [BEq κ] [LawfulBEq κ] [DecidableEq κ] (key other : κ) (kept : List (κ × ι)) :
    (kept.filter fun e => e.1 ≠ key).lookup other
      = if other = key then none else kept.lookup other := by
  induction kept with
  | nil => exact (ite_self _).symm
  | cons e more ih =>
    obtain ⟨k, value⟩ := e
    by_cases hk : k = key
    · -- the value goes, and only a question for its own key would have found it
      rw [List.filter_cons_of_neg (by simp only [ne_eq, hk, not_true, decide_false]; decide), ih]
      by_cases ho : other = key
      · rw [if_pos ho, if_pos ho]
      · have hne : (other == k) = false := beq_false_of_ne fun h => ho (h.trans hk)
        rw [if_neg ho, if_neg ho, List.lookup_cons, hne]
    · rw [List.filter_cons_of_pos (by simp only [ne_eq, hk, not_false_eq_true, decide_true]),
        List.lookup_cons, List.lookup_cons, ih]
      by_cases ho : other = k
      · have hkey : ¬ other = key := fun h => hk (ho.symm.trans h)
        rw [if_neg hkey, if_neg hkey]
      · rw [beq_false_of_ne ho]

/-- Something begins at an entry of a list before the `n`-th, and no entry since then ends it. -/
def Since (entries : List ι) (n : Nat) (begins : Nat → Prop) (ends : ι → Prop) : Prop :=
  ∃ i < n, begins i ∧ ∀ j e, i < j → j < n → entries[j]? = some e → ¬ ends e

theorem not_since_zero {entries : List ι} {begins : Nat → Prop} {ends : ι → Prop} :
    ¬ Since entries 0 begins ends := by
  rintro ⟨i, hi, -⟩
  exact Nat.not_lt_zero i hi

/-- What one more entry does: it begins the thing, or leaves it as it was by not ending it. -/
theorem since_succ_iff {entries : List ι} {n : Nat} {e : ι} {begins : Nat → Prop} {ends : ι → Prop}
    (he : entries[n]? = some e) :
    Since entries (n + 1) begins ends ↔ begins n ∨ (Since entries n begins ends ∧ ¬ ends e) := by
  constructor
  · rintro ⟨i, hi, hbegins, hsince⟩
    rcases Nat.lt_succ_iff_lt_or_eq.mp hi with hi | rfl
    · exact Or.inr ⟨⟨i, hi, hbegins, fun j e' hij hj => hsince j e' hij (Nat.lt_succ_of_lt hj)⟩,
        hsince n e hi (Nat.lt_succ_self n) he⟩
    · exact Or.inl hbegins
  · rintro (hbegins | ⟨⟨i, hi, hbegins, hsince⟩, hends⟩)
    · exact ⟨n, Nat.lt_succ_self n, hbegins, fun j _ hij hj => absurd hj (by omega)⟩
    · refine ⟨i, Nat.lt_succ_of_lt hi, hbegins, ?_⟩
      intro j e' hij hj he'
      rcases Nat.lt_succ_iff_lt_or_eq.mp hj with hj | rfl
      · exact hsince j e' hij hj he'
      · obtain rfl := Option.some.inj (he.symm.trans he')
        exact hends

namespace Cache

variable [DecidableEq κ]

theorem find?_empty (key : κ) : (empty : Cache κ σ ι).find? key = none := rfl

theorem find?_invalidate (c : Cache κ σ ι) (key other : κ) :
    (c.invalidate key).find? other = if other = key then none else c.find? other :=
  lookup_filter_ne key other c.entries

theorem find?_insert (c : Cache κ σ ι) (key other : κ) (stamp : σ) (value : ι) :
    (c.insert key stamp value).find? other
      = if other = key then some (stamp, value) else c.find? other := by
  show ((c.invalidate key).entries ++ [(key, stamp, value)]).lookup other = _
  rw [List.lookup_append]
  show ((c.invalidate key).find? other).or _ = _
  rw [find?_invalidate, List.lookup_cons]
  by_cases h : other = key
  · rw [if_pos h, if_pos h, beq_iff_eq.mpr h, Option.none_or]
  · rw [if_neg h, if_neg h, beq_false_of_ne h, List.lookup_nil, Option.or_none]

theorem value_refill (c : Cache κ σ ι) (key : κ) (stamp : σ) (made : Option ι) :
    (c.refill key stamp made).value = made := by
  cases made <;> rfl

variable [DecidableEq σ]

/-- What asking for a value does: the source does not exist, or its value is kept under its
stamp, or it is read. -/
theorem get_cases (c : Cache κ σ ι) (key : κ) (stamp : Option σ) (text : Option τ)
    (make : τ → Option ι) :
    (stamp = none ∧ c.get key stamp text make = ⟨none, false, c.invalidate key⟩)
      ∨ (∃ current value, stamp = some current ∧ c.find? key = some (current, value)
          ∧ c.get key stamp text make = ⟨some value, false, c⟩)
      ∨ (∃ current, stamp = some current ∧ (∀ value, c.find? key ≠ some (current, value))
          ∧ c.get key stamp text make
            = (c.invalidate key).refill key current (text.bind make)) := by
  cases stamp with
  | none => exact Or.inl ⟨rfl, rfl⟩
  | some current =>
    refine Or.inr ?_
    unfold get
    cases hf : c.find? key with
    | none =>
      refine Or.inr ⟨current, rfl, ?_, rfl⟩
      intro value h
      cases h
    | some found =>
      obtain ⟨kept, value⟩ := found
      by_cases hk : kept = current
      · subst hk
        refine Or.inl ⟨kept, value, rfl, rfl, ?_⟩
        simp only [if_true]
      · refine Or.inr ⟨current, rfl, ?_, ?_⟩
        · intro other h
          exact hk (congrArg Prod.fst (Option.some.inj h))
        · simp only [if_neg hk]

end Cache

/-! ## §2. Moments and runs. -/

/-- Where values come from: the key that a path stands for, the stamp of its source, and the
text of its source. -/
structure Sources (π κ σ ε τ φ : Type) where
  locate : π → Except φ κ
  stamp : π → Option σ
  read : π → Except ε τ

/-- The value at a path, made of its source's text.  A source without a stamp does not
exist. -/
def Sources.load (s : Sources π κ σ ε τ φ) (make : τ → Option ι) (path : π) : Option ι :=
  match s.stamp path, s.read path with
  | some _, .ok text => make text
  | some _, .error _ => none
  | none, _ => none

theorem Sources.load_of_stamp {s : Sources π κ σ ε τ φ} {make : τ → Option ι} {path : π}
    {stamp : σ} (h : s.stamp path = some stamp) :
    s.load make path = (s.read path).toOption.bind make := by
  unfold Sources.load
  rw [h]
  cases s.read path <;> rfl

/-- What may be asked of a cache. -/
inductive Request (π : Type) where
  /-- The value at a path. -/
  | get (path : π)
  /-- The value at a path is to be dropped. -/
  | invalidate (path : π)
  /-- All values are to be dropped. -/
  | clear

/-- A request, and the sources as they are when it is made. -/
structure Moment (π κ σ ε τ φ : Type) where
  sources : Sources π κ σ ε τ φ
  request : Request π

/-- What a request gives without a cache.  A path that stands for no key is refused. -/
def Moment.uncached (make : τ → Option ι) (m : Moment π κ σ ε τ φ) : Except φ (Option ι) :=
  match m.request with
  | .get path => (m.sources.locate path).map fun _ => m.sources.load make path
  | .invalidate path => (m.sources.locate path).map fun _ => none
  | .clear => .ok none

namespace Cache

variable [DecidableEq κ] [DecidableEq σ]

/-- The answer to a request. -/
def serve (make : τ → Option ι) (c : Cache κ σ ι) (m : Moment π κ σ ε τ φ) :
    Except φ (Answer κ σ ι) :=
  match m.request with
  | .get path => (m.sources.locate path).map fun key =>
      c.get key (m.sources.stamp path) (m.sources.read path).toOption make
  | .invalidate path => (m.sources.locate path).map fun key => ⟨none, false, c.invalidate key⟩
  | .clear => .ok ⟨none, false, .empty⟩

/-- What serving a request does: everything is dropped, a value is dropped, a value is asked
for, or the path stands for no key. -/
theorem serve_cases (make : τ → Option ι) (c : Cache κ σ ι) (m : Moment π κ σ ε τ φ) :
    (m.request = .clear ∧ c.serve make m = .ok ⟨none, false, .empty⟩)
      ∨ (∃ path key, m.request = .invalidate path ∧ m.sources.locate path = .ok key
          ∧ c.serve make m = .ok ⟨none, false, c.invalidate key⟩)
      ∨ (∃ path key, m.request = .get path ∧ m.sources.locate path = .ok key
          ∧ c.serve make m = .ok
            (c.get key (m.sources.stamp path) (m.sources.read path).toOption make))
      ∨ (∃ path fault, (m.request = .get path ∨ m.request = .invalidate path)
          ∧ m.sources.locate path = .error fault ∧ c.serve make m = .error fault) := by
  unfold serve
  cases hr : m.request with
  | clear => exact Or.inl ⟨rfl, rfl⟩
  | invalidate path =>
    cases hl : m.sources.locate path with
    | error fault =>
      refine Or.inr (Or.inr (Or.inr ⟨path, fault, Or.inr rfl, hl, ?_⟩))
      simp only [hl]
      rfl
    | ok key =>
      refine Or.inr (Or.inl ⟨path, key, rfl, hl, ?_⟩)
      simp only [hl]
      rfl
  | get path =>
    cases hl : m.sources.locate path with
    | error fault =>
      refine Or.inr (Or.inr (Or.inr ⟨path, fault, Or.inl rfl, hl, ?_⟩))
      simp only [hl]
      rfl
    | ok key =>
      refine Or.inr (Or.inr (Or.inl ⟨path, key, rfl, hl, ?_⟩))
      simp only [hl]
      rfl

/-- The cache after a request.  A request that is refused leaves it as it is. -/
def next (make : τ → Option ι) (c : Cache κ σ ι) (m : Moment π κ σ ε τ φ) : Cache κ σ ι :=
  match c.serve make m with
  | .ok answer => answer.cache
  | .error _ => c

/-- The answers to requests, one after the other. -/
def run (make : τ → Option ι) (c : Cache κ σ ι) :
    List (Moment π κ σ ε τ φ) → List (Except φ (Answer κ σ ι))
  | [] => []
  | m :: more => c.serve make m :: run make (c.next make m) more

end Cache

/-! ## §3. The requests of a store. -/

/-- The open documents, and the files behind them, as sources. -/
def Buffers.sources (b : Buffers) (tree : Entry) :
    Sources (List String) Location Stamp TextFault (List Char) Tree.LinkLoop where
  locate := Tree.resolve tree
  stamp path := (Tree.resolve tree path).toOption.bind fun l => b.stamp tree path l
  read path :=
    match Tree.resolve tree path with
    | .ok l => b.text tree path l
    | .error _ => fileText tree path

/-- **A store asks its cache for a manifest**, with its documents and files for sources. -/
theorem Store.get_eq_serve (s : Store) (tree : Entry) (path : List String) :
    s.get tree path = (s.cache.serve read? ⟨s.buffers.sources tree, .get path⟩).map fun a =>
      (a.value, a.didRead, { s with cache := a.cache }) := by
  unfold Store.get Cache.serve Buffers.sources
  cases hl : Tree.resolve tree path with
  | error fault =>
    simp only [hl]
    rfl
  | ok l =>
    simp only [hl]
    rfl

end EmbeddedExpr.Manifest
