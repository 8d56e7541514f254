/-
  EmbeddedExpr.Proofs.Manifest.LastRequest
  ────────────────────────────────────────
  **WHAT A CACHE HOLDS IS TOLD BY THE LAST REQUEST ABOUT EACH KEY.**

  A request is about a key when it asks for the value under it, drops it, or drops all values;
  a path that stands for no key is about none (`Moment.Touches`).  At every moment of every run
  a value is kept under a key exactly when the last request about the key asked for the value
  and was given it (`LastGiven`):

      c.contains key  ↔  ∃ value, LastGiven make ms ms.length key value

  The size of the cache is the number of these keys, since no key stands in it twice
  (`nodup_keys_after`), and a request about one key leaves all others as they are.

  `kept?_next_iff` says what one request does, whichever of its outcomes it has: after a request
  for a value the answer is what is kept (`kept?_get_self`).
-/
import EmbeddedExpr.Proofs.Manifest.History

namespace EmbeddedExpr.Manifest

variable {π κ σ ε τ φ ι : Type}

/-! ## §1. Requests about a key. -/

/-- The request asks for the value under a key. -/
def Moment.AsksFor (m : Moment π κ σ ε τ φ) (key : κ) : Prop :=
  ∃ path, m.request = .get path ∧ m.sources.locate path = .ok key

/-- The request is about a key: it asks for the value under the key, drops it, or drops all. -/
def Moment.Touches (m : Moment π κ σ ε τ φ) (key : κ) : Prop :=
  m.request = .clear
    ∨ ∃ path, (m.request = .get path ∨ m.request = .invalidate path)
        ∧ m.sources.locate path = .ok key

section

variable {m : Moment π κ σ ε τ φ} {path : π} {key other : κ}

/-- A request with a path is about the key that the path stands for, and no other. -/
theorem Moment.touches_iff (hr : m.request = .get path ∨ m.request = .invalidate path)
    (hl : m.sources.locate path = .ok key) : m.Touches other ↔ other = key := by
  constructor
  · intro h
    unfold Touches at h
    rcases hr with hr | hr <;> simp_all
  · intro h
    exact Or.inr ⟨path, hr, by rw [hl, h]⟩

theorem Moment.not_touches_of_refused {fault : φ}
    (hr : m.request = .get path ∨ m.request = .invalidate path)
    (hl : m.sources.locate path = .error fault) : ¬ m.Touches other := by
  unfold Touches
  rcases hr with hr | hr <;> simp_all

theorem Moment.asksFor_iff (hr : m.request = .get path) (hl : m.sources.locate path = .ok key) :
    m.AsksFor other ↔ other = key := by
  unfold AsksFor
  simp only [hr, Request.get.injEq, exists_eq_left', hl, Except.ok.injEq]
  exact eq_comm

/-- Only a request for a value asks for one. -/
theorem Moment.not_asksFor (hr : ∀ path, m.request ≠ .get path) : ¬ m.AsksFor key := by
  intro h
  obtain ⟨path, hget, -⟩ := h
  exact hr path hget

end

namespace Cache

/-! ## §2. Values and keys. -/

section

variable [DecidableEq κ]

/-- The value kept under a key. -/
def kept? (c : Cache κ σ ι) (key : κ) : Option ι := (c.find? key).map (·.2)

/-- The keys under which values are kept. -/
def keys (c : Cache κ σ ι) : List κ := c.entries.map (·.1)

theorem isSome_kept? (c : Cache κ σ ι) (key : κ) : (c.kept? key).isSome = c.contains key := by
  unfold kept? contains
  rw [Option.isSome_map]

theorem mem_keys_iff (c : Cache κ σ ι) (key : κ) : key ∈ c.keys ↔ c.contains key = true := by
  show key ∈ c.entries.map (·.1) ↔ (c.entries.lookup key).isSome = true
  rw [List.lookup_isSome_iff, List.mem_map]
  simp only [beq_iff_eq, eq_comm (a := key)]

/-- A value that is dropped takes its key away, and no other. -/
theorem keys_invalidate (c : Cache κ σ ι) (key : κ) :
    (c.invalidate key).keys = c.keys.filter fun k => k ≠ key := by
  unfold keys invalidate
  rw [List.filter_map]
  rfl

theorem nodup_keys_refill {c : Cache κ σ ι} (h : c.keys.Nodup) (key : κ) (stamp : σ)
    (made : Option ι) : (c.refill key stamp made).cache.keys.Nodup := by
  cases made with
  | none => exact h
  | some value =>
    -- the key is taken away before it comes back at the end
    show (((c.invalidate key).entries ++ [(key, stamp, value)]).map (·.1)).Nodup
    rw [List.map_append]
    show ((c.invalidate key).keys ++ [key]).Nodup
    rw [keys_invalidate]
    refine List.nodup_append.mpr ⟨h.filter _, List.pairwise_singleton _ key, ?_⟩
    intro k hk other hother
    rw [List.mem_singleton.mp hother]
    exact of_decide_eq_true (List.mem_filter.mp hk).2

variable [DecidableEq σ] {make : τ → Option ι}

theorem nodup_keys_get {c : Cache κ σ ι} (h : c.keys.Nodup) (key : κ) (stamp? : Option σ)
    (text : Option τ) : (c.get key stamp? text make).cache.keys.Nodup := by
  have hrest : (c.invalidate key).keys.Nodup := by
    rw [keys_invalidate]
    exact h.filter _
  rcases c.get_cases key stamp? text make with
    ⟨-, hget⟩ | ⟨current, kept, -, -, hget⟩ | ⟨current, -, -, hget⟩
  · rw [hget]
    exact hrest
  · rw [hget]
    exact h
  · rw [hget]
    exact nodup_keys_refill hrest key current _

/-- **After a request for a value, what is kept under its key is the answer.** -/
theorem kept?_get_self (c : Cache κ σ ι) (key : κ) (stamp? : Option σ) (text : Option τ) :
    (c.get key stamp? text make).cache.kept? key = (c.get key stamp? text make).value := by
  unfold kept?
  rcases c.get_cases key stamp? text make with
    ⟨-, hget⟩ | ⟨current, kept, -, hkept, hget⟩ | ⟨current, -, -, hget⟩
  · -- the source does not exist
    rw [hget]
    show ((c.invalidate key).find? key).map _ = none
    rw [find?_invalidate, if_pos rfl, Option.map_none]
  · -- the value is served
    rw [hget, hkept, Option.map_some]
  · -- the source is read, and gives a value or none
    rw [hget, find?_refill, if_pos rfl, find?_invalidate, if_pos rfl, Option.or_none,
      value_refill, Option.map_map]
    exact Option.map_id'

end

/-! ## §3. One request. -/

section

variable [DecidableEq κ] [DecidableEq σ] {make : τ → Option ι}

/-- The request asks for the value under a key, and is given it. -/
def Gives (make : τ → Option ι) (c : Cache κ σ ι) (m : Moment π κ σ ε τ φ) (key : κ)
    (value : ι) : Prop :=
  m.AsksFor key ∧ ∃ a, c.serve make m = .ok a ∧ a.value = some value

theorem nodup_keys_next {c : Cache κ σ ι} (h : c.keys.Nodup) (m : Moment π κ σ ε τ φ) :
    (c.next make m).keys.Nodup := by
  rcases c.serve_cases make m with ⟨-, hs⟩ | ⟨path, key, -, -, hs⟩ | ⟨path, key, -, -, hs⟩
    | ⟨path, fault, -, -, hs⟩
  · rw [next, hs]
    exact List.nodup_nil
  · rw [next, hs]
    show (c.invalidate key).keys.Nodup
    rw [keys_invalidate]
    exact h.filter _
  · rw [next, hs]
    exact nodup_keys_get h key _ _
  · rw [next, hs]
    exact h

/-- **A request that is not about a key leaves what is kept under it.** -/
theorem find?_next_of_not_touches {c : Cache κ σ ι} {m : Moment π κ σ ε τ φ} {key : κ}
    (h : ¬ m.Touches key) : (c.next make m).find? key = c.find? key := by
  rcases c.serve_cases make m with ⟨hr, -⟩ | ⟨path, at_, hr, hl, hs⟩ | ⟨path, at_, hr, hl, hs⟩
    | ⟨path, fault, -, -, hs⟩
  · exact absurd (Or.inl hr) h
  · rw [Moment.touches_iff (Or.inr hr) hl] at h
    rw [next, hs]
    show (c.invalidate at_).find? key = _
    rw [find?_invalidate, if_neg h]
  · rw [Moment.touches_iff (Or.inl hr) hl] at h
    rw [next, hs]
    exact find?_get_of_ne h _ _
  · rw [next, hs]

/-- **After a request about a key, a value is kept under it exactly when the request gave it.** -/
theorem kept?_next_of_touches {c : Cache κ σ ι} {m : Moment π κ σ ε τ φ} {key : κ} {value : ι}
    (h : m.Touches key) :
    (c.next make m).kept? key = some value ↔ Gives make c m key value := by
  unfold Gives
  rcases c.serve_cases make m with ⟨hr, hs⟩ | ⟨path, at_, hr, hl, hs⟩ | ⟨path, at_, hr, hl, hs⟩
    | ⟨path, fault, hr, hl, hs⟩
  · have hnone : (c.next make m).kept? key = none := by rw [next, hs]; rfl
    have hnot : ¬ m.AsksFor key := Moment.not_asksFor fun path => by simp [hr]
    simp [hnone, hnot]
  · rw [Moment.touches_iff (Or.inr hr) hl] at h
    have hnone : (c.next make m).kept? key = none := by
      rw [next, hs]
      show ((c.invalidate at_).find? key).map _ = none
      rw [find?_invalidate, if_pos h, Option.map_none]
    have hnot : ¬ m.AsksFor key := Moment.not_asksFor fun path => by simp [hr]
    simp [hnone, hnot]
  · rw [Moment.touches_iff (Or.inl hr) hl] at h
    subst h
    have hkept : (c.next make m).kept? key
        = (c.get key (m.sources.stamp path) (m.sources.read path).toOption make).value := by
      rw [next, hs]
      exact kept?_get_self c key _ _
    simp [hkept, hs, Moment.asksFor_iff hr hl]
  · exact absurd h (Moment.not_touches_of_refused hr hl)

theorem kept?_next_iff (c : Cache κ σ ι) (m : Moment π κ σ ε τ φ) (key : κ) (value : ι) :
    (c.next make m).kept? key = some value
      ↔ Gives make c m key value ∨ (c.kept? key = some value ∧ ¬ m.Touches key) := by
  by_cases h : m.Touches key
  · rw [kept?_next_of_touches h]
    simp [h]
  · -- what is not about the key gives nothing under it either
    have hnot : ¬ Gives make c m key value := by
      intro hgives
      obtain ⟨path, hr, hl⟩ := hgives.1
      exact h (Or.inr ⟨path, Or.inl hr, hl⟩)
    unfold kept?
    rw [find?_next_of_not_touches h]
    simp [h, hnot]

end

/-! ## §4. Runs. -/

section

variable [DecidableEq κ] [DecidableEq σ]

/-- At moment `n` of a run the value under a key is asked for, and is the answer. -/
def GivenAt (make : τ → Option ι) (ms : List (Moment π κ σ ε τ φ)) (n : Nat) (key : κ)
    (value : ι) : Prop :=
  ∃ m, ms[n]? = some m ∧ m.AsksFor key
    ∧ ∃ a, (run make (.empty : Cache κ σ ι) ms)[n]? = some (.ok a) ∧ a.value = some value

/-- The last request about a key before moment `n` of a run asked for the value under it, and
was given it. -/
def LastGiven (make : τ → Option ι) (ms : List (Moment π κ σ ε τ φ)) (n : Nat) (key : κ)
    (value : ι) : Prop :=
  Since ms n (fun i => GivenAt make ms i key value) fun m => m.Touches key

variable {make : τ → Option ι} {ms : List (Moment π κ σ ε τ φ)} {n : Nat}

theorem givenAt_iff {m : Moment π κ σ ε τ φ} (hm : ms[n]? = some m) (key : κ) (value : ι) :
    GivenAt make ms n key value ↔ Gives make (after make .empty (ms.take n)) m key value := by
  unfold GivenAt Gives
  rw [getElem?_run, hm]
  simp

theorem after_take_succ {m : Moment π κ σ ε τ φ} (hm : ms[n]? = some m) (c : Cache κ σ ι) :
    after make c (ms.take (n + 1)) = (after make c (ms.take n)).next make m := by
  obtain ⟨hn, rfl⟩ := List.getElem?_eq_some_iff.mp hm
  rw [List.take_succ_eq_append_getElem hn, after, List.foldl_append]
  rfl

/-- **What is kept after the first requests of a run was given by the last one about its key.** -/
theorem kept?_after_iff (make : τ → Option ι) (ms : List (Moment π κ σ ε τ φ)) (key : κ)
    (value : ι) (hn : n ≤ ms.length) :
    (after make (.empty : Cache κ σ ι) (ms.take n)).kept? key = some value
      ↔ LastGiven make ms n key value := by
  -- on the number of requests; each is about the key and decides, or leaves it as it was
  induction n with
  | zero =>
    constructor
    · intro h
      cases h
    · intro h
      exact absurd h not_since_zero
  | succ n ih =>
    have hm : ms[n]? = some ms[n] := List.getElem?_eq_getElem hn
    unfold LastGiven
    rw [after_take_succ hm, kept?_next_iff, since_succ_iff hm, givenAt_iff hm,
      ih (Nat.le_of_lt hn)]
    rfl

theorem nodup_keys_after (make : τ → Option ι) (ms : List (Moment π κ σ ε τ φ)) :
    ∀ {c : Cache κ σ ι}, c.keys.Nodup → (after make c ms).keys.Nodup := by
  induction ms with
  | nil => intro c h; exact h
  | cons m more ih => intro c h; exact ih (nodup_keys_next h m)

/-- What a cache holds after a run of requests. -/
structure ToldByLast (make : τ → Option ι) (ms : List (Moment π κ σ ε τ φ)) (c : Cache κ σ ι) :
    Prop where
  /-- A value is kept under a key exactly when the last request about the key was given one. -/
  contains_iff : ∀ key, c.contains key = true ↔ ∃ value, LastGiven make ms ms.length key value
  /-- It is the value that was given. -/
  kept_iff : ∀ key value, c.kept? key = some value ↔ LastGiven make ms ms.length key value
  /-- The size is the number of these keys. -/
  size : ∃ keys : List κ, keys.Nodup ∧ keys.length = c.size
    ∧ ∀ key, key ∈ keys ↔ ∃ value, LastGiven make ms ms.length key value
  /-- A further request leaves what is kept under all keys but its own, with the stamps. -/
  apart : ∀ (m : Moment π κ σ ε τ φ) path key,
    (m.request = .get path ∨ m.request = .invalidate path) → m.sources.locate path = .ok key →
      ∀ other, other ≠ key → (c.next make m).find? other = c.find? other

/-- **After every run the cache holds what the last request about each key gave**, whatever the
sources do. -/
theorem toldByLast_after (make : τ → Option ι) (ms : List (Moment π κ σ ε τ φ)) :
    ToldByLast make ms (after make (.empty : Cache κ σ ι) ms) := by
  have hkept := fun key value => kept?_after_iff make ms key value (Nat.le_refl ms.length)
  rw [List.take_length] at hkept
  have hcontains : ∀ key, (after make (.empty : Cache κ σ ι) ms).contains key = true
      ↔ ∃ value, LastGiven make ms ms.length key value := by
    intro key
    rw [← isSome_kept?, Option.isSome_iff_exists]
    exact exists_congr (hkept key)
  constructor
  case contains_iff => exact hcontains
  case kept_iff => exact hkept
  case size =>
    refine ⟨_, nodup_keys_after make ms (c := .empty) List.nodup_nil, List.length_map _, ?_⟩
    intro key
    rw [mem_keys_iff, hcontains]
  case apart =>
    intro m path key hr hl other hne
    exact find?_next_of_not_touches fun h => hne ((Moment.touches_iff hr hl).mp h)

/-- A source of numbers in which a path and the same path after a dot stand for one key. -/
def dotted (stamp text? : Option Nat) : Sources String String Nat String Nat String :=
  { numbered stamp text? with locate := fun path => .ok (if path = "./m" then "m" else path) }

/-- A value that was given under one spelling of its path is dropped under another, when the
source cannot be read; the other value stays. -/
example : (after some (.empty : Cache String Nat Nat) [
      ⟨dotted (some 1) (some 5), .get "./m"⟩, ⟨dotted (some 1) (some 6), .get "n"⟩,
      ⟨dotted (some 2) none, .get "m"⟩]).entries = [("n", 1, 6)] := by decide

end

end Cache

end EmbeddedExpr.Manifest
