/-
  EmbeddedExpr.Proofs.Manifest.Transparency
  ─────────────────────────────────────────
  **A CACHE ANSWERS AS IF THERE WERE NONE.**

  A value may be served as long as its source has the stamp that it had when the value was
  made.  This is sound when the stamps can be trusted: of one key, equal stamps at two moments
  stand for equal texts (`Faithful`).  Then every answer of every run is the one that reading
  the source at that moment gives:

      Faithful ms  →  (run make .empty ms).map (·.map value) = ms.map (·.uncached make)

  Each value kept was made at an earlier moment of the run, of a source under the same key
  with the same stamp (`Backed`).  Every request keeps it so.
-/
import EmbeddedExpr.Proofs.Manifest.Run

namespace EmbeddedExpr.Manifest

variable {π κ σ ε τ φ ι : Type}

/-! ## §1. Stamps that can be trusted. -/

/-- A value is asked for at the moment: its key, the stamp of its source, and the text of its
source, if it can be read. -/
def Moment.Asks (m : Moment π κ σ ε τ φ) (key : κ) (stamp : σ) (text? : Option τ) : Prop :=
  ∃ path, m.request = .get path ∧ m.sources.locate path = .ok key
    ∧ m.sources.stamp path = some stamp ∧ (m.sources.read path).toOption = text?

/-- Whenever values under one key are asked for under one stamp, their sources read alike: the
same text, or a failure at both moments. -/
def Faithful (ms : List (Moment π κ σ ε τ φ)) : Prop :=
  ∀ m ∈ ms, ∀ m' ∈ ms, ∀ key stamp text? text?', m.Asks key stamp text? →
    m'.Asks key stamp text?' → text? = text?'

namespace Cache

variable [DecidableEq κ]

/-! ## §2. Where kept values come from. -/

/-- Every value kept was made at one of the moments, under the stamp it is kept with. -/
def Backed (make : τ → Option ι) (earlier : List (Moment π κ σ ε τ φ)) (c : Cache κ σ ι) :
    Prop :=
  ∀ key stamp value, c.find? key = some (stamp, value) →
    ∃ m ∈ earlier, ∃ text, m.Asks key stamp (some text) ∧ make text = some value

variable {make : τ → Option ι} {earlier : List (Moment π κ σ ε τ φ)} {c : Cache κ σ ι}

theorem Backed.empty : Backed make earlier (.empty : Cache κ σ ι) := by
  intro key stamp value h
  rw [find?_empty] at h
  cases h

theorem Backed.later (h : Backed make earlier c) (m : Moment π κ σ ε τ φ) :
    Backed make (earlier ++ [m]) c := by
  intro key stamp value hf
  obtain ⟨m', hm', hmade⟩ := h key stamp value hf
  exact ⟨m', List.mem_append_left _ hm', hmade⟩

theorem Backed.invalidate (h : Backed make earlier c) (key : κ) :
    Backed make earlier (c.invalidate key) := by
  intro other stamp value hf
  rw [find?_invalidate] at hf
  by_cases ho : other = key
  · rw [if_pos ho] at hf
    cases hf
  · rw [if_neg ho] at hf
    exact h other stamp value hf

/-- A value that is made when it is asked for is backed by its own moment. -/
theorem Backed.refill (h : Backed make earlier c) {m : Moment π κ σ ε τ φ} (hm : m ∈ earlier)
    {key : κ} {stamp : σ} {text? : Option τ} (hasks : m.Asks key stamp text?) :
    Backed make earlier (c.refill key stamp (text?.bind make)).cache := by
  cases hmade : text?.bind make with
  | none => exact h
  | some value =>
    intro other stamp' value' hf
    have hf : (c.insert key stamp value).find? other = some (stamp', value') := hf
    rw [find?_insert] at hf
    by_cases ho : other = key
    · rw [if_pos ho] at hf
      -- the value just made, of a text that was read
      obtain ⟨rfl, rfl⟩ := Prod.mk.inj (Option.some.inj hf)
      obtain ⟨text, rfl, hmake⟩ := Option.bind_eq_some_iff.mp hmade
      subst ho
      exact ⟨m, hm, text, hasks, hmake⟩
    · rw [if_neg ho] at hf
      exact h other stamp' value' hf

variable [DecidableEq σ]

/-- **Every request leaves the values kept backed.** -/
theorem Backed.next (h : Backed make earlier c) (m : Moment π κ σ ε τ φ) :
    Backed make (earlier ++ [m]) (c.next make m) := by
  have hlater := h.later m
  rcases c.serve_cases make m with ⟨-, hs⟩ | ⟨path, key, -, -, hs⟩ | ⟨path, key, hr, hl, hs⟩
    | ⟨path, fault, -, -, hs⟩
  · rw [Cache.next, hs]
    exact Backed.empty
  · rw [Cache.next, hs]
    exact hlater.invalidate key
  · rw [Cache.next, hs]
    show Backed make _ (c.get key _ _ make).cache
    rcases c.get_cases key (m.sources.stamp path) (m.sources.read path).toOption make with
      ⟨-, hget⟩ | ⟨current, value, -, -, hget⟩ | ⟨current, hstamp, -, hget⟩
    · rw [hget]
      exact hlater.invalidate key
    · rw [hget]
      exact hlater
    · rw [hget]
      exact (hlater.invalidate key).refill (List.mem_append_right _ List.mem_cons_self)
        ⟨path, hr, hl, hstamp, rfl⟩
  · rw [Cache.next, hs]
    exact hlater

/-! ## §3. Answers. -/

/-- **A cache of backed values gives the value that the source has now.** -/
theorem Backed.value_serve (h : Backed make earlier c) {m : Moment π κ σ ε τ φ}
    (hf : Faithful (earlier ++ [m])) :
    (c.serve make m).map Answer.value = m.uncached make := by
  unfold Moment.uncached
  rcases c.serve_cases make m with ⟨hr, hs⟩ | ⟨path, key, hr, hl, hs⟩ | ⟨path, key, hr, hl, hs⟩
    | ⟨path, fault, hr, hl, hs⟩
  · rw [hs, hr]
    rfl
  · simp only [hs, hr, hl]
    rfl
  · simp only [hs, hr, hl]
    refine congrArg Except.ok ?_
    rcases c.get_cases key (m.sources.stamp path) (m.sources.read path).toOption make with
      ⟨hstamp, hget⟩ | ⟨current, value, hstamp, hkept, hget⟩ | ⟨current, hstamp, -, hget⟩
    · rw [hget]
      unfold Sources.load
      rw [hstamp]
    · -- the moment that backs the value read the text that is there now
      obtain ⟨m', hm', text, hasks, hmake⟩ := h key current value hkept
      have hread := hf m' (List.mem_append_left _ hm') m
        (List.mem_append_right _ List.mem_cons_self) key current _ _ hasks
        ⟨path, hr, hl, hstamp, rfl⟩
      rw [hget, Sources.load_of_stamp hstamp, ← hread]
      exact hmake.symm
    · rw [hget, value_refill, Sources.load_of_stamp hstamp]
  · rcases hr with hr | hr
    · simp only [hs, hr, hl]
      rfl
    · simp only [hs, hr, hl]
      rfl

/-- The answers that follow on earlier moments. -/
theorem Backed.values_run {ms : List (Moment π κ σ ε τ φ)} :
    ∀ {earlier : List (Moment π κ σ ε τ φ)} {c : Cache κ σ ι}, Backed make earlier c →
      Faithful (earlier ++ ms) →
      (run make c ms).map (fun a => a.map Answer.value) = ms.map fun m => m.uncached make := by
  -- on the requests to come; each of them joins the earlier ones, which back the cache
  induction ms with
  | nil => intro earlier c _ _; rfl
  | cons m more ih =>
    intro earlier c h hf
    have hsplit : earlier ++ m :: more = (earlier ++ [m]) ++ more := by
      rw [List.append_assoc, List.singleton_append]
    rw [hsplit] at hf
    have hnow : Faithful (earlier ++ [m]) := by
      intro a ha b hb
      exact hf a (List.mem_append_left _ ha) b (List.mem_append_left _ hb)
    show (c.serve make m).map Answer.value :: (run make (c.next make m) more).map _ = _
    rw [h.value_serve hnow, ih (h.next m) hf]
    rfl

/-- **Every run of requests is answered as if there were no cache**, as long as stamps can be
trusted. -/
theorem values_run_eq_uncached (make : τ → Option ι) (ms : List (Moment π κ σ ε τ φ))
    (hf : Faithful ms) :
    (run make (.empty : Cache κ σ ι) ms).map (fun a => a.map Answer.value)
      = ms.map fun m => m.uncached make := by
  have hempty : Backed make ([] : List (Moment π κ σ ε τ φ)) (.empty : Cache κ σ ι) :=
    Backed.empty
  exact hempty.values_run hf

/-- A manifest that is edited: its stamp counts the edits.  There is none before the first
edit, the second leaves a text that is no manifest, and the third one that cannot be read. -/
def edited (n : Nat) : Sources String String Nat String (List Char) String where
  locate := .ok
  stamp _ := if n = 0 then none else some n
  read _ :=
    match n with
    | 1 => .ok "name: a\n".toList
    | 2 => .ok "name: [\n".toList
    | _ => .error "unreadable"

/-- A run in which a value is kept, served, dropped and made anew. -/
def editedRun : List (Moment String String Nat String (List Char) String) := [
  ⟨edited 0, .get "m"⟩, ⟨edited 1, .get "m"⟩, ⟨edited 1, .get "m"⟩, ⟨edited 2, .get "m"⟩,
  ⟨edited 1, .get "m"⟩, ⟨edited 1, .invalidate "m"⟩, ⟨edited 3, .get "m"⟩,
  ⟨edited 1, .get "n"⟩, ⟨edited 1, .clear⟩, ⟨edited 1, .get "n"⟩]

theorem values_run_editedRun :
    Faithful editedRun
      ∧ (run read? (.empty : Cache String Nat Info) editedRun).map (fun a => a.map Answer.value)
        = editedRun.map fun m => m.uncached read? := by
  have hsources : ∀ m ∈ editedRun, ∃ n, m.sources = edited n := by
    intro m hm
    simp only [editedRun, List.mem_cons, List.not_mem_nil, or_false] at hm
    rcases hm with rfl | rfl | rfl | rfl | rfl | rfl | rfl | rfl | rfl | rfl <;> exact ⟨_, rfl⟩
  -- a stamp is the number of edits, which tells the text
  have hstamp : ∀ m ∈ editedRun, ∀ key stamp text?, m.Asks key stamp text? →
      text? = ((edited stamp).read key).toOption := by
    rintro m hm key stamp text? ⟨path, -, -, hs, ht⟩
    obtain ⟨n, hn⟩ := hsources m hm
    rw [hn] at hs ht
    have hne : (if n = 0 then none else some n) = some stamp := hs
    split at hne
    · cases hne
    · obtain rfl := Option.some.inj hne
      exact ht.symm
  have hf : Faithful editedRun := by
    intro m hm m' hm' key stamp text? text?' h h'
    rw [hstamp m hm key stamp text? h, hstamp m' hm' key stamp text?' h']
  exact ⟨hf, values_run_eq_uncached read? editedRun hf⟩

end Cache

end EmbeddedExpr.Manifest
