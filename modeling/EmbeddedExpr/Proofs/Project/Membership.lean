/-
  EmbeddedExpr.Proofs.Project.Membership
  ──────────────────────────────────────
  **WHAT MEMBERSHIP ASKS OF A VERDICT.**

  Whether a way leads to content depends on the verdict on few written paths: those of the
  directories on the way and that of its end, and the same with a slash where a directory is
  meant (`Asks`).  The way leads to content exactly when the verdict leaves out none of them and
  none is owned by the configuration:

      holds verdict way directory  ↔  not owned  ∧  ∀ x, Asks way directory x → verdict x = false

  A way that stops earlier asks for less (`Asks.of_prefix`), so what leads to content leads
  through content only.
-/
import EmbeddedExpr.Project.Basic
import EmbeddedExpr.Proofs.Answers

namespace EmbeddedExpr

namespace Content

/-! ## §1. The paths asked for. -/

/-- The front of a way stands for an entry below the root. -/
def IsStop (front way : Location) : Prop :=
  front ≠ [] ∧ front <+: way ∧ written front ≠ "" ∧ written front ≠ "."

/-- Whether the way leads to content depends on the verdict on the path. -/
def Asks (way : Location) (directory : Bool) (path : String) : Prop :=
  ∃ front, IsStop front way
    ∧ (path = written front ∨ (path = written front ++ "/" ∧ (front = way → directory = true)))

/-- The configuration owns nothing on the way. -/
def Unowned (way : Location) : Prop :=
  ∀ front, IsStop front way → Config.owns (written front) = false

variable {verdict verdict' : String → Bool} {front way : Location} {directory : Bool}

theorem written_singleton (name : String) : written [name] = name := by
  simp [written]

theorem IsStop.trans {way' : Location} (h : IsStop front way') (hp : way' <+: way) :
    IsStop front way :=
  ⟨h.1, h.2.1.trans hp, h.2.2⟩

/-- A way that stops earlier asks for less, whether or not it means a directory. -/
theorem Asks.of_prefix {way' : Location} {directory' : Bool} {path : String}
    (h : Asks way' directory' path) (hp : way' <+: way) (hne : way' ≠ way) :
    Asks way directory path := by
  obtain ⟨front, hstop, hpath⟩ := h
  refine ⟨front, hstop.trans hp, hpath.imp_right fun ⟨hslash, _⟩ => ⟨hslash, ?_⟩⟩
  rintro rfl
  exact absurd (List.IsPrefix.eq_of_length_le hp hstop.2.1.length_le) hne

theorem mem_ancestors_iff :
    front ∈ ancestors way ↔ front ≠ [] ∧ front <+: way ∧ front ≠ way := by
  unfold ancestors
  rw [List.mem_map]
  constructor
  · rintro ⟨k, hk, rfl⟩
    have hlt : k + 1 < way.length := by
      have := List.mem_range.mp hk
      omega
    refine ⟨fun h => ?_, List.take_prefix _ _, fun h => ?_⟩
    · have := congrArg List.length h
      simp only [List.length_take, List.length_nil] at this
      omega
    · have := congrArg List.length h
      rw [List.length_take] at this
      omega
  · rintro ⟨hne, hp, hway⟩
    have hpos : 0 < front.length := List.length_pos_iff.mpr hne
    have hlt : front.length < way.length :=
      Nat.lt_of_le_of_ne hp.length_le fun h => hway (hp.eq_of_length h)
    refine ⟨front.length - 1, List.mem_range.mpr (by omega), ?_⟩
    rw [Nat.sub_add_cancel hpos]
    exact (List.prefix_iff_eq_take.mp hp).symm

/-- A way leads to content when no front of it is left out. -/
theorem holds_iff_fronts :
    holds verdict way directory = true ↔ ∀ front, front ≠ [] → front <+: way →
      isExcluded verdict (written front) (decide (front ≠ way) || directory) = false := by
  unfold holds
  by_cases hnil : way = []
  · subst hnil
    simp +contextual [List.prefix_nil]
  · rw [show way.isEmpty = false from Bool.eq_false_iff.mpr (by simpa using hnil), Bool.false_or,
      Bool.and_eq_true, List.all_eq_true]
    simp only [Bool.not_eq_true', mem_ancestors_iff]
    constructor
    · rintro ⟨habove, hway⟩ front hne hp
      by_cases hfront : front = way
      · subst hfront
        simpa using hway
      · simpa [hfront] using habove front ⟨hne, hp, hfront⟩
    · intro h
      refine ⟨fun front ⟨hne, hp, hfront⟩ => ?_, ?_⟩
      · simpa [hfront] using h front hne hp
      · simpa using h way hnil (List.prefix_refl way)

theorem isExcluded_eq_false_iff {path : String} :
    isExcluded verdict path directory = false ↔ path ≠ "" → path ≠ "." →
      Config.owns path = false ∧ verdict path = false
        ∧ (directory = true → verdict (path ++ "/") = false) := by
  unfold isExcluded
  split
  · next h =>
    rw [Bool.or_eq_true, decide_eq_true_iff, decide_eq_true_iff] at h
    refine ⟨fun _ hempty hdot => ?_, fun _ => rfl⟩
    exact absurd h (not_or.mpr ⟨hempty, hdot⟩)
  · next h =>
    rw [Bool.or_eq_true, decide_eq_true_iff, decide_eq_true_iff, not_or] at h
    simp only [Bool.or_eq_false_iff, Bool.and_eq_false_imp, ne_eq, h.1, h.2, not_false_eq_true,
      forall_const, and_assoc]

/-- **A way leads to content exactly when the verdict leaves out none of the paths that it is
asked for**, and the configuration owns none. -/
theorem holds_iff_asks :
    holds verdict way directory = true
      ↔ Unowned way ∧ ∀ path, Asks way directory path → verdict path = false := by
  rw [holds_iff_fronts]
  simp only [isExcluded_eq_false_iff]
  constructor
  · intro h
    refine ⟨fun front hstop => (h front hstop.1 hstop.2.1 hstop.2.2.1 hstop.2.2.2).1, ?_⟩
    rintro path ⟨front, hstop, rfl | ⟨rfl, hdirectory⟩⟩
    · exact (h front hstop.1 hstop.2.1 hstop.2.2.1 hstop.2.2.2).2.1
    · refine (h front hstop.1 hstop.2.1 hstop.2.2.1 hstop.2.2.2).2.2 ?_
      by_cases hway : front = way
      · rw [hdirectory hway, Bool.or_true]
      · rw [decide_eq_true hway, Bool.true_or]
  · rintro ⟨hunowned, h⟩ front hne hp hempty hdot
    have hstop : IsStop front way := ⟨hne, hp, hempty, hdot⟩
    refine ⟨hunowned front hstop, h _ ⟨front, hstop, Or.inl rfl⟩, fun hdirectory => ?_⟩
    refine h _ ⟨front, hstop, Or.inr ⟨rfl, fun hway => ?_⟩⟩
    simpa [hway] using hdirectory

end Content

/-! ## §3. Projects. -/

namespace Project

variable {p : Project} {verdict : String → Bool} {tree : Entry} {path : List String}

/-- Whether what a path names is content depends on the verdict on the written path. -/
def Asks (p : Project) (tree : Entry) (path : List String) (written : String) : Prop :=
  ∃ way, p.way? tree path = .ok (some way) ∧ Content.Asks way (Tree.isDirectory tree path) written

/-- The path leads into the project, and the configuration owns nothing on the way. -/
def Reaches (p : Project) (tree : Entry) (path : List String) : Prop :=
  ∃ way, p.way? tree path = .ok (some way) ∧ Content.Unowned way

/-- **A path names content exactly when the verdict leaves out none of the written paths that it
is asked for.** -/
theorem isInContentBy_eq_true_iff :
    p.isInContentBy verdict tree path = .ok true
      ↔ p.Reaches tree path ∧ ∀ written, p.Asks tree path written → verdict written = false := by
  unfold isInContentBy Reaches Asks
  rcases p.way? tree path with fault | way?
  · simp [Except.map]
  · rcases way? with _ | way
    · simp [Except.map]
    · simp [Except.map, Content.holds_iff_asks]

/-- Inside the project there is an answer. -/
theorem isInContentBy_of_ne {way? : Option Location} (h : p.way? tree path = .ok way?)
    (hne : p.isInContentBy verdict tree path ≠ .ok true) :
    p.isInContentBy verdict tree path = .ok false := by
  unfold isInContentBy at hne ⊢
  rw [h] at hne ⊢
  simp only [Except.map] at hne ⊢
  exact congrArg Except.ok (Bool.eq_false_iff.mpr fun htrue => hne (congrArg Except.ok htrue))

end Project

end EmbeddedExpr
