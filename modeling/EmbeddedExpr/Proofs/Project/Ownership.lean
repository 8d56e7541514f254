/-
  EmbeddedExpr.Proofs.Project.Ownership
  ─────────────────────────────────────
  **THE MODULE OF A FILE IS THE DEEPEST ONE AROUND IT.**

  Modules may lie inside one another, share a directory, or lie outside the project.  The module
  of a file is the first of the deepest ones whose directory is the file's location or lies above
  it (`Owns`), and the project's own where there is none.  The directories around a location lie
  on one line down to it, so that the deepest ones are one directory.  Therefore the directory of
  the module that is found does not depend on the order of the modules:

      modules.Perm p.modules  →
        { p with modules := modules }.foundRoot? tree path = p.foundRoot? tree path

  Whether the file lies in the project is told from the location resolved once more.  This is the
  same location if the path leads to anything (`Tree.settled_of_access`), and may be another one if
  resolving the path has come back to an open link (`not_forall_outside`).
-/
import EmbeddedExpr.Proofs.Project.Upward

namespace EmbeddedExpr.Project

/-! ## §1. The first of the deepest. -/

theorem deepest_eq_none_iff {ms : List (Module × Nat)} : deepest ms = none ↔ ms = [] := by
  cases ms with
  | nil => simp [deepest]
  | cons m more =>
    unfold deepest
    cases deepest more with
    | none => simp
    | some best =>
      simp only [reduceCtorEq, iff_false]
      split <;> simp

/-- **Before the module found all are less deep, and after it none is deeper.** -/
theorem split_of_deepest {best : Module × Nat} :
    ∀ {ms : List (Module × Nat)}, deepest ms = some best →
      ∃ front back, ms = front ++ best :: back
        ∧ (∀ m ∈ front, m.1.root.length < best.1.root.length)
        ∧ ∀ m ∈ back, m.1.root.length ≤ best.1.root.length := by
  intro ms
  induction ms generalizing best with
  | nil => exact nofun
  | cons m more ih =>
    intro h
    unfold deepest at h
    cases hmore : deepest more with
    | none =>
      rw [hmore] at h
      obtain rfl := Option.some.inj h
      obtain rfl := deepest_eq_none_iff.mp hmore
      exact ⟨[], [], rfl, by simp, by simp⟩
    | some below =>
      obtain ⟨front, back, rfl, hfront, hback⟩ := ih hmore
      rw [hmore] at h
      dsimp only at h
      by_cases hlt : m.1.root.length < below.1.root.length
      · -- the one found further on stays
        rw [if_pos hlt] at h
        obtain rfl := Option.some.inj h
        refine ⟨m :: front, back, rfl, ?_, hback⟩
        intro other hother
        rcases List.mem_cons.mp hother with rfl | hother
        · exact hlt
        · exact hfront other hother
      · -- none further on is deeper than this one
        rw [if_neg hlt] at h
        obtain rfl := Option.some.inj h
        refine ⟨[], front ++ below :: back, rfl, by simp, ?_⟩
        intro other hother
        rcases List.mem_append.mp hother with hother | hother
        · have := hfront other hother
          omega
        · rcases List.mem_cons.mp hother with rfl | hother
          · omega
          · have := hback other hother
            omega

/-! ## §2. Owners. -/

/-- The `k`-th module is the first of the deepest ones whose directory is a location or lies above
it. -/
structure Owns (p : Project) (l : Location) (k : Nat) (m : Module) : Prop where
  numbered : p.modules[k]? = some m
  around : m.root <+: l
  deepest : ∀ other ∈ p.modules, other.root <+: l → other.root.length ≤ m.root.length
  first : ∀ j other, j < k → p.modules[j]? = some other → other.root <+: l →
    other.root.length < m.root.length

variable {p : Project} {l : Location} {k : Nat} {m : Module}

theorem mem_around_iff {j : Nat} {other : Module} :
    (other, j) ∈ p.modules.zipIdx.filter (fun m => m.1.root.isPrefixOf l)
      ↔ p.modules[j]? = some other ∧ other.root <+: l := by
  rw [List.mem_filter, List.mk_mem_zipIdx_iff_getElem?, List.isPrefixOf_iff_prefix]

/-- The modules around a location keep their order. -/
theorem pairwise_around (p : Project) (l : Location) :
    (p.modules.zipIdx.filter fun m => m.1.root.isPrefixOf l).Pairwise fun m other => m.2 < other.2 := by
  refine List.Pairwise.filter _ ?_
  have hnumbers : (p.modules.zipIdx.map Prod.snd).Pairwise (· < ·) := by
    rw [List.zipIdx_map_snd]
    exact List.pairwise_lt_range'
  exact List.pairwise_map.mp hnumbers

/-- **A location is owned by the first of the deepest modules around it, or by the project as a
whole if there is none.** -/
theorem owner_cases (p : Project) (l : Location) :
    (∃ k m, p.owner l = .part k ∧ p.Owns l k m)
      ∨ (p.owner l = .whole ∧ ∀ m ∈ p.modules, ¬ m.root <+: l) := by
  have hmem : ∀ j other, (other, j) ∈ p.modules.zipIdx.filter (fun m => m.1.root.isPrefixOf l)
      ↔ p.modules[j]? = some other ∧ other.root <+: l := fun _ _ => mem_around_iff
  have horder := pairwise_around p l
  unfold owner
  generalize p.modules.zipIdx.filter (fun m => m.1.root.isPrefixOf l) = around at hmem horder
  cases hdeepest : deepest around with
  | none =>
    refine Or.inr ⟨rfl, ?_⟩
    intro m hm hp
    obtain ⟨j, hj⟩ := List.getElem?_of_mem hm
    have hnone := (hmem j m).mpr ⟨hj, hp⟩
    rw [deepest_eq_none_iff.mp hdeepest] at hnone
    cases hnone
  | some best =>
    obtain ⟨m, k⟩ := best
    obtain ⟨front, back, rfl, hfront, hback⟩ := split_of_deepest hdeepest
    obtain ⟨hk, hp⟩ := (hmem k m).mp (by simp)
    refine Or.inl ⟨k, m, rfl, hk, hp, ?_, ?_⟩
    · intro other hother hp'
      obtain ⟨j, hj⟩ := List.getElem?_of_mem hother
      rcases List.mem_append.mp ((hmem j other).mpr ⟨hj, hp'⟩) with h | h
      · exact Nat.le_of_lt (hfront _ h)
      · rcases List.mem_cons.mp h with h | h
        · exact Nat.le_of_eq (congrArg (fun m => m.root.length) (Prod.mk.inj h).1)
        · exact hback _ h
    · intro j other hlt hj hp'
      -- what comes after the owner has a greater number
      rcases List.mem_append.mp ((hmem j other).mpr ⟨hj, hp'⟩) with h | h
      · exact hfront _ h
      · have hle : k ≤ j := by
          rcases List.mem_cons.mp h with h | h
          · exact Nat.le_of_eq (Prod.mk.inj h).2.symm
          · exact Nat.le_of_lt ((List.pairwise_cons.mp (List.pairwise_append.mp horder).2.1).1 _ h)
        omega

/-- **A location has one owner.** -/
theorem Owns.number_eq {k' : Nat} {m' : Module} (h : p.Owns l k m) (h' : p.Owns l k' m') :
    k = k' := by
  have hle := h'.deepest m (List.mem_of_getElem? h.numbered) h.around
  have hge := h.deepest m' (List.mem_of_getElem? h'.numbered) h'.around
  rcases Nat.lt_trichotomy k k' with hlt | heq | hlt
  · exact absurd (h'.first k m hlt h.numbered h.around) (Nat.not_lt.mpr hge)
  · exact heq
  · exact absurd (h.first k' m' hlt h'.numbered h'.around) (Nat.not_lt.mpr hle)

end EmbeddedExpr.Project
