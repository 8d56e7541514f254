/-
  EmbeddedExpr.Proofs.Project.Ground
  ──────────────────────────────────
  **WHAT A PROJECT SAYS OF LOCATIONS DEPENDS ON ITS DIRECTORIES AND PATTERNS.**

  Two projects are on the same ground when their roots, their patterns and the directories of
  their modules are the same, in the same order (`SameGround`).  Every location then has the same
  owner and every path names content in both or in neither, whatever else the modules say.

  A module that is changed but keeps its directory leaves the project on the same ground
  (`sameGround_changeModule`), and all other modules as they are (`moduleAt_changeModule`).
-/
import EmbeddedExpr.Proofs.Project.Ownership

namespace EmbeddedExpr.Project

/-! ## §1. The same directories. -/

/-- The project has a module. -/
def Has (p : Project) : ModuleRef → Prop
  | .whole => True
  | .part k => k < p.modules.length

/-- Two projects have the same directories and leave out the same. -/
structure SameGround (p p' : Project) : Prop where
  root : p'.root = p.root
  patterns : p'.patterns = p.patterns
  modules : p'.modules.map (·.root) = p.modules.map (·.root)

variable {p p' : Project} {l : Location} {r r' : ModuleRef} {f : Module → Module} {tree : Entry}
  {path : List String}

theorem SameGround.refl (p : Project) : p.SameGround p := ⟨rfl, rfl, rfl⟩

theorem SameGround.trans {p'' : Project} (h : p.SameGround p') (h' : p'.SameGround p'') :
    p.SameGround p'' :=
  ⟨h'.root.trans h.root, h'.patterns.trans h.patterns, h'.modules.trans h.modules⟩

theorem SameGround.symm (h : p.SameGround p') : p'.SameGround p :=
  ⟨h.root.symm, h.patterns.symm, h.modules.symm⟩

theorem SameGround.has (h : p.SameGround p') (hr : p.Has r) : p'.Has r := by
  cases r with
  | whole => trivial
  | part k =>
    have hlength := congrArg List.length h.modules
    simp only [List.length_map] at hlength
    show k < p'.modules.length
    rw [hlength]
    exact hr

/-- The module at a place has the same directory. -/
theorem SameGround.exists_module {k : Nat} {m : Module} (h : p.SameGround p')
    (hk : p.modules[k]? = some m) : ∃ m', p'.modules[k]? = some m' ∧ m'.root = m.root := by
  have hmap := congrArg (fun roots => roots[k]?) h.modules
  simp only [List.getElem?_map, hk, Option.map_some] at hmap
  exact Option.map_eq_some_iff.mp hmap

theorem SameGround.owns {k : Nat} {m : Module} (h : p.SameGround p') (howns : p.Owns l k m) :
    ∃ m', p'.Owns l k m' := by
  obtain ⟨m', hk, hroot⟩ := h.exists_module howns.numbered
  refine ⟨m', hk, hroot ▸ howns.around, ?_, ?_⟩
  · intro other' hother' haround
    obtain ⟨j, hj⟩ := List.getElem?_of_mem hother'
    obtain ⟨other, hother, hsame⟩ := h.symm.exists_module hj
    rw [hroot, ← hsame]
    exact howns.deepest other (List.mem_of_getElem? hother) (hsame ▸ haround)
  · intro j other' hlt hj haround
    obtain ⟨other, hother, hsame⟩ := h.symm.exists_module hj
    rw [hroot, ← hsame]
    exact howns.first j other hlt hother (hsame ▸ haround)

/-! ## §2. Owners and content. -/

/-- **Who owns a location is told from the directories.** -/
theorem SameGround.owner (h : p.SameGround p') (l : Location) : p'.owner l = p.owner l := by
  rcases p.owner_cases l with ⟨k, m, howner, howns⟩ | ⟨howner, hnone⟩
  · obtain ⟨m', howns'⟩ := h.owns howns
    rcases p'.owner_cases l with ⟨k', found, howner', hfound⟩ | ⟨-, hnone'⟩
    · rw [howner, howner', hfound.number_eq howns']
    · exact absurd howns'.around (hnone' m' (List.mem_of_getElem? howns'.numbered))
  · rcases p'.owner_cases l with ⟨k', found, -, hfound⟩ | ⟨howner', -⟩
    · obtain ⟨m, howns⟩ := h.symm.owns hfound
      exact absurd howns.around (hnone m (List.mem_of_getElem? howns.numbered))
    · rw [howner, howner']

theorem SameGround.moduleFor? (h : p.SameGround p') :
    p'.moduleFor? tree path = p.moduleFor? tree path := by
  unfold Project.moduleFor? way?
  simp only [h.root, h.owner]

theorem SameGround.isInContent (h : p.SameGround p') : p'.isInContent tree = p.isInContent tree := by
  funext path
  unfold Project.isInContent isInContentBy way?
  rw [h.root, h.patterns]

theorem owner_of_moduleFor? (h : p.moduleFor? tree path = .ok (some r)) : ∃ l, p.owner l = r := by
  unfold Project.moduleFor? at h
  cases hl : Tree.resolve tree path with
  | error loop =>
    rw [hl] at h
    cases h
  | ok l =>
    rw [hl] at h
    change (p.way? tree l).bind _ = _ at h
    cases hway : p.way? tree l with
    | error loop =>
      rw [hway] at h
      cases h
    | ok way =>
      rw [hway] at h
      obtain ⟨_, -, howner⟩ := Option.map_eq_some_iff.mp (Except.ok.inj h)
      exact ⟨l, howner⟩

theorem has_of_moduleFor? (h : p.moduleFor? tree path = .ok (some r)) : p.Has r := by
  obtain ⟨l, rfl⟩ := owner_of_moduleFor? h
  rcases p.owner_cases l with ⟨k, m, howner, howns⟩ | ⟨howner, -⟩
  · rw [howner]
    exact (List.getElem?_eq_some_iff.mp howns.numbered).1
  · rw [howner]
    trivial

/-! ## §3. Changed modules. -/

theorem sameGround_changeModule (hroot : ∀ m, (f m).root = m.root) :
    p.SameGround (p.changeModule r f) := by
  cases r with
  | whole => exact ⟨rfl, rfl, rfl⟩
  | part k =>
    refine ⟨rfl, rfl, ?_⟩
    show (p.modules.modify k f).map (·.root) = _
    refine List.ext_getElem? fun j => ?_
    rw [List.getElem?_map, List.getElem?_map, List.getElem?_modify]
    by_cases hj : k = j <;> cases p.modules[j]? <;> simp [hj, hroot]

/-- **Changing a module changes no other.** -/
theorem moduleAt_changeModule (hr' : p.Has r') :
    (p.changeModule r f).moduleAt r' = if r' = r then f (p.moduleAt r') else p.moduleAt r' := by
  cases r with
  | whole =>
    cases r' with
    | whole => rfl
    | part k' =>
      have hk' : k' < p.modules.length := hr'
      show p.modules[k']?.getD _ = p.modules[k']?.getD _
      rw [List.getElem?_eq_getElem hk']
      rfl
  | part k =>
    cases r' with
    | whole => rfl
    | part k' =>
      have hk' : k' < p.modules.length := hr'
      show (p.modules.modify k f)[k']?.getD _ = if _ then f (p.modules[k']?.getD _) else p.modules[k']?.getD _
      rw [List.getElem?_modify, List.getElem?_eq_getElem hk']
      by_cases h : k = k' <;> simp [h, eq_comm]

end EmbeddedExpr.Project
