/-
  EmbeddedExpr.Proofs.Manifest.CustomRoots
  ────────────────────────────────────────
  **THE PACKAGE ROOTS OF A MODULE ARE ITS OWN AFFAIR.**

  A module may list package roots, and its list may be set or taken away at any time.  What counts
  is the list of the module that owns a file, unless it is blank (`listed?`).  Setting a list
  changes no directory and no pattern (`SameGround`), and so neither the owner of a file nor the
  manifest that is searched for.  It is seen by the files of that module only:

      p.moduleFor? tree path ≠ .ok (some r)
        →  rootsFor (p.setRoots (r, value)) tree path = rootsFor p tree path

  After any number of calls, in any order, the last one for a module tells what it lists
  (`listed?_after`).  Calls can therefore be taken back (`LocalRoots.restored`).

  The directories that a list names are those between its semicolons, without the white space
  around them (`AreListed`), as seen from the project's root.
-/
import EmbeddedExpr.Manifest.Roots
import EmbeddedExpr.Proofs.Manifest.Run
import EmbeddedExpr.Proofs.Project.Ground
import EmbeddedExpr.Proofs.Text.Pieces
import Mathlib.Data.List.Forall2
import Mathlib.Data.List.Induction

namespace EmbeddedExpr

/-! ## §1. Options. -/

theorem Settings.lookup_putNamed {α : Type} (key other : String) (value : α)
    (named : List (String × α)) :
    (putNamed key value named).lookup other
      = if other = key then some value else named.lookup other := by
  induction named with
  | nil =>
    rw [putNamed, List.lookup_cons]
    by_cases h : other = key
    · rw [if_pos h, beq_iff_eq.mpr h]
    · rw [if_neg h, beq_false_of_ne h]
  | cons e more ih =>
    obtain ⟨k, kept⟩ := e
    rw [putNamed]
    by_cases hk : k = key
    · rw [if_pos hk, List.lookup_cons, List.lookup_cons, hk]
      by_cases h : other = key
      · rw [if_pos h, beq_iff_eq.mpr h]
      · rw [if_neg h, beq_false_of_ne h]
    · rw [if_neg hk, List.lookup_cons, List.lookup_cons, ih]
      by_cases h : other = k
      · have hkey : ¬ other = key := fun heq => hk (h.symm.trans heq)
        rw [if_neg hkey, if_neg hkey]
      · rw [beq_false_of_ne h]

theorem Module.option?_setOption (m : Module) (key other value : String) :
    (m.setOption key value).option? other = if other = key then some value else m.option? other :=
  Settings.lookup_putNamed key other value m.options

theorem Module.option?_clearOption (m : Module) (key other : String) :
    (m.clearOption key).option? other = if other = key then none else m.option? other :=
  Manifest.lookup_filter_ne key other m.options

namespace Manifest

/-! ## §2. What a module lists. -/

/-- A list that says nothing: it holds white space only. -/
def SaysNothing (s : String) : Prop := ∀ c ∈ s.toList, Text.isBlank c = true

theorem isBlank_iff {s : String} : isBlank s = true ↔ SaysNothing s := List.all_eq_true

/-- A list of package roots, unless it is blank. -/
def unblank (value : Option String) : Option String := value.filter fun s => !isBlank s

/-- The package roots that a module lists, unless the list is blank. -/
def listed? (m : Module) : Option String := unblank (customRoots? m)

theorem unblank_some {s : String} (h : ¬ SaysNothing s) : unblank (some s) = some s := by
  rw [← isBlank_iff] at h
  simp [unblank, h]

theorem unblank_eq_none {value : Option String} (h : ∀ s ∈ value, SaysNothing s) :
    unblank value = none := by
  cases value with
  | none => rfl
  | some s => simp [unblank, isBlank_iff.mpr (h s rfl)]

/-- Setting a blank list takes the list away. -/
theorem setCustomRoots_eq (m : Module) (value : Option String) :
    setCustomRoots m value = match unblank value with
      | some s => m.setOption rootsOption s
      | none => m.clearOption rootsOption := by
  cases value with
  | none => rfl
  | some s =>
    show (if isBlank s then _ else _) = _
    by_cases hs : isBlank s = true
    · rw [if_pos hs, unblank_eq_none (by simpa [← isBlank_iff] using hs)]
    · rw [if_neg hs, unblank_some (mt isBlank_iff.mpr hs)]

theorem customRoots?_setCustomRoots (m : Module) (value : Option String) :
    customRoots? (setCustomRoots m value) = unblank value := by
  rw [setCustomRoots_eq]
  cases unblank value with
  | none => exact (m.option?_clearOption rootsOption rootsOption).trans (if_pos rfl)
  | some s => exact (m.option?_setOption rootsOption rootsOption s).trans (if_pos rfl)

/-- A list counts after it is set exactly as it counts when it is read. -/
theorem listed?_setCustomRoots (m : Module) (value : Option String) :
    listed? (setCustomRoots m value) = unblank value := by
  rw [listed?, customRoots?_setCustomRoots, unblank, unblank, Option.filter_filter]
  simp

theorem root_setCustomRoots (m : Module) (value : Option String) :
    (setCustomRoots m value).root = m.root := by
  rw [setCustomRoots_eq]
  cases unblank value <;> rfl

end Manifest

/-! ## §3. Calls. -/

namespace Project

open Manifest

/-- A module, and what it is to list from now on. -/
abbrev Call : Type := ModuleRef × Option String

/-- The project with the package roots of one module set. -/
def setRoots (p : Project) (call : Call) : Project :=
  p.changeModule call.1 fun m => setCustomRoots m call.2

/-- The project after calls, one after the other. -/
def after (p : Project) (calls : List Call) : Project := calls.foldl setRoots p

/-- What the last call for a module sets. -/
def lastSet? (calls : List Call) (r : ModuleRef) : Option (Option String) :=
  ((calls.filter fun call => call.1 = r).getLast?).map (·.2)

variable {p : Project} {r : ModuleRef}

theorem sameGround_setRoots (p : Project) (call : Call) : p.SameGround (p.setRoots call) :=
  sameGround_changeModule fun m => root_setCustomRoots m call.2

theorem sameGround_after (calls : List Call) : ∀ p : Project, p.SameGround (p.after calls) := by
  induction calls with
  | nil => exact SameGround.refl
  | cons call more ih => exact fun p => (sameGround_setRoots p call).trans (ih _)

theorem lastSet?_concat (calls : List Call) (call : Call) (r : ModuleRef) :
    lastSet? (calls ++ [call]) r = if call.1 = r then some call.2 else lastSet? calls r := by
  unfold lastSet?
  rw [List.filter_append]
  by_cases h : call.1 = r <;> simp [h]

/-- What one call does to a module: it is told what to list, or stays as it is. -/
theorem listed?_setRoots (hr : p.Has r) (call : Call) :
    listed? ((p.setRoots call).moduleAt r)
      = if call.1 = r then unblank call.2 else listed? (p.moduleAt r) := by
  rw [setRoots, moduleAt_changeModule hr]
  by_cases h : call.1 = r
  · rw [if_pos h.symm, if_pos h, listed?_setCustomRoots]
  · rw [if_neg (Ne.symm h), if_neg h]

/-- **The last call for a module tells what it lists**, and a module without a call lists what it
did. -/
theorem listed?_after (hr : p.Has r) (calls : List Call) :
    listed? ((p.after calls).moduleAt r)
      = ((lastSet? calls r).map unblank).getD (listed? (p.moduleAt r)) := by
  induction calls using List.reverseRecOn with
  | nil => rfl
  | append_singleton calls call ih =>
    have hafter : p.after (calls ++ [call]) = (p.after calls).setRoots call := by
      simp [after]
    rw [hafter, listed?_setRoots ((sameGround_after calls p).has hr), lastSet?_concat, ih]
    by_cases h : call.1 = r
    · rw [if_pos h, if_pos h]
      rfl
    · rw [if_neg h, if_neg h]

end Project

namespace Manifest

/-! ## §4. The directories of a list. -/

/-- The names between the semicolons of a list, without the white space around them; empty ones
are passed over. -/
def AreListed (value : String) (names : List String) : Prop :=
  ∃ pieces trimmed, Text.ArePieces ';' value.toList pieces
    ∧ List.Forall₂ Text.IsTrimmed pieces trimmed
    ∧ names = (trimmed.filter (· ≠ [])).map String.ofList

/-- The names of a written path that is seen from a location, unless it begins at the root of the
file tree. -/
def seenFrom (base : Location) (written : String) : List String :=
  (if written.toList.head? = some '/' then [] else base) ++ (Path.ofString written).parts

/-- The directories among those that a list names, in its order and resolved. -/
def AreRoots (tree : Entry) (base : Location) (value : String) (roots : List Location) : Prop :=
  ∃ names, AreListed value names
    ∧ List.Forall₂ (fun path l => Tree.resolve tree path = .ok l)
        ((names.map (seenFrom base)).filter (Tree.isDirectory tree)) roots

theorem areListed_iff {value : String} {names : List String} :
    AreListed value names ↔ names = listedRoots value := by
  have htrim : ∀ pieces trimmed, List.Forall₂ Text.IsTrimmed pieces trimmed
      ↔ trimmed = pieces.map Text.trim := by
    intro pieces trimmed
    rw [eq_comm, ← List.forall₂_eq_eq_eq, List.forall₂_map_left_iff]
    show List.Forall₂ (fun s t => Text.IsTrimmed s t) pieces trimmed ↔ _
    simp only [Text.isTrimmed_iff, eq_comm]
  unfold AreListed listedRoots
  simp only [Text.arePieces_iff, htrim, exists_and_left, exists_eq_left]

/-- White space is taken away around names, and nothing between semicolons is no name. -/
example : listedRoots " vendor/one ; ;/else\t;" = ["vendor/one", "/else"] := by cbv

theorem isAbsolute_ofString (written : String) :
    (Path.ofString written).isAbsolute = decide (written.toList.head? = some '/') := by
  show decide (Path.headSlashes (written.toList.takeWhile (· = '/')).length ≠ 0) = _
  cases written.toList with
  | nil => rfl
  | cons c rest =>
    by_cases hc : c = '/'
    · rw [List.takeWhile_cons_of_pos (by simpa using hc)]
      unfold Path.headSlashes
      split <;> simp [hc]
    · rw [List.takeWhile_cons_of_neg (by simpa using hc)]
      simp [hc, Path.headSlashes]

theorem partsFrom_eq (base : Location) (written : String) :
    Project.partsFrom base written = seenFrom base written := by
  unfold Project.partsFrom seenFrom Path.join
  rw [isAbsolute_ofString]
  by_cases h : written.toList.head? = some '/' <;> simp [h, Location.path]

theorem forall₂_of_mapM {ε α β : Type} {f : α → Except ε β} {items : List α} {found : List β}
    (h : items.mapM f = .ok found) : List.Forall₂ (fun a b => f a = .ok b) items found := by
  induction items generalizing found with
  | nil =>
    obtain rfl := Except.ok.inj h
    exact .nil
  | cons a more ih =>
    rw [List.mapM_cons] at h
    cases ha : f a with
    | error fault =>
      rw [ha] at h
      cases h
    | ok b =>
      cases hmore : more.mapM f with
      | error fault =>
        rw [ha, hmore] at h
        cases h
      | ok bs =>
        rw [ha, hmore] at h
        obtain rfl := Except.ok.inj h
        exact .cons ha (ih hmore)

/-- **The directories of a list can always be resolved.** -/
theorem exists_splitRoots (tree : Entry) (base : Location) (value : String) :
    ∃ roots, splitRoots tree base value = .ok roots ∧ AreRoots tree base value roots := by
  unfold splitRoots
  rw [show Project.partsFrom base = seenFrom base from funext (partsFrom_eq base)]
  obtain ⟨roots, hroots⟩ := (exists_mapM_iff _).mpr fun path hpath =>
    Tree.exists_resolve_of_isDirectory (List.mem_filter.mp hpath).2
  exact ⟨roots, hroots, listedRoots value, areListed_iff.mpr rfl, forall₂_of_mapM hroots⟩

/-! ## §5. The roots of a file. -/

/-- A manifest with the directory of packages beside it. -/
def besideManifest (tree : Entry) (manifest? : Option Location) : Roots :=
  ⟨manifest?, (manifest?.toList.map fun manifest => manifest.parent ++ [packagesName]).filter
    (Tree.isDirectory tree)⟩

section

variable {p p' : Project} {tree : Entry} {path : List String} {r : Project.ModuleRef}

theorem find?_of_sameGround (h : p.SameGround p') : find? p' tree path = find? p tree path := by
  unfold find?
  rw [h.isInContent]

/-- The list of the owner tells which of two ways the roots are found in. -/
theorem rootsFor_eq {owner : Option Project.ModuleRef} (h : p.moduleFor? tree path = .ok owner) :
    rootsFor p tree path = match owner.bind fun r => listed? (p.moduleAt r) with
      | some s => (splitRoots tree p.root s).map fun roots => ⟨none, roots⟩
      | none => (find? p tree path).map (besideManifest tree) := by
  have hlisted : ((owner.bind fun r => customRoots? (p.moduleAt r)).filter fun s => !isBlank s)
      = owner.bind fun r => listed? (p.moduleAt r) := by
    cases owner <;> rfl
  unfold rootsFor
  rw [h]
  simp only [bind, Except.bind, hlisted]
  cases owner.bind fun r => listed? (p.moduleAt r) with
  | some s => cases splitRoots tree p.root s <;> rfl
  | none =>
    cases find? p tree path with
    | error loop => rfl
    | ok manifest? =>
      cases manifest? with
      | none => rfl
      | some manifest =>
        show Except.ok _ = Except.ok (besideManifest tree (some manifest))
        unfold besideManifest
        cases hdirectory : Tree.isDirectory tree (manifest.parent ++ [packagesName]) <;>
          simp [hdirectory]

/-- The roots of a file are told from the directories, and from what its owner lists. -/
theorem rootsFor_of_sameGround (h : p.SameGround p')
    (hlisted : ∀ r, p.moduleFor? tree path = .ok (some r) →
      listed? (p'.moduleAt r) = listed? (p.moduleAt r)) :
    rootsFor p' tree path = rootsFor p tree path := by
  have howner : p'.moduleFor? tree path = p.moduleFor? tree path := h.moduleFor?
  cases hfor : p.moduleFor? tree path with
  | error loop =>
    rw [hfor] at howner
    unfold rootsFor
    rw [howner, hfor]
    rfl
  | ok owner =>
    rw [hfor] at howner
    rw [rootsFor_eq howner, rootsFor_eq hfor, h.root, find?_of_sameGround h]
    cases owner with
    | none => rfl
    | some r =>
      show (match listed? (p'.moduleAt r) with | some s => _ | none => _) = _
      rw [hlisted r hfor]
      rfl

/-- Calls that leave each module with what it listed at first change no answer. -/
theorem rootsFor_after {calls : List Project.Call}
    (h : ∀ r value, Project.lastSet? calls r = some value →
      unblank value = listed? (p.moduleAt r)) :
    rootsFor (p.after calls) tree path = rootsFor p tree path := by
  refine rootsFor_of_sameGround (p.sameGround_after calls) ?_
  intro r hr
  rw [Project.listed?_after (Project.has_of_moduleFor? hr)]
  cases hlast : Project.lastSet? calls r with
  | none => rfl
  | some value => exact h r value hlast

/-- Setting the list of a module is seen by the files of this module only, and can be taken
back. -/
structure LocalRoots (p : Project) (tree : Entry) : Prop where
  /-- No file gets another owner. -/
  owners : ∀ call path, (p.setRoots call).moduleFor? tree path = p.moduleFor? tree path
  /-- No other manifest is found. -/
  manifests : ∀ call path, find? (p.setRoots call) tree path = find? p tree path
  /-- A list takes the place of the manifest. -/
  listed : ∀ r s path, ¬ SaysNothing s →
    (p.setRoots (r, some s)).moduleFor? tree path = .ok (some r) →
      ∃ roots, rootsFor (p.setRoots (r, some s)) tree path = .ok ⟨none, roots⟩
        ∧ AreRoots tree p.root s roots
  /-- Without one, or with a blank one, there is the manifest. -/
  unlisted : ∀ r value path, (∀ s ∈ value, SaysNothing s) →
    (p.setRoots (r, value)).moduleFor? tree path = .ok (some r) →
      rootsFor (p.setRoots (r, value)) tree path
        = (find? (p.setRoots (r, value)) tree path).map (besideManifest tree)
  /-- The files of other modules, and those outside the project, do not see it. -/
  elsewhere : ∀ r value path, p.moduleFor? tree path ≠ .ok (some r) →
    rootsFor (p.setRoots (r, value)) tree path = rootsFor p tree path
  /-- A blank list is there as if it were not. -/
  blank : ∀ r s, customRoots? (p.moduleAt r) = some s → SaysNothing s → ∀ path,
    rootsFor p tree path = rootsFor (p.setRoots (r, none)) tree path
  /-- After calls of any number and order, every module may list again what it did at first. -/
  restored : ∀ calls, (∀ r value, Project.lastSet? calls r = some value →
    unblank value = listed? (p.moduleAt r)) → ∀ path,
      rootsFor (p.after calls) tree path = rootsFor p tree path

end

/-- **What a module lists is seen by its own files only, and can be taken back.** -/
theorem localRoots (p : Project) (tree : Entry) : LocalRoots p tree := by
  have hground := p.sameGround_setRoots
  constructor
  case owners => exact fun call path => (hground call).moduleFor?
  case manifests => exact fun call path => find?_of_sameGround (hground call)
  case listed =>
    intro r s path hs hr
    have hhas := (hground (r, some s)).symm.has (Project.has_of_moduleFor? hr)
    obtain ⟨roots, hroots, hare⟩ := exists_splitRoots tree p.root s
    refine ⟨roots, ?_, hare⟩
    rw [rootsFor_eq hr, Option.bind_some, Project.listed?_setRoots hhas, if_pos rfl,
      unblank_some hs]
    show (splitRoots tree (p.setRoots (r, some s)).root s).map _ = _
    rw [(hground (r, some s)).root, hroots]
    rfl
  case unlisted =>
    intro r value path hblank hr
    have hhas := (hground (r, value)).symm.has (Project.has_of_moduleFor? hr)
    rw [rootsFor_eq hr, Option.bind_some, Project.listed?_setRoots hhas, if_pos rfl,
      unblank_eq_none hblank]
  case elsewhere =>
    intro r value path hother
    refine rootsFor_of_sameGround (hground (r, value)) ?_
    intro r' hr'
    have hne : r ≠ r' := by
      intro heq
      exact hother (heq ▸ hr')
    rw [Project.listed?_setRoots (Project.has_of_moduleFor? hr'), if_neg hne]
  case blank =>
    intro r s hs hblank path
    refine (rootsFor_of_sameGround (hground (r, none)) ?_).symm
    intro r' hr'
    rw [Project.listed?_setRoots (Project.has_of_moduleFor? hr')]
    by_cases h : r = r'
    · have hnone : unblank (some s) = none := unblank_eq_none (by simpa using hblank)
      rw [if_pos h, ← h, listed?, hs, hnone]
      rfl
    · rw [if_neg h]
  case restored => exact fun calls h path => rootsFor_after h

end Manifest

end EmbeddedExpr
