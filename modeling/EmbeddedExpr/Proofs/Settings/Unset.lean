/-
  EmbeddedExpr.Proofs.Settings.Unset
  ──────────────────────────────────
  **A NULL SETTING MEANS UNSET.**

  A field that is null may as well be left out: at the top of a document, in its delimiters, in
  what describes a module and among a module's options (`Cleared`).  Of the settings nothing
  changes then, but for one field.  The root of a module is the module's name when the field is
  not there, and the text of null when the field is null.  With every such root left as it is:

      ofData shares data = .ok settings  →  Cleared shares False data data'
        →  ofData shares data' = .ok settings

  The fields of a mapping that has been cleared are known from those it had (`Dropped.field?`),
  and so what is read from it is known, part by part, from what was read before.
-/
import EmbeddedExpr.Proofs.Settings.Reading

namespace EmbeddedExpr.Settings

open Data (Shares)

/-! ## §1. Mappings without some of their null fields. -/

/-- The second entries are the first without some that are null, under keys that may be dropped.
The values of those that are left may be changed as it is said for their keys. -/
inductive Dropped (droppable : Data → Prop) (changed : Data → Data → Data → Prop) :
    List (Data × Data) → List (Data × Data) → Prop
  | nil : Dropped droppable changed [] []
  | keep {key value value' : Data} {more more' : List (Data × Data)}
      (hchanged : changed key value value') (hmore : Dropped droppable changed more more') :
      Dropped droppable changed ((key, value) :: more) ((key, value') :: more')
  /-- A mapping has no other entry of the key. -/
  | drop {key : Data} {more more' : List (Data × Data)} (hkey : droppable key)
      (honce : ∀ e ∈ more, e.1.same key = false) (hmore : Dropped droppable changed more more') :
      Dropped droppable changed ((key, .null) :: more) more'

/-- The values are one value, or mappings whose entries are so related. -/
def Within (shares : Shares) (related : List (Data × Data) → List (Data × Data) → Prop)
    (value value' : Data) : Prop :=
  value' = value ∨ ∃ entries entries', (value.view shares).entries? = some entries
    ∧ (value'.view shares).entries? = some entries' ∧ related entries entries'

/-- Fields that are null are dropped, and nothing else is changed. -/
def DroppedFlat (shares : Shares) : Data → Data → Prop :=
  Within shares (Dropped (fun _ => True) fun _ value value' => value' = value)

/-- Fields that are null are dropped from what describes a module and from its options. -/
def ClearedModule (shares : Shares) (roots : Prop) : Data → Data → Prop :=
  Within shares (Dropped (fun key => key = .str "root" → roots) fun key value value' =>
    value' = value ∨ key = .str "options" ∧ DroppedFlat shares value value')

/-- Every module of a mapping is cleared. -/
def ClearedModules (shares : Shares) (roots : Prop) : Data → Data → Prop :=
  Within shares (List.Forall₂ fun e e' => e'.1 = e.1 ∧ ClearedModule shares roots e.2 e'.2)

/-- Fields that are null are dropped from a settings document: from the document itself, from its
delimiters and from its modules.  Roots of modules are dropped only if that is allowed. -/
def Cleared (shares : Shares) (roots : Prop) : Data → Data → Prop :=
  Within shares (Dropped (fun _ => True) fun key value value' =>
    value' = value ∨ key = .str "delimiters" ∧ DroppedFlat shares value value'
      ∨ key = .str "modules" ∧ ClearedModules shares roots value value')

variable {shares : Shares} {droppable : Data → Prop} {changed : Data → Data → Data → Prop}
  {entries entries' : List (Data × Data)} {value value' : Data}

theorem Dropped.refl (hchanged : ∀ key value, changed key value value)
    (entries : List (Data × Data)) : Dropped droppable changed entries entries := by
  induction entries with
  | nil => exact .nil
  | cons e more ih => exact .keep (hchanged e.1 e.2) ih

theorem Dropped.exists_key (h : Dropped droppable changed entries entries') :
    ∀ e' ∈ entries', ∃ e ∈ entries, e.1 = e'.1 := by
  induction h with
  | nil => nofun
  | keep _ _ ih =>
    rintro e' (_ | ⟨_, he'⟩)
    · exact ⟨_, List.mem_cons_self, rfl⟩
    · obtain ⟨e, he, heq⟩ := ih e' he'
      exact ⟨e, List.mem_cons_of_mem _ he, heq⟩
  | drop _ _ _ ih =>
    intro e' he'
    obtain ⟨e, he, heq⟩ := ih e' he'
    exact ⟨e, List.mem_cons_of_mem _ he, heq⟩

theorem Dropped.onlyKeys {known : List String} (h : Dropped droppable changed entries entries')
    (hkeys : OnlyKeys known entries) : OnlyKeys known entries' := by
  intro e' he'
  obtain ⟨e, he, heq⟩ := h.exists_key e' he'
  rw [← heq]
  exact hkeys e he

theorem field?_cons {key : Data} {more : List (Data × Data)} {name : String} :
    Data.field? name ((key, value) :: more)
      = if key.same (.str name) = true then some value else Data.field? name more := by
  unfold Data.field? Data.lookup
  rw [List.find?_cons]
  cases key.same (.str name) <;> rfl

/-- Where no key is the name there is no field of it. -/
theorem field?_eq_none {name : String} (h : ∀ e ∈ entries, e.1.same (.str name) = false) :
    Data.field? name entries = none := by
  unfold Data.field? Data.lookup
  rw [Option.map_eq_none_iff, List.find?_eq_none]
  exact fun e he hsame => Bool.false_ne_true ((h e he).symm.trans hsame)

/-- **A field is dropped when it is null, and otherwise it is kept.** -/
theorem Dropped.field? (h : Dropped droppable changed entries entries') (name : String) :
    (∃ value value', Data.field? name entries = some value ∧ Data.field? name entries' = some value'
        ∧ changed (.str name) value value')
      ∨ Data.field? name entries = some .null ∧ droppable (.str name)
        ∧ Data.field? name entries' = none
      ∨ Data.field? name entries = none ∧ Data.field? name entries' = none := by
  induction h with
  | nil => exact Or.inr (Or.inr ⟨rfl, rfl⟩)
  | @keep key value value' more more' hchanged hmore ih =>
    rw [field?_cons, field?_cons]
    by_cases hsame : key.same (.str name) = true
    · obtain rfl := same_str_iff.mp hsame
      rw [if_pos hsame, if_pos hsame]
      exact Or.inl ⟨value, value', rfl, rfl, hchanged⟩
    · rw [if_neg hsame, if_neg hsame]
      exact ih
  | @drop key more more' hkey honce hmore ih =>
    rw [field?_cons]
    by_cases hsame : key.same (.str name) = true
    · obtain rfl := same_str_iff.mp hsame
      -- no entry that is left has the key
      have hnone : Data.field? name more' = none := by
        refine field?_eq_none fun e' he' => ?_
        obtain ⟨e, he, heq⟩ := hmore.exists_key e' he'
        rw [← heq]
        exact honce e he
      rw [if_pos hsame]
      exact Or.inr (Or.inl ⟨rfl, hkey, hnone⟩)
    · rw [if_neg hsame]
      exact ih

theorem Dropped.fieldOf (h : Dropped droppable changed entries entries') (name : String) :
    fieldOf name entries' = fieldOf name entries
      ∨ changed (.str name) (fieldOf name entries) (fieldOf name entries') := by
  unfold Settings.fieldOf
  rcases h.field? name with ⟨value, value', hvalue, hvalue', hchanged⟩ | ⟨hnull, -, hnone⟩
    | ⟨hnone, hnone'⟩
  · rw [hvalue, hvalue']
    exact Or.inr hchanged
  · rw [hnull, hnone]
    exact Or.inl rfl
  · rw [hnone, hnone']
    exact Or.inl rfl

theorem Within.related {related : List (Data × Data) → List (Data × Data) → Prop}
    (h : Within shares related value value') (hrefl : ∀ entries, related entries entries)
    (hmapping : IsMapping shares value) :
    IsMapping shares value' ∧ related (entriesIn shares value) (entriesIn shares value') := by
  rcases h with rfl | ⟨entries, entries', hentries, hentries', hrelated⟩
  · exact ⟨hmapping, hrefl _⟩
  · refine ⟨Or.inr ⟨entries', hentries'⟩, ?_⟩
    unfold entriesIn
    rw [hentries, hentries']
    exact hrelated

theorem DroppedFlat.related (h : DroppedFlat shares value value')
    (hmapping : IsMapping shares value) :
    IsMapping shares value' ∧ Dropped (fun _ => True) (fun _ value value' => value' = value)
      (entriesIn shares value) (entriesIn shares value') :=
  Within.related h (Dropped.refl fun _ _ => rfl) hmapping

/-! ## §2. Parts. -/

/-- **Markers that are null may be left out.** -/
theorem markersOf_of_droppedFlat {markers : Option String × Option String}
    (h : markersOf shares value = .ok markers) (hdropped : DroppedFlat shares value value') :
    markersOf shares value' = .ok markers := by
  obtain ⟨hmapping, hreads⟩ := markersOf_eq_ok_iff.mp h
  obtain ⟨hmapping', hless⟩ := hdropped.related hmapping
  have hfield : ∀ name, fieldOf name (entriesIn shares value')
      = fieldOf name (entriesIn shares value) :=
    fun name => or_self_iff.mp (hless.fieldOf name)
  refine markersOf_eq_ok_iff.mpr ⟨hmapping', hless.onlyKeys hreads.keys, ?_, ?_⟩
  · rw [hfield]
    exact hreads.opening
  · rw [hfield]
    exact hreads.closing

/-- **Options that are null may be left out.** -/
theorem optionsOf_of_dropped
    (h : Dropped droppable (fun _ value value' => value' = value) entries entries') :
    optionsOf shares entries' = optionsOf shares entries := by
  unfold optionsOf
  generalize ([] : List (String × String)) = options
  induction h generalizing options with
  | nil => rfl
  | keep hchanged _ ih =>
    subst hchanged
    rw [List.foldlM_cons, List.foldlM_cons]
    simp only [ih]
  | drop _ _ _ ih =>
    rw [List.foldlM_cons, ih]
    rfl

/-- The modules are one, or the second has its name for a root where the first has the text of
null. -/
def RootUnset (roots : Prop) (m m' : ModuleSettings) : Prop :=
  m' = m ∨ roots ∧ m.root = "None" ∧ m' = { m with root := m.name }

variable {roots : Prop}

theorem RootUnset.name_eq {m m' : ModuleSettings} (h : RootUnset roots m m') : m'.name = m.name := by
  rcases h with rfl | ⟨-, -, rfl⟩ <;> rfl

/-- **A root that is null is the text of null, and one that is dropped is the module's name.** -/
theorem exists_rootOf_of_dropped {name root : String} (h : rootOf shares name entries = .ok root)
    (hdropped : Dropped droppable changed entries entries')
    (hkept : ∀ value value', changed (.str "root") value value' → value' = value) :
    ∃ root', rootOf shares name entries' = .ok root'
      ∧ (root' = root ∨ droppable (.str "root") ∧ root = "None" ∧ root' = name) := by
  unfold rootOf at h ⊢
  rcases hdropped.field? "root" with ⟨value, value', hvalue, hvalue', hchanged⟩
    | ⟨hnull, hdroppable, hnone⟩ | ⟨hnone, hnone'⟩
  · obtain rfl := hkept value value' hchanged
    rw [hvalue] at h
    rw [hvalue']
    exact ⟨root, h, Or.inl rfl⟩
  · rw [hnull] at h
    rw [hnone]
    exact ⟨name, rfl, Or.inr ⟨hdroppable, (Except.ok.inj h).symm, rfl⟩⟩
  · rw [hnone] at h
    rw [hnone']
    exact ⟨root, h, Or.inl rfl⟩

/-- **A module may be without its null fields**, but then its root is its name. -/
theorem exists_moduleOf_of_cleared {name : String} {m : ModuleSettings}
    (h : moduleOf shares name value = .ok m) (hcleared : ClearedModule shares roots value value') :
    ∃ m', moduleOf shares name value' = .ok m' ∧ RootUnset roots m m' := by
  obtain ⟨hmapping, hreads⟩ := moduleOf_eq_ok_iff.mp h
  obtain ⟨hmapping', hless⟩ := Within.related hcleared (Dropped.refl fun _ _ => Or.inl rfl) hmapping
  have hflat : DroppedFlat shares (fieldOf "options" (entriesIn shares value))
      (fieldOf "options" (entriesIn shares value')) := by
    rcases hless.fieldOf "options" with heq | heq | ⟨-, hflat⟩
    · exact Or.inl heq
    · exact Or.inl heq
    · exact hflat
  obtain ⟨hshape, hdropped⟩ := hflat.related hreads.shape
  obtain ⟨root, hroot, hunset⟩ := exists_rootOf_of_dropped hreads.root hless fun _ _ hchanged =>
    hchanged.resolve_right fun ⟨heq, _⟩ => absurd (Data.str.inj heq) (by decide)
  refine ⟨⟨name, root, m.options⟩, moduleOf_eq_ok_iff.mpr ⟨hmapping', ?_⟩, ?_⟩
  · exact ⟨hless.onlyKeys hreads.keys, hshape, rfl, hroot, optionsOf_of_dropped hdropped ▸ hreads.options⟩
  · have hname := hreads.named
    subst hname
    rcases hunset with rfl | ⟨hroots, htext, rfl⟩
    · exact Or.inl rfl
    · exact Or.inr ⟨hroots rfl, htext, rfl⟩

/-- Modules, one by one, but for the roots that have been unset. -/
def RootsUnset (roots : Prop) : List ModuleSettings → List ModuleSettings → Prop :=
  List.Forall₂ (RootUnset roots)

/-- Modules under the same names. -/
def NamedRootsUnset (roots : Prop) :
    List (String × ModuleSettings) → List (String × ModuleSettings) → Prop :=
  List.Forall₂ fun e e' => e'.1 = e.1 ∧ RootUnset roots e.2 e'.2

theorem putNamed_rootsUnset {m m' : ModuleSettings} {kept kept' : List (String × ModuleSettings)}
    (hm : RootUnset roots m m') (hkept : NamedRootsUnset roots kept kept') :
    NamedRootsUnset roots (putNamed m.name m kept) (putNamed m'.name m' kept') := by
  rw [hm.name_eq]
  induction hkept with
  | nil => exact .cons ⟨rfl, hm⟩ .nil
  | @cons e e' more more' he hmore ih =>
    unfold putNamed
    rw [he.1]
    split
    · exact .cons ⟨rfl, hm⟩ hmore
    · exact .cons he ih

theorem byName_rootsUnset {read read' : List ModuleSettings} (h : RootsUnset roots read read') :
    RootsUnset roots (byName read) (byName read') := by
  have hfold : ∀ kept kept', NamedRootsUnset roots kept kept' →
      NamedRootsUnset roots (read.foldl (fun kept m => putNamed m.name m kept) kept)
        (read'.foldl (fun kept m => putNamed m.name m kept) kept') := by
    induction h with
    | nil => exact fun _ _ hkept => hkept
    | cons hm _ ih => exact fun kept kept' hkept => ih _ _ (putNamed_rootsUnset hm hkept)
  refine List.forall₂_map_left_iff.mpr (List.forall₂_map_right_iff.mpr ?_)
  exact (hfold [] [] .nil).imp fun e e' he => he.2

theorem exists_modulesOf_of_cleared {modules : List ModuleSettings}
    (h : modulesOf shares entries = .ok modules)
    (hcleared : List.Forall₂ (fun e e' => e'.1 = e.1 ∧ ClearedModule shares roots e.2 e'.2)
      entries entries') :
    ∃ modules', modulesOf shares entries' = .ok modules' ∧ RootsUnset roots modules modules' := by
  obtain ⟨read, hread, rfl⟩ := modulesOf_eq_ok_iff.mp h
  obtain ⟨read', hread', hunset⟩ :
      ∃ read', ReadsModules shares entries' read' ∧ RootsUnset roots read read' := by
    clear h
    induction hcleared generalizing read with
    | nil => exact ⟨[], .nil, by cases hread; exact .nil⟩
    | @cons e e' more more' he _ ih =>
      obtain _ | ⟨⟨name, hname, hm⟩, hms⟩ := hread
      obtain ⟨m', hm', hunset⟩ := exists_moduleOf_of_cleared hm he.2
      obtain ⟨ms', hms', hunsets⟩ := ih _ hms
      exact ⟨m' :: ms', .cons ⟨name, he.1 ▸ hname, hm'⟩ hms', .cons hunset hunsets⟩
  exact ⟨byName read', modulesOf_eq_ok_iff.mpr ⟨read', hread', rfl⟩, byName_rootsUnset hunset⟩

/-! ## §3. Documents. -/

/-- **A document may be without its null fields**: the settings are the same but for the roots of
modules. -/
theorem exists_ofData_of_cleared {data data' : Data} {settings : Settings}
    (h : ofData shares data = .ok settings) (hcleared : Cleared shares roots data data') :
    ∃ modules, ofData shares data' = .ok { settings with modules }
      ∧ RootsUnset roots settings.modules modules := by
  obtain ⟨hmapping, hreads⟩ := ofData_eq_ok_iff.mp h
  obtain ⟨hmapping', hless⟩ := Within.related hcleared (Dropped.refl fun _ _ => Or.inl rfl) hmapping
  have hfield : ∀ name, name ≠ "delimiters" → name ≠ "modules" →
      fieldOf name (entriesIn shares data') = fieldOf name (entriesIn shares data) := by
    intro name hdelimiters hmodules
    rcases hless.fieldOf name with heq | heq | ⟨heq, -⟩ | ⟨heq, -⟩
    · exact heq
    · exact heq
    · exact absurd (Data.str.inj heq) hdelimiters
    · exact absurd (Data.str.inj heq) hmodules
  have hmarkers : DroppedFlat shares (fieldOf "delimiters" (entriesIn shares data))
      (fieldOf "delimiters" (entriesIn shares data')) := by
    rcases hless.fieldOf "delimiters" with heq | heq | ⟨-, hflat⟩ | ⟨heq, -⟩
    · exact Or.inl heq
    · exact Or.inl heq
    · exact hflat
    · exact absurd (Data.str.inj heq) (by decide)
  have hmodules : ClearedModules shares roots (fieldOf "modules" (entriesIn shares data))
      (fieldOf "modules" (entriesIn shares data')) := by
    rcases hless.fieldOf "modules" with heq | heq | ⟨heq, -⟩ | ⟨-, hmodules⟩
    · exact Or.inl heq
    · exact Or.inl heq
    · exact absurd (Data.str.inj heq) (by decide)
    · exact hmodules
  obtain ⟨hshape, hentries⟩ := Within.related hmodules
    (fun entries => List.forall₂_same.mpr fun e _ => ⟨rfl, Or.inl rfl⟩) hreads.shape
  obtain ⟨modules, hread, hunset⟩ := exists_modulesOf_of_cleared hreads.modules hentries
  refine ⟨modules, ofData_eq_ok_iff.mpr ⟨hmapping', ?_⟩, hunset⟩
  constructor
  case keys => exact hless.onlyKeys hreads.keys
  case shape => exact hshape
  case mode => exact hfield "enabled" (by decide) (by decide) ▸ hreads.mode
  case language => exact hfield "language" (by decide) (by decide) ▸ hreads.language
  case markers => exact markersOf_of_droppedFlat hreads.markers hmarkers
  case expressionAttributes =>
    exact hfield "expression_attributes" (by decide) (by decide) ▸ hreads.expressionAttributes
  case exclude => exact hfield "exclude" (by decide) (by decide) ▸ hreads.exclude
  case modules => exact hread

theorem RootsUnset.eq_of_not {modules modules' : List ModuleSettings}
    (h : RootsUnset roots modules modules') (hroots : ¬ roots) : modules' = modules := by
  induction h with
  | nil => rfl
  | cons hm _ ih => rw [ih, hm.resolve_right fun ⟨h, _⟩ => hroots h]

/-- **A null field may be left out.**  If it is not the root of a module, then nothing changes.  If
it is one, then at most the module's root does, from the text of null to the module's name. -/
theorem ofData_cleared {data : Data} {settings : Settings} (h : ofData shares data = .ok settings) :
    (∀ data', Cleared shares False data data' → ofData shares data' = .ok settings)
      ∧ ∀ data', Cleared shares True data data' → ∃ modules,
        ofData shares data' = .ok { settings with modules }
          ∧ RootsUnset True settings.modules modules := by
  refine ⟨fun data' hcleared => ?_, fun data' hcleared => exists_ofData_of_cleared h hcleared⟩
  obtain ⟨modules, hread, hunset⟩ := exists_ofData_of_cleared h hcleared
  rw [hunset.eq_of_not not_false] at hread
  exact hread

/-- A document with fields that are null, in every mapping that may have them. -/
def sparseDocument : Data := .map [
  (.str "enabled", .null), (.str "delimiters", .map [(.str "start", .null), (.str "end", .str "]]")]),
  (.str "modules", .map [(.str "app",
    .map [(.str "root", .str "src"),
      (.str "options", .map [(.str "debug", .null), (.str "level", .int 3)])])])]

/-- The document without them. -/
def denseDocument : Data := .map [
  (.str "delimiters", .map [(.str "end", .str "]]")]),
  (.str "modules", .map [(.str "app",
    .map [(.str "root", .str "src"), (.str "options", .map [(.str "level", .int 3)])])])]

theorem cleared_sparseDocument : Cleared [] False sparseDocument denseDocument := by
  refine Or.inr ⟨_, _, rfl, rfl, .drop trivial (by decide) (.keep ?_ (.keep ?_ .nil))⟩
  · refine Or.inr (Or.inl ⟨rfl, Or.inr ⟨_, _, rfl, rfl, ?_⟩⟩)
    exact .drop trivial (by decide) (.keep rfl .nil)
  · refine Or.inr (Or.inr ⟨rfl, Or.inr ⟨_, _, rfl, rfl, .cons ⟨rfl, ?_⟩ .nil⟩⟩)
    refine Or.inr ⟨_, _, rfl, rfl, .keep (Or.inl rfl) (.keep (Or.inr ⟨rfl, ?_⟩) .nil)⟩
    exact Or.inr ⟨_, _, rfl, rfl, .drop trivial (by decide) (.keep rfl .nil)⟩

theorem ofData_sparseDocument :
    ∃ settings, ofData [] sparseDocument = .ok settings ∧ ofData [] denseDocument = .ok settings := by
  have hread : ofData [] sparseDocument
      = .ok ⟨.auto, defaultLanguage, none, some "]]", [], [], [⟨"app", "src", [("level", "3")]⟩]⟩ :=
    rfl
  exact ⟨_, hread, (ofData_cleared hread).1 _ cleared_sparseDocument⟩

/-- A document with a module of which only the value of the root is said. -/
def rootedDocument (fields : List (Data × Data)) : Data :=
  .map [(.str "modules", .map [(.str "tools", .map fields)])]

/-- A module whose root is null does not have the root of one whose root is not set. -/
theorem not_forall_ofData_cleared :
    ¬ ∀ (shares : Shares) (data data' : Data) (settings : Settings),
      ofData shares data = .ok settings → Cleared shares True data data' →
        ofData shares data' = .ok settings := by
  intro h
  have hcleared : Cleared [] True (rootedDocument [(.str "root", .null)]) (rootedDocument []) := by
    refine Or.inr ⟨_, _, rfl, rfl, .keep (Or.inr (Or.inr ⟨rfl, ?_⟩)) .nil⟩
    refine Or.inr ⟨_, _, rfl, rfl, .cons ⟨rfl, Or.inr ⟨_, _, rfl, rfl, ?_⟩⟩ .nil⟩
    exact .drop (fun _ => trivial) nofun .nil
  have hnull : ofData [] (rootedDocument [(.str "root", .null)])
      = .ok { default with modules := [⟨"tools", "None", []⟩] } := rfl
  have hunset : ofData [] (rootedDocument [])
      = .ok { default with modules := [⟨"tools", "tools", []⟩] } := rfl
  have heq := h _ _ _ _ hnull hcleared
  rw [hunset] at heq
  exact absurd (congrArg Settings.modules (Except.ok.inj heq)) (by decide)

end EmbeddedExpr.Settings
