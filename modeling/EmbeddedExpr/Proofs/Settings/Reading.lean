/-
  EmbeddedExpr.Proofs.Settings.Reading
  ────────────────────────────────────
  **WHAT IS READ FROM A SETTINGS DOCUMENT.**

  The reader goes through a document step by step and stops at the first fault.  Here it is said
  once what it has read when it does not stop: which shapes the values have (`IsMapping`,
  `OnlyKeys`), and from which value each of the settings comes:

      ofData shares data = .ok settings
        ↔  IsMapping shares data ∧ Reads shares (entriesIn shares data) settings

  and likewise for the value of one module (`ReadsModule`).  What follows from settings that have
  been read follows from these, without going through the reader again.
-/
import EmbeddedExpr.Proofs.Answers
import EmbeddedExpr.Proofs.Settings.Faults
import Mathlib.Data.List.Forall2

namespace EmbeddedExpr.Settings

open Data (Shares)

/-! ## §1. Shapes. -/

/-- The value counts as nothing, or is a mapping. -/
def IsMapping (shares : Shares) (value : Data) : Prop :=
  (value.view shares).isFalsy = true ∨ ∃ entries, (value.view shares).entries? = some entries

/-- The keys are known ones. -/
def OnlyKeys (known : List String) (entries : List (Data × Data)) : Prop :=
  ∀ e ∈ entries, ∃ name ∈ known, e.1 = .str name

variable {shares : Shares} {value : Data} {fault : Fault} {entries : List (Data × Data)}

theorem entriesOf_eq_ok_iff :
    entriesOf shares fault value = .ok entries
      ↔ IsMapping shares value ∧ entries = entriesIn shares value := by
  constructor
  · intro h
    refine ⟨?_, entriesOf_eq_ok h⟩
    unfold entriesOf at h
    dsimp only at h
    split at h
    · next hfalsy => exact Or.inl hfalsy
    · split at h
      · next found hfound => exact Or.inr ⟨found, hfound⟩
      · cases h
  · rintro ⟨hmapping, rfl⟩
    cases hentries : entriesOf shares fault value with
    | ok entries => rw [entriesOf_eq_ok hentries]
    | error fault' =>
      unfold entriesOf at hentries
      dsimp only at hentries
      rcases hmapping with hfalsy | ⟨found, hfound⟩
      · rw [if_pos hfalsy] at hentries
        cases hentries
      · split at hentries
        · cases hentries
        · rw [hfound] at hentries
          cases hentries

/-- A text is the only key that is the same as it. -/
theorem same_str_iff {key : Data} {name : String} :
    key.same (.str name) = true ↔ key = .str name := by
  cases key with
  | float x => cases x <;> simp [Data.same, Data.count?]
  | _ => simp [Data.same, Data.count?]

theorem isKnown_iff {known : List String} {key : Data} :
    isKnown known key = true ↔ ∃ name ∈ known, key = .str name := by
  unfold isKnown
  simp only [List.any_eq_true, same_str_iff]

theorem checkKeys_eq_ok_iff {context : String} {known : List String} :
    checkKeys context known entries = .ok () ↔ OnlyKeys known entries := by
  have hnone : (entries.map (·.1)).filter (fun key => !isKnown known key) = []
      ↔ OnlyKeys known entries := by
    rw [List.filter_eq_nil_iff]
    unfold OnlyKeys
    simp only [List.mem_map, Bool.not_eq_true', Bool.not_eq_false, ← isKnown_iff]
    constructor
    · exact fun h e he => h e.1 ⟨e, he, rfl⟩
    · rintro h _ ⟨e, he, rfl⟩
      exact h e he
  rw [← hnone]
  unfold checkKeys
  split
  · next heq => exact ⟨fun _ => heq, fun _ => rfl⟩
  · next hne =>
    refine ⟨fun h => ?_, fun heq => absurd heq hne⟩
    split at h <;> cases h

/-! ## §2. Modules. -/

/-- The root of a module is read from the field of that name, and is the module's name if there is
no such field. -/
def rootOf (shares : Shares) (name : String) (entries : List (Data × Data)) : Except Fault String :=
  match Data.field? "root" entries with
  | some root => textOf shares root
  | none => .ok name

/-- What a module is read from. -/
structure ReadsModule (shares : Shares) (name : String) (entries : List (Data × Data))
    (m : ModuleSettings) : Prop where
  keys : OnlyKeys ["root", "options"] entries
  shape : IsMapping shares (fieldOf "options" entries)
  named : m.name = name
  root : rootOf shares name entries = .ok m.root
  options : optionsOf shares (entriesIn shares (fieldOf "options" entries)) = .ok m.options

/-- **A module is read from the fields of a mapping.** -/
theorem moduleOf_eq_ok_iff {name : String} {m : ModuleSettings} :
    moduleOf shares name value = .ok m
      ↔ IsMapping shares value ∧ ReadsModule shares name (entriesIn shares value) m := by
  -- the root is read before the options are, whichever way it is found
  have hbuild : ∀ (root : Except Fault String) (options : List (Data × Data)),
      (root >>= fun root => optionsOf shares options >>= fun options =>
          .ok (⟨name, root, options⟩ : ModuleSettings)) = .ok m
        ↔ m.name = name ∧ root = .ok m.root ∧ optionsOf shares options = .ok m.options := by
    intro root options
    simp only [bind_eq_ok_iff, Except.ok.injEq]
    constructor
    · rintro ⟨root, rfl, options, hoptions, rfl⟩
      exact ⟨rfl, rfl, hoptions⟩
    · rintro ⟨rfl, hroot, hoptions⟩
      exact ⟨m.root, hroot, m.options, hoptions, rfl⟩
  have hroot : ∀ (entries options : List (Data × Data)),
      (do let root ← match Data.field? "root" entries with
          | some root => textOf shares root
          | none => pure name
          pure (⟨name, root, ← optionsOf shares options⟩ : ModuleSettings)) = .ok m
        ↔ m.name = name ∧ rootOf shares name entries = .ok m.root
          ∧ optionsOf shares options = .ok m.options := by
    intro entries options
    unfold rootOf
    cases Data.field? "root" entries with
    | some root => exact hbuild (textOf shares root) options
    | none => exact hbuild (.ok name) options
  unfold moduleOf
  rw [bind_eq_ok_iff]
  constructor
  · rintro ⟨entries, hentries, h⟩
    obtain ⟨hmapping, rfl⟩ := entriesOf_eq_ok_iff.mp hentries
    obtain ⟨_, hkeys, h⟩ := bind_eq_ok_iff.mp h
    obtain ⟨options, hoptions, h⟩ := bind_eq_ok_iff.mp h
    obtain ⟨hshape, rfl⟩ := entriesOf_eq_ok_iff.mp hoptions
    obtain ⟨hname, hfound, hread⟩ := (hroot _ _).mp h
    exact ⟨hmapping, checkKeys_eq_ok_iff.mp hkeys, hshape, hname, hfound, hread⟩
  · rintro ⟨hmapping, h⟩
    refine ⟨_, entriesOf_eq_ok_iff.mpr ⟨hmapping, rfl⟩, ?_⟩
    refine bind_eq_ok_iff.mpr ⟨(), checkKeys_eq_ok_iff.mpr h.keys, ?_⟩
    refine bind_eq_ok_iff.mpr ⟨_, entriesOf_eq_ok_iff.mpr ⟨h.shape, rfl⟩, ?_⟩
    exact (hroot _ _).mpr ⟨h.named, h.root, h.options⟩

/-- Every value of a mapping is read as the module that its key names. -/
def ReadsModules (shares : Shares) (entries : List (Data × Data))
    (modules : List ModuleSettings) : Prop :=
  List.Forall₂ (fun e m => ∃ name, textOf shares e.1 = .ok name ∧ moduleOf shares name e.2 = .ok m)
    entries modules

theorem exists_readsModules_iff : (∃ modules, ReadsModules shares entries modules)
    ↔ ∀ e ∈ entries, ∃ m name, textOf shares e.1 = .ok name ∧ moduleOf shares name e.2 = .ok m := by
  unfold ReadsModules
  induction entries with
  | nil => exact ⟨nofun, fun _ => ⟨[], .nil⟩⟩
  | cons e more ih =>
    rw [List.forall_mem_cons, ← ih]
    simp only [List.forall₂_cons_left_iff]
    constructor
    · rintro ⟨_, m, ms, hm, hms, rfl⟩
      exact ⟨⟨m, hm⟩, ms, hms⟩
    · rintro ⟨⟨m, hm⟩, ms, hms⟩
      exact ⟨_, m, ms, hm, hms, rfl⟩

/-- Modules by their names: of two of one name the last one holds, in the place of the first. -/
def byName (modules : List ModuleSettings) : List ModuleSettings :=
  (modules.foldl (fun kept m => putNamed m.name m kept) []).map (·.2)

theorem modulesOf_eq_ok_iff {modules : List ModuleSettings} :
    modulesOf shares entries = .ok modules
      ↔ ∃ read, ReadsModules shares entries read ∧ modules = byName read := by
  have hread : ∀ {read : List ModuleSettings},
      (entries.mapM fun e => do moduleOf shares (← textOf shares e.1) e.2) = .ok read
        ↔ ReadsModules shares entries read := by
    unfold ReadsModules
    induction entries with
    | nil =>
      intro read
      rw [List.mapM_nil, List.forall₂_nil_left_iff]
      exact ⟨fun h => (Except.ok.inj h).symm, fun h => h ▸ rfl⟩
    | cons e more ih =>
      intro read
      simp only [List.mapM_cons, bind_eq_ok_iff, List.forall₂_cons_left_iff]
      constructor
      · rintro ⟨m, ⟨name, hname, hm⟩, ms, hms, hread⟩
        exact ⟨m, ms, ⟨name, hname, hm⟩, ih.mp hms, (Except.ok.inj hread).symm⟩
      · rintro ⟨m, ms, ⟨name, hname, hm⟩, hms, rfl⟩
        exact ⟨m, ⟨name, hname, hm⟩, ms, ih.mpr hms, rfl⟩
  unfold modulesOf
  simp only [bind_eq_ok_iff, hread]
  constructor
  · rintro ⟨read, h, heq⟩
    exact ⟨read, h, (Except.ok.inj heq).symm⟩
  · rintro ⟨read, h, rfl⟩
    exact ⟨read, h, rfl⟩

/-! ## §3. Markers. -/

/-- What the markers are read from. -/
structure ReadsMarkers (shares : Shares) (entries : List (Data × Data))
    (markers : Option String × Option String) : Prop where
  keys : OnlyKeys ["start", "end"] entries
  opening : textOrNone shares (fieldOf "start" entries) = .ok markers.1
  closing : textOrNone shares (fieldOf "end" entries) = .ok markers.2

theorem markersOf_eq_ok_iff {markers : Option String × Option String} :
    markersOf shares value = .ok markers
      ↔ IsMapping shares value ∧ ReadsMarkers shares (entriesIn shares value) markers := by
  unfold markersOf
  rw [bind_eq_ok_iff]
  constructor
  · rintro ⟨entries, hentries, h⟩
    obtain ⟨hmapping, rfl⟩ := entriesOf_eq_ok_iff.mp hentries
    obtain ⟨_, hkeys, h⟩ := bind_eq_ok_iff.mp h
    obtain ⟨opening?, hopening, h⟩ := bind_eq_ok_iff.mp h
    obtain ⟨closing?, hclosing, h⟩ := bind_eq_ok_iff.mp h
    obtain rfl := Except.ok.inj h
    exact ⟨hmapping, checkKeys_eq_ok_iff.mp hkeys, hopening, hclosing⟩
  · rintro ⟨hmapping, h⟩
    refine ⟨_, entriesOf_eq_ok_iff.mpr ⟨hmapping, rfl⟩, ?_⟩
    refine bind_eq_ok_iff.mpr ⟨(), checkKeys_eq_ok_iff.mpr h.keys, ?_⟩
    refine bind_eq_ok_iff.mpr ⟨_, h.opening, ?_⟩
    exact bind_eq_ok_iff.mpr ⟨_, h.closing, rfl⟩

/-! ## §4. Documents. -/

/-- What settings are read from. -/
structure Reads (shares : Shares) (entries : List (Data × Data)) (settings : Settings) : Prop where
  keys : OnlyKeys knownKeys entries
  shape : IsMapping shares (fieldOf "modules" entries)
  mode : modeOf shares (fieldOf "enabled" entries) = .ok settings.mode
  language : languageOf shares (fieldOf "language" entries) = .ok settings.language
  markers : markersOf shares (fieldOf "delimiters" entries) = .ok (settings.opening?, settings.closing?)
  expressionAttributes :
    textsOf shares "expression_attributes" (fieldOf "expression_attributes" entries)
      = .ok settings.expressionAttributes
  exclude : textsOf shares "exclude" (fieldOf "exclude" entries) = .ok settings.exclude
  modules : modulesOf shares (entriesIn shares (fieldOf "modules" entries)) = .ok settings.modules

/-- **Settings are read from the fields of a mapping.** -/
theorem ofData_eq_ok_iff {data : Data} {settings : Settings} :
    ofData shares data = .ok settings
      ↔ IsMapping shares data ∧ Reads shares (entriesIn shares data) settings := by
  unfold ofData
  rw [bind_eq_ok_iff]
  constructor
  · rintro ⟨entries, hentries, h⟩
    obtain ⟨hmapping, rfl⟩ := entriesOf_eq_ok_iff.mp hentries
    obtain ⟨_, hkeys, h⟩ := bind_eq_ok_iff.mp h
    obtain ⟨modules, hmodules, h⟩ := bind_eq_ok_iff.mp h
    obtain ⟨hshape, rfl⟩ := entriesOf_eq_ok_iff.mp hmodules
    obtain ⟨mode, hmode, h⟩ := bind_eq_ok_iff.mp h
    obtain ⟨language, hlanguage, h⟩ := bind_eq_ok_iff.mp h
    obtain ⟨⟨opening?, closing?⟩, hmarkers, h⟩ := bind_eq_ok_iff.mp h
    obtain ⟨attributes, hattributes, h⟩ := bind_eq_ok_iff.mp h
    obtain ⟨exclude, hexclude, h⟩ := bind_eq_ok_iff.mp h
    obtain ⟨modules, hmodules, h⟩ := bind_eq_ok_iff.mp h
    obtain rfl := Except.ok.inj h
    exact ⟨hmapping, checkKeys_eq_ok_iff.mp hkeys, hshape, hmode, hlanguage, hmarkers, hattributes,
      hexclude, hmodules⟩
  · rintro ⟨hmapping, h⟩
    refine ⟨_, entriesOf_eq_ok_iff.mpr ⟨hmapping, rfl⟩, ?_⟩
    refine bind_eq_ok_iff.mpr ⟨(), checkKeys_eq_ok_iff.mpr h.keys, ?_⟩
    refine bind_eq_ok_iff.mpr ⟨_, entriesOf_eq_ok_iff.mpr ⟨h.shape, rfl⟩, ?_⟩
    refine bind_eq_ok_iff.mpr ⟨_, h.mode, ?_⟩
    refine bind_eq_ok_iff.mpr ⟨_, h.language, ?_⟩
    refine bind_eq_ok_iff.mpr ⟨_, h.markers, ?_⟩
    refine bind_eq_ok_iff.mpr ⟨_, h.expressionAttributes, ?_⟩
    refine bind_eq_ok_iff.mpr ⟨_, h.exclude, ?_⟩
    exact bind_eq_ok_iff.mpr ⟨_, h.modules, rfl⟩

end EmbeddedExpr.Settings
