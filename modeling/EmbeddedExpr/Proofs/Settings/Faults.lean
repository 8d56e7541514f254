/-
  EmbeddedExpr.Proofs.Settings.Faults
  ───────────────────────────────────
  **WHICH SETTINGS HAVE FAULTS THAT CAN BE TOLD.**

  A fault in settings is told in words but for two: an unknown key that is no text, which no list
  of unknown keys can name, and a whole number that is too long to be written.  Data without
  either (`Tellable`) give settings or a fault in words:

      Tellable shares data  →  ofData shares data = .error fault  →  fault.IsTold

  Each part of the reader is shown to have words for its faults (`Speaks`), in the order in which
  the parts are read; only the fault of a document that is no mapping is told by the file.
-/
import EmbeddedExpr.Settings.File
import EmbeddedExpr.Proofs.Data.Print

namespace EmbeddedExpr.Settings

open Data (Shares)

/-! ## §1. Faults that can be told. -/

/-- The fault has words, with or without the file that it is in. -/
def Fault.IsTold (fault : Fault) : Prop := fault ≠ .unnamedKey ∧ fault ≠ .tooLong

/-- The fault has words of its own, whatever file it is in. -/
def Fault.HasWords (fault : Fault) : Prop := fault.message?.isSome = true

theorem Fault.HasWords.isTold {fault : Fault} (h : fault.HasWords) : fault.IsTold := by
  constructor
  · rintro rfl
    cases h
  · rintro rfl
    cases h

theorem Fault.message?_isSome {fault : Fault} (h : fault.IsTold) (hne : fault ≠ .notMapping) :
    fault.message?.isSome = true := by
  cases fault with
  | unnamedKey => exact absurd rfl h.1
  | tooLong => exact absurd rfl h.2
  | notMapping => exact absurd rfl hne
  | _ => rfl

/-- The answer is there, or the fault can be told. -/
def Tells {α : Type} (answer : Except Fault α) : Prop := ∀ fault, answer = .error fault → fault.IsTold

/-- The answer is there, or the fault has words of its own. -/
def Speaks {α : Type} (answer : Except Fault α) : Prop :=
  ∀ fault, answer = .error fault → fault.HasWords

variable {α β : Type}

theorem Speaks.tells {answer : Except Fault α} (h : Speaks answer) : Tells answer :=
  fun fault hfault => (h fault hfault).isTold

theorem speaks_ok (a : α) : Speaks (.ok a) := nofun

theorem speaks_error {fault : Fault} (h : fault.HasWords) :
    Speaks (.error fault : Except Fault α) := by
  rintro _ ⟨⟩
  exact h

theorem Speaks.bind {answer : Except Fault α} {next : α → Except Fault β} (h : Speaks answer)
    (hnext : ∀ a, answer = .ok a → Speaks (next a)) : Speaks (answer >>= next) := by
  cases answer with
  | error fault => exact speaks_error (h fault rfl)
  | ok a => exact hnext a rfl

theorem Speaks.map {answer : Except Fault α} (f : α → β) (h : Speaks answer) :
    Speaks (answer.map f) := by
  cases answer with
  | error fault => exact speaks_error (h fault rfl)
  | ok a => exact speaks_ok (f a)

theorem speaks_mapM {f : α → Except Fault β} {items : List α} (h : ∀ a ∈ items, Speaks (f a)) :
    Speaks (items.mapM f) := by
  induction items with
  | nil => exact speaks_ok []
  | cons a more ih =>
    rw [List.mapM_cons]
    refine (h a List.mem_cons_self).bind fun b _ => ?_
    exact (ih fun c hc => h c (List.mem_cons_of_mem _ hc)).bind fun bs _ => speaks_ok (b :: bs)

theorem speaks_foldlM {f : β → α → Except Fault β} {items : List α}
    (h : ∀ a ∈ items, ∀ b, Speaks (f b a)) : ∀ b, Speaks (items.foldlM f b) := by
  induction items with
  | nil => exact speaks_ok
  | cons a more ih =>
    intro b
    rw [List.foldlM_cons]
    refine (h a List.mem_cons_self b).bind fun c _ => ?_
    exact ih (fun d hd => h d (List.mem_cons_of_mem _ hd)) c

/-! ## §2. Keys. -/

/-- The keys that are not known are texts. -/
def UnknownAreTexts (known : List String) (entries : List (Data × Data)) : Prop :=
  ∀ e ∈ entries, isKnown known e.1 = false → (textKey? e.1).isSome = true

instance (known : List String) (entries : List (Data × Data)) :
    Decidable (UnknownAreTexts known entries) := by
  unfold UnknownAreTexts
  infer_instance

theorem isSome_mapM_iff {f : α → Option β} (items : List α) :
    (items.mapM f).isSome = true ↔ ∀ a ∈ items, (f a).isSome = true := by
  induction items with
  | nil => simp
  | cons a more ih =>
    rw [List.mapM_cons, List.forall_mem_cons, ← ih]
    cases f a <;> cases more.mapM f <;> simp

/-- **A check of keys tells its fault exactly when every unknown key is a text**, and it does so
in words of its own. -/
theorem speaks_checkKeys_iff (context : String) {known : List String} {entries : List (Data × Data)} :
    Speaks (checkKeys context known entries) ↔ UnknownAreTexts known entries := by
  have htexts : UnknownAreTexts known entries
      ↔ (((entries.map (·.1)).filter fun key => !isKnown known key).mapM textKey?).isSome = true := by
    rw [isSome_mapM_iff]
    unfold UnknownAreTexts
    simp only [List.mem_filter, List.mem_map, Bool.not_eq_true']
    constructor
    · rintro h key ⟨⟨e, he, rfl⟩, hunknown⟩
      exact h e he hunknown
    · intro h e he hunknown
      exact h e.1 ⟨⟨e, he, rfl⟩, hunknown⟩
  rw [htexts]
  unfold checkKeys
  -- with no unknown key there is no fault; otherwise it names the keys if all of them are texts
  cases hunknown : (entries.map (·.1)).filter fun key => !isKnown known key with
  | nil => exact ⟨fun _ => rfl, fun _ => speaks_ok ()⟩
  | cons key more =>
    dsimp only
    cases (key :: more).mapM textKey? with
    | none => exact ⟨fun h => absurd (h _ rfl) nofun, nofun⟩
    | some names => exact ⟨fun _ => rfl, fun _ => speaks_error rfl⟩

/-- A check of keys that does not tell its fault has met an unknown key that is no text. -/
theorem checkKeys_eq_unnamedKey {context : String} {known : List String}
    {entries : List (Data × Data)} (h : ¬ UnknownAreTexts known entries) :
    checkKeys context known entries = .error .unnamedKey := by
  refine Classical.byContradiction fun hne => h ?_
  refine (speaks_checkKeys_iff context).mp fun fault hfault => ?_
  cases fault with
  | unknownKeys context keys => rfl
  | unnamedKey => exact absurd hfault hne
  | _ =>
    unfold checkKeys at hfault
    split at hfault
    · cases hfault
    · split at hfault <;> cases hfault

/-! ## §3. Parts. -/

variable {shares : Shares} {value : Data}

/-- The entries of a value that is a mapping, and none otherwise. -/
def entriesIn (shares : Shares) (value : Data) : List (Data × Data) :=
  ((value.view shares).entries?).getD []

theorem exists_textOf (hshares : shares.AreWritable) (h : value.isWritable = true) :
    ∃ text, textOf shares value = .ok text := by
  obtain ⟨text, htext⟩ := Option.isSome_iff_exists.mp (Data.display?_isSome hshares h)
  exact ⟨text, by rw [textOf, htext]⟩

theorem speaks_textOf (hshares : shares.AreWritable) (h : value.isWritable = true) :
    Speaks (textOf shares value) := by
  obtain ⟨text, htext⟩ := exists_textOf hshares h
  rw [htext]
  exact speaks_ok text

theorem isWritable_fieldOf {name : String} {entries : List (Data × Data)}
    (h : Data.areEntriesWritable entries = true) : (fieldOf name entries).isWritable = true := by
  unfold fieldOf
  cases hfield : Data.field? name entries with
  | none => rfl
  | some value => exact Data.isWritable_of_field? h hfield

theorem areEntriesWritable_entriesIn (hshares : shares.AreWritable) (h : value.isWritable = true) :
    Data.areEntriesWritable (entriesIn shares value) = true := by
  unfold entriesIn
  cases hentries : (value.view shares).entries? with
  | none => rfl
  | some entries => exact Data.areEntriesWritable_of_entries? (Data.isWritable_view hshares h) hentries

theorem entriesOf_eq_ok {fault : Fault} {entries : List (Data × Data)}
    (h : entriesOf shares fault value = .ok entries) : entries = entriesIn shares value := by
  unfold entriesOf at h
  unfold entriesIn
  dsimp only at h
  split at h
  · next hfalsy =>
    obtain rfl := Except.ok.inj h
    cases hview : value.view shares <;> rw [hview] at hfalsy <;>
      simp_all [Data.entries?, Data.isFalsy]
  · split at h
    · next hentries => rw [hentries, ← Except.ok.inj h]; rfl
    · cases h

theorem entriesOf_eq_error {fault fault' : Fault} (h : entriesOf shares fault value = .error fault') :
    fault' = fault := by
  unfold entriesOf at h
  dsimp only at h
  split at h
  · cases h
  · split at h
    · cases h
    · exact (Except.error.inj h).symm

/-- A mapping with entries gives them. -/
theorem entriesOf_of_entriesIn {fault : Fault} (h : entriesIn shares value ≠ []) :
    entriesOf shares fault value = .ok (entriesIn shares value) := by
  unfold entriesIn at h ⊢
  unfold entriesOf
  dsimp only
  cases hview : value.view shares <;> rw [hview] at h <;>
    simp_all [Data.entries?, Data.isFalsy]

theorem speaks_entriesOf (fault : Fault) (h : fault.HasWords) :
    Speaks (entriesOf shares fault value) := by
  unfold entriesOf
  dsimp only
  split
  · exact speaks_ok []
  · split
    · exact speaks_ok _
    · exact speaks_error h

theorem speaks_textOrNone (hshares : shares.AreWritable) (h : value.isWritable = true) :
    Speaks (textOrNone shares value) := by
  unfold textOrNone
  split
  · exact speaks_ok none
  · exact (speaks_textOf hshares h).map some

theorem speaks_modeOf (hshares : shares.AreWritable) (h : value.isWritable = true) :
    Speaks (modeOf shares value) := by
  unfold modeOf
  split
  · exact speaks_ok _
  · exact speaks_ok _
  · refine (speaks_textOf hshares h).bind fun text _ => ?_
    obtain ⟨told, htold⟩ := Option.isSome_iff_exists.mp (Data.quoted?_isSome hshares h)
    rw [htold]
    dsimp only
    split
    · exact speaks_ok _
    · exact speaks_error rfl
    · next heq => cases heq

theorem speaks_languageOf (hshares : shares.AreWritable) (h : value.isWritable = true) :
    Speaks (languageOf shares value) := by
  unfold languageOf
  split
  · exact speaks_ok _
  · exact speaks_textOf hshares h

theorem speaks_textsOf {field : String} (hshares : shares.AreWritable) (h : value.isWritable = true) :
    Speaks (textsOf shares field value) := by
  have hview := Data.isWritable_view hshares h
  unfold textsOf
  split
  · exact speaks_ok _
  · exact speaks_ok _
  · next items heq =>
    rw [heq] at hview
    exact speaks_mapM fun item hitem => speaks_textOf hshares (Data.isWritable_of_mem hview hitem)
  · exact speaks_error rfl

theorem speaks_markersOf (hshares : shares.AreWritable) (h : value.isWritable = true)
    (hkeys : UnknownAreTexts ["start", "end"] (entriesIn shares value)) :
    Speaks (markersOf shares value) := by
  unfold markersOf
  refine (speaks_entriesOf .delimitersShape rfl).bind fun entries hentries => ?_
  obtain rfl := entriesOf_eq_ok hentries
  have hwritable := areEntriesWritable_entriesIn hshares h
  refine ((speaks_checkKeys_iff _).mpr hkeys).bind fun _ _ => ?_
  refine (speaks_textOrNone hshares (isWritable_fieldOf hwritable)).bind fun opening? _ => ?_
  exact (speaks_textOrNone hshares (isWritable_fieldOf hwritable)).bind fun closing? _ => speaks_ok _

theorem speaks_optionsOf (hshares : shares.AreWritable) {entries : List (Data × Data)}
    (h : Data.areEntriesWritable entries = true) : Speaks (optionsOf shares entries) := by
  refine speaks_foldlM (fun e he options => ?_) []
  obtain ⟨hname, hvalue⟩ := Data.isWritable_of_mem_entries h he
  split
  · exact speaks_ok options
  · refine (speaks_textOf hshares hname).bind fun name _ => ?_
    exact (speaks_textOf hshares hvalue).bind fun value _ => speaks_ok _

theorem speaks_moduleOf {name : String} (hshares : shares.AreWritable) (h : value.isWritable = true)
    (hkeys : UnknownAreTexts ["root", "options"] (entriesIn shares value)) :
    Speaks (moduleOf shares name value) := by
  unfold moduleOf
  refine (speaks_entriesOf (.moduleShape name) rfl).bind fun entries hentries => ?_
  obtain rfl := entriesOf_eq_ok hentries
  have hwritable := areEntriesWritable_entriesIn hshares h
  refine ((speaks_checkKeys_iff _).mpr hkeys).bind fun _ _ => ?_
  refine (speaks_entriesOf (.optionsShape name) rfl).bind fun options heq => ?_
  obtain rfl := entriesOf_eq_ok heq
  have hoptions : ∀ root : String, Speaks (optionsOf shares (entriesIn shares
      (fieldOf "options" (entriesIn shares value))) >>= fun options =>
        pure (⟨name, root, options⟩ : ModuleSettings)) := by
    intro root
    refine (speaks_optionsOf hshares ?_).bind fun _ _ => speaks_ok _
    exact areEntriesWritable_entriesIn hshares (isWritable_fieldOf hwritable)
  dsimp only
  split
  · next root heq =>
    exact (speaks_textOf hshares (Data.isWritable_of_field? hwritable heq)).bind
      fun root _ => hoptions root
  · exact hoptions name

theorem speaks_modulesOf (hshares : shares.AreWritable) {entries : List (Data × Data)}
    (h : Data.areEntriesWritable entries = true)
    (hkeys : ∀ e ∈ entries, UnknownAreTexts ["root", "options"] (entriesIn shares e.2)) :
    Speaks (modulesOf shares entries) := by
  unfold modulesOf
  refine Speaks.bind (speaks_mapM fun e he => ?_) fun modules _ => speaks_ok _
  obtain ⟨hname, hvalue⟩ := Data.isWritable_of_mem_entries h he
  exact (speaks_textOf hshares hname).bind fun name _ => speaks_moduleOf hshares hvalue (hkeys e he)

/-! ## §4. Documents. -/

/-- Every whole number in the data can be written, and in the mappings whose keys are checked the
unknown keys are texts. -/
structure Tellable (shares : Shares) (data : Data) : Prop where
  places : shares.AreWritable
  numbers : data.isWritable = true
  keys : UnknownAreTexts knownKeys (entriesIn shares data)
  markers : UnknownAreTexts ["start", "end"]
    (entriesIn shares (fieldOf "delimiters" (entriesIn shares data)))
  modules : ∀ e ∈ entriesIn shares (fieldOf "modules" (entriesIn shares data)),
    UnknownAreTexts ["root", "options"] (entriesIn shares e.2)

theorem tellable_iff {data : Data} : Tellable shares data ↔ (∀ s ∈ shares, s.2.isWritable = true)
    ∧ data.isWritable = true ∧ UnknownAreTexts knownKeys (entriesIn shares data)
    ∧ UnknownAreTexts ["start", "end"]
      (entriesIn shares (fieldOf "delimiters" (entriesIn shares data)))
    ∧ ∀ e ∈ entriesIn shares (fieldOf "modules" (entriesIn shares data)),
      UnknownAreTexts ["root", "options"] (entriesIn shares e.2) :=
  ⟨fun ⟨places, numbers, keys, markers, modules⟩ => ⟨places, numbers, keys, markers, modules⟩,
    fun ⟨places, numbers, keys, markers, modules⟩ => ⟨places, numbers, keys, markers, modules⟩⟩

instance (shares : Shares) (data : Data) : Decidable (Tellable shares data) :=
  decidable_of_iff' _ tellable_iff

/-- **A mapping gives settings, or a fault with words of its own.** -/
theorem speaks_ofData {data : Data} {entries : List (Data × Data)} (h : Tellable shares data)
    (hentries : entriesOf shares .notMapping data = .ok entries) : Speaks (ofData shares data) := by
  unfold ofData
  -- in the order of reading: the first part that fails gives the fault
  rw [hentries]
  obtain rfl := entriesOf_eq_ok hentries
  refine (speaks_ok _).bind fun entries heq => ?_
  obtain rfl := Except.ok.inj heq
  have hwritable := areEntriesWritable_entriesIn h.places h.numbers
  have hfield : ∀ name, (fieldOf name (entriesIn shares data)).isWritable = true :=
    fun name => isWritable_fieldOf hwritable
  refine ((speaks_checkKeys_iff _).mpr h.keys).bind fun _ _ => ?_
  refine (speaks_entriesOf .modulesShape rfl).bind fun modules hmodules => ?_
  obtain rfl := entriesOf_eq_ok hmodules
  refine (speaks_modeOf h.places (hfield _)).bind fun mode _ => ?_
  refine (speaks_languageOf h.places (hfield _)).bind fun language _ => ?_
  refine (speaks_markersOf h.places (hfield _) h.markers).bind fun markers _ => ?_
  refine (speaks_textsOf h.places (hfield _)).bind fun expressionAttributes _ => ?_
  refine (speaks_textsOf h.places (hfield _)).bind fun exclude _ => ?_
  refine (speaks_modulesOf h.places ?_ h.modules).bind fun modules _ => speaks_ok _
  exact areEntriesWritable_entriesIn h.places (hfield _)

/-- **Data give settings, or a fault that can be told.** -/
theorem tells_ofData {data : Data} (h : Tellable shares data) : Tells (ofData shares data) := by
  cases hentries : entriesOf shares .notMapping data with
  | ok entries => exact (speaks_ofData h hentries).tells
  | error fault =>
    intro fault' hfault
    unfold ofData at hfault
    rw [hentries] at hfault
    obtain rfl := Except.error.inj hfault
    rw [entriesOf_eq_error hentries]
    exact ⟨nofun, nofun⟩

/-- **Data with an unknown key that is no text have a fault that cannot be told**, whatever else is
in them. -/
theorem ofData_eq_unnamedKey {data : Data} (h : ¬ UnknownAreTexts knownKeys (entriesIn shares data)) :
    ofData shares data = .error .unnamedKey := by
  have hne : entriesIn shares data ≠ [] := by
    intro hnil
    rw [hnil] at h
    exact h fun e he => nomatch he
  unfold ofData
  rw [entriesOf_of_entriesIn hne]
  show (checkKeys "settings" knownKeys (entriesIn shares data) >>= _) = _
  rw [checkKeys_eq_unnamedKey h]
  rfl

/-! ## §5. Files. -/

/-- The text is no well-formed document, or one whose data can be told.  A document with a value
that does not exist cannot: a date without such a day, or half of a surrogate pair. -/
def TellableText (s : List Char) : Prop :=
  match Yaml.load s with
  | .error fault => fault = .malformed
  | .ok (data, shares) => Tellable shares data

instance (s : List Char) : Decidable (TellableText s) := by
  unfold TellableText
  split <;> infer_instance

/-- The text is a document with an unknown key that is no text. -/
def HasUnnamedKey (s : List Char) : Prop :=
  match Yaml.load s with
  | .error _ => False
  | .ok (data, shares) => ¬ UnknownAreTexts knownKeys (entriesIn shares data)

instance (s : List Char) : Decidable (HasUnnamedKey s) := by
  unfold HasUnnamedKey
  split <;> infer_instance

/-- The octets are a text that can be told. -/
def TellableOctets (octets : List UInt8) : Prop :=
  match Text.Utf8.decode? octets with
  | some s => TellableText (Text.unifyBreaks s)
  | none => False

instance (octets : List UInt8) : Decidable (TellableOctets octets) := by
  unfold TellableOctets
  split <;> infer_instance

/-- The settings file of the project can be found, and told if it is there. -/
def TellableFile (tree : Entry) (path : List String) : Prop :=
  ∃ file, Config.settingsFile tree path = .ok file ∧ ∀ l octets modified,
    Tree.access tree file = .ok (l, .file octets modified) → TellableOctets octets

theorem ofText_message? {file : Location} {s : List Char} {fault : LoadFault}
    (h : TellableText s) (hfault : ofText file s = .error fault) : fault.message?.isSome = true := by
  unfold TellableText at h
  unfold ofText at hfault
  cases hload : Yaml.load s with
  | error yaml =>
    rw [hload] at h hfault
    obtain rfl := Except.error.inj hfault
    obtain rfl : yaml = .malformed := h
    rfl
  | ok loaded =>
    obtain ⟨data, shares⟩ := loaded
    rw [hload] at h hfault
    dsimp only at h hfault
    have htells := tells_ofData h
    cases hdata : ofData shares data with
    | ok settings =>
      rw [hdata] at hfault
      cases hfault
    | error fault' =>
      have htold := htells fault' hdata
      rw [hdata] at hfault
      by_cases hmapping : fault' = .notMapping
      · subst hmapping
        obtain rfl := Except.error.inj hfault
        rfl
      · have hsettings : LoadFault.settings file fault' = fault := by
          cases fault' <;> first | exact Except.error.inj hfault | exact absurd rfl hmapping
        rw [← hsettings]
        show (fault'.message?.map _).isSome = true
        rw [Option.isSome_map]
        exact Fault.message?_isSome htold hmapping

-- A module whose root has half of a surrogate pair in its name.
example : ¬ TellableText "modules:\n  app:\n    root: \"\\uD800\"\n".toList := by decide +kernel

theorem ofText_of_hasUnnamedKey {s : List Char} (h : HasUnnamedKey s) (file : Location) :
    ofText file s = .error (.settings file .unnamedKey) := by
  unfold HasUnnamedKey at h
  unfold ofText
  cases hload : Yaml.load s with
  | error fault =>
    rw [hload] at h
    exact h.elim
  | ok loaded =>
    rw [hload] at h
    dsimp only at h ⊢
    rw [ofData_eq_unnamedKey h]

/-- **Settings that cannot be had are refused in words** when their file can be told. -/
theorem load_message? {tree : Entry} {path : List String} {fault : LoadFault}
    (h : TellableFile tree path) (hfault : load tree path = .error fault) :
    fault.message?.isSome = true := by
  obtain ⟨file, hfile, htold⟩ := h
  unfold load at hfault
  rw [hfile] at hfault
  dsimp only at hfault
  split at hfault
  · next l octets modified heq =>
    have hoctets := htold l octets modified heq
    unfold TellableOctets at hoctets
    cases htext : Text.Utf8.decode? octets with
    | none =>
      rw [htext] at hoctets
      exact hoctets.elim
    | some s =>
      rw [htext] at hoctets hfault
      exact ofText_message? hoctets hfault
  · cases hfault

end EmbeddedExpr.Settings
