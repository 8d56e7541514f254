/-
  EmbeddedExpr.Proofs.Settings.Grammar
  ────────────────────────────────────
  **WHICH MAPPINGS ARE SETTINGS.**

  The grammar of settings says of every field which values it may have (`Grammar`): what is a
  mapping there may also be left out, by any value that counts as nothing, but what gives texts
  may only be left out by null.  If every number in a mapping can be written, then the reader
  accepts it exactly when the grammar does, and has words for what is wrong with it otherwise:

      (∃ settings, ofData shares data = .ok settings)  ↔  entries = [] ∨ Grammar shares entries

  Without the condition a mapping that is read is still one of the grammar (`Reads.grammar`), but
  there are no words for a number that is too long to be written (`not_forall_judged`).  Lists and
  mappings have a text here however deep they are nested; no limit of a machine is part of that.
-/
import EmbeddedExpr.Proofs.Settings.Reading

namespace EmbeddedExpr.Settings

open Data (Shares)

/-! ## §1. The grammar. -/

/-- The value counts as nothing, or is a mapping with known keys only. -/
structure IsMappingOf (shares : Shares) (known : List String) (value : Data) : Prop where
  shape : IsMapping shares value
  keys : OnlyKeys known (entriesIn shares value)

/-- The value describes a module. -/
structure IsModule (shares : Shares) (value : Data) : Prop
    extends IsMappingOf shares ["root", "options"] value where
  options : IsMapping shares (fieldOf "options" (entriesIn shares value))

/-- The value names a mode: null and the truth values do, and what has the text of a mode's word in
any case, with white space around it or without. -/
def NamesMode (shares : Shares) (value : Data) : Prop :=
  value = .null ∨ (∃ b, value = .bool b)
    ∨ ∃ text, value.display? shares = some text
      ∧ String.ofList (Text.lower (Text.trim text.toList)) ∈ ["auto", "true", "false"]

/-- The value gives texts: it is null, a text or a list. -/
def GivesTexts (shares : Shares) (value : Data) : Prop :=
  value.view shares = .null ∨ (∃ s, value.view shares = .str s)
    ∨ ∃ items, value.view shares = .list items

/-- The entries of a settings document. -/
structure Grammar (shares : Shares) (entries : List (Data × Data)) : Prop where
  keys : OnlyKeys knownKeys entries
  shape : IsMapping shares (fieldOf "modules" entries)
  modules : ∀ e ∈ entriesIn shares (fieldOf "modules" entries), IsModule shares e.2
  enabled : NamesMode shares (fieldOf "enabled" entries)
  delimiters : IsMappingOf shares ["start", "end"] (fieldOf "delimiters" entries)
  expressionAttributes : GivesTexts shares (fieldOf "expression_attributes" entries)
  exclude : GivesTexts shares (fieldOf "exclude" entries)

variable {shares : Shares} {value : Data} {entries : List (Data × Data)}

/-! ## §2. What is read is in the grammar. -/

/-- **A mode is read from what names one, and from nothing else.** -/
theorem exists_modeOf_iff : (∃ mode, modeOf shares value = .ok mode) ↔ NamesMode shares value := by
  have hwords : ∀ word,
      (∃ mode, [Mode.auto, .on, .off].find? (fun mode => mode.word = word) = some mode)
        ↔ word ∈ ["auto", "true", "false"] := by
    intro word
    rw [← Option.isSome_iff_exists, List.find?_isSome]
    simp [Mode.word, eq_comm]
  have htext : ∀ text, textOf shares value = .ok text ↔ value.display? shares = some text := by
    intro text
    unfold textOf
    cases value.display? shares <;> simp
  unfold NamesMode
  unfold modeOf
  split
  · exact ⟨fun _ => Or.inl rfl, fun _ => ⟨_, rfl⟩⟩
  · next b => exact ⟨fun _ => Or.inr (Or.inl ⟨b, rfl⟩), fun _ => ⟨_, rfl⟩⟩
  · next hnull hbool =>
    rw [or_iff_right hnull, or_iff_right fun ⟨b, hb⟩ => hbool b hb]
    simp only [bind_eq_ok_iff, ← hwords, ← htext]
    constructor
    · rintro ⟨mode, text, htext, h⟩
      split at h
      · next _ _ found hfound => exact ⟨text, htext, found, hfound⟩
      · cases h
      · cases h
    · rintro ⟨text, htext, mode, hmode⟩
      refine ⟨mode, text, htext, ?_⟩
      rw [hmode]
      rfl

theorem givesTexts_of_textsOf {field : String} {texts : List String}
    (h : textsOf shares field value = .ok texts) : GivesTexts shares value := by
  unfold textsOf at h
  split at h
  · next heq => exact Or.inl heq
  · next s heq => exact Or.inr (Or.inl ⟨s, heq⟩)
  · next items heq => exact Or.inr (Or.inr ⟨items, heq⟩)
  · cases h

theorem isMappingOf_of_markersOf {markers : Option String × Option String}
    (h : markersOf shares value = .ok markers) : IsMappingOf shares ["start", "end"] value := by
  obtain ⟨hshape, hreads⟩ := markersOf_eq_ok_iff.mp h
  exact ⟨hshape, hreads.keys⟩

theorem isModule_of_moduleOf {name : String} {m : ModuleSettings}
    (h : moduleOf shares name value = .ok m) : IsModule shares value := by
  obtain ⟨hshape, hreads⟩ := moduleOf_eq_ok_iff.mp h
  exact ⟨⟨hshape, hreads.keys⟩, hreads.shape⟩

/-- **Settings are read from entries of the grammar.** -/
theorem Reads.grammar {settings : Settings} (h : Reads shares entries settings) :
    Grammar shares entries := by
  constructor
  case keys => exact h.keys
  case shape => exact h.shape
  case modules =>
    intro e he
    obtain ⟨read, hread, -⟩ := modulesOf_eq_ok_iff.mp h.modules
    obtain ⟨m, name, -, hm⟩ := exists_readsModules_iff.mp ⟨read, hread⟩ e he
    exact isModule_of_moduleOf hm
  case enabled => exact exists_modeOf_iff.mp ⟨_, h.mode⟩
  case delimiters => exact isMappingOf_of_markersOf h.markers
  case expressionAttributes => exact givesTexts_of_textsOf h.expressionAttributes
  case exclude => exact givesTexts_of_textsOf h.exclude

/-! ## §3. What is in the grammar is read. -/

theorem exists_textOrNone (hshares : shares.AreWritable) (h : value.isWritable = true) :
    ∃ text, textOrNone shares value = .ok text := by
  unfold textOrNone
  split
  · exact ⟨none, rfl⟩
  · obtain ⟨text, htext⟩ := exists_textOf hshares h
    exact ⟨some text, by rw [htext]; rfl⟩

theorem exists_languageOf (hshares : shares.AreWritable) (h : value.isWritable = true) :
    ∃ language, languageOf shares value = .ok language := by
  unfold languageOf
  split
  · exact ⟨_, rfl⟩
  · exact exists_textOf hshares h

theorem exists_textsOf {field : String} (hshares : shares.AreWritable) (h : value.isWritable = true)
    (hgives : GivesTexts shares value) : ∃ texts, textsOf shares field value = .ok texts := by
  have hview := Data.isWritable_view hshares h
  unfold textsOf
  rcases hgives with heq | ⟨s, heq⟩ | ⟨items, heq⟩
  · rw [heq]
    exact ⟨[], rfl⟩
  · rw [heq]
    exact ⟨[s], rfl⟩
  · rw [heq] at hview ⊢
    exact (exists_mapM_iff items).mpr fun item hitem =>
      exists_textOf hshares (Data.isWritable_of_mem hview hitem)

theorem exists_markersOf (hshares : shares.AreWritable) (h : value.isWritable = true)
    (hmapping : IsMappingOf shares ["start", "end"] value) :
    ∃ markers, markersOf shares value = .ok markers := by
  have hwritable := areEntriesWritable_entriesIn hshares h
  obtain ⟨opening, hopening⟩ := exists_textOrNone hshares (isWritable_fieldOf hwritable)
  obtain ⟨closing, hclosing⟩ := exists_textOrNone hshares (isWritable_fieldOf hwritable)
  exact ⟨(opening, closing),
    markersOf_eq_ok_iff.mpr ⟨hmapping.shape, hmapping.keys, hopening, hclosing⟩⟩

theorem exists_optionsOf (hshares : shares.AreWritable) (h : Data.areEntriesWritable entries = true) :
    ∃ options, optionsOf shares entries = .ok options := by
  refine exists_foldlM (fun e he options => ?_) []
  obtain ⟨hname, hvalue⟩ := Data.isWritable_of_mem_entries h he
  split
  · exact ⟨options, rfl⟩
  · obtain ⟨name, hname⟩ := exists_textOf hshares hname
    obtain ⟨text, htext⟩ := exists_textOf hshares hvalue
    exact ⟨_, bind_eq_ok_iff.mpr ⟨name, hname, bind_eq_ok_iff.mpr ⟨text, htext, rfl⟩⟩⟩

theorem exists_moduleOf (hshares : shares.AreWritable) (h : value.isWritable = true)
    (hmodule : IsModule shares value) (name : String) : ∃ m, moduleOf shares name value = .ok m := by
  have hwritable := areEntriesWritable_entriesIn hshares h
  have hroot : ∃ root, rootOf shares name (entriesIn shares value) = .ok root := by
    unfold rootOf
    split
    · next root heq => exact exists_textOf hshares (Data.isWritable_of_field? hwritable heq)
    · exact ⟨name, rfl⟩
  obtain ⟨root, hroot⟩ := hroot
  have hfield : (fieldOf "options" (entriesIn shares value)).isWritable = true :=
    isWritable_fieldOf hwritable
  obtain ⟨options, hoptions⟩ := exists_optionsOf hshares (areEntriesWritable_entriesIn hshares hfield)
  refine ⟨⟨name, root, options⟩, moduleOf_eq_ok_iff.mpr ⟨hmodule.shape, ?_⟩⟩
  exact ⟨hmodule.keys, hmodule.options, rfl, hroot, hoptions⟩

theorem exists_modulesOf (hshares : shares.AreWritable) (h : Data.areEntriesWritable entries = true)
    (hmodules : ∀ e ∈ entries, IsModule shares e.2) :
    ∃ modules, modulesOf shares entries = .ok modules := by
  have hread : ∃ read, ReadsModules shares entries read := by
    refine exists_readsModules_iff.mpr fun e he => ?_
    obtain ⟨hname, hvalue⟩ := Data.isWritable_of_mem_entries h he
    obtain ⟨name, hname⟩ := exists_textOf hshares hname
    obtain ⟨m, hm⟩ := exists_moduleOf hshares hvalue (hmodules e he) name
    exact ⟨m, name, hname, hm⟩
  obtain ⟨read, hread⟩ := hread
  exact ⟨_, modulesOf_eq_ok_iff.mpr ⟨read, hread, rfl⟩⟩

/-- **Entries of the grammar are read as settings**, if every number in them can be written. -/
theorem Grammar.exists_reads (h : Grammar shares entries) (hshares : shares.AreWritable)
    (hwritable : Data.areEntriesWritable entries = true) :
    ∃ settings, Reads shares entries settings := by
  have hfield : ∀ name, (fieldOf name entries).isWritable = true :=
    fun name => isWritable_fieldOf hwritable
  obtain ⟨mode, hmode⟩ := exists_modeOf_iff.mpr h.enabled
  obtain ⟨language, hlanguage⟩ := exists_languageOf hshares (hfield "language")
  obtain ⟨markers, hmarkers⟩ := exists_markersOf hshares (hfield "delimiters") h.delimiters
  obtain ⟨attributes, hattributes⟩ := exists_textsOf hshares (hfield _) h.expressionAttributes
  obtain ⟨exclude, hexclude⟩ := exists_textsOf hshares (hfield _) h.exclude
  obtain ⟨modules, hmodules⟩ := exists_modulesOf hshares
    (areEntriesWritable_entriesIn hshares (hfield "modules")) h.modules
  exact ⟨⟨mode, language, markers.1, markers.2, attributes, exclude, modules⟩, h.keys, h.shape, hmode,
    hlanguage, hmarkers, hattributes, hexclude, hmodules⟩

/-! ## §4. What is accepted. -/

/-- In the mappings whose keys are checked, the unknown keys are texts. -/
structure HasTextKeys (shares : Shares) (data : Data) : Prop where
  keys : UnknownAreTexts knownKeys (entriesIn shares data)
  markers : UnknownAreTexts ["start", "end"]
    (entriesIn shares (fieldOf "delimiters" (entriesIn shares data)))
  modules : ∀ e ∈ entriesIn shares (fieldOf "modules" (entriesIn shares data)),
    UnknownAreTexts ["root", "options"] (entriesIn shares e.2)

/-- What becomes of a mapping: it is accepted when it is empty or in the grammar, and otherwise its
fault has words. -/
structure Judged (shares : Shares) (data : Data) (entries : List (Data × Data)) : Prop where
  accepted : (∃ settings, ofData shares data = .ok settings) ↔ entries = [] ∨ Grammar shares entries
  refused : ¬ (entries = [] ∨ Grammar shares entries) →
    ∃ fault message, ofData shares data = .error fault ∧ fault.message? = some message

theorem grammar_nil : Grammar shares [] := by
  have hmapping : ∀ known, IsMappingOf shares known .null := fun known => ⟨Or.inl rfl, nofun⟩
  exact ⟨nofun, Or.inl rfl, nofun, Or.inl rfl, hmapping _, Or.inl rfl, Or.inl rfl⟩

theorem entriesIn_eq {data : Data} (h : (data.view shares).entries? = some entries) :
    entriesIn shares data = entries := by
  unfold entriesIn
  rw [h]
  rfl

/-- **The mappings that are settings are those of the grammar**, if every number in the document can
be written. -/
theorem judged_ofData {data : Data} (hentries : (data.view shares).entries? = some entries)
    (hkeys : HasTextKeys shares data) (hplaces : shares.AreWritable)
    (hnumbers : data.isWritable = true) : Judged shares data entries := by
  have hmapping : IsMapping shares data := Or.inr ⟨entries, hentries⟩
  have hshares := areEntriesWritable_entriesIn hplaces hnumbers
  rw [entriesIn_eq hentries] at hshares
  have haccepted : (∃ settings, ofData shares data = .ok settings)
      ↔ entries = [] ∨ Grammar shares entries := by
    simp only [ofData_eq_ok_iff, and_iff_right hmapping, entriesIn_eq hentries]
    constructor
    · rintro ⟨settings, h⟩
      exact Or.inr h.grammar
    · rintro (rfl | h)
      · exact grammar_nil.exists_reads hplaces hshares
      · exact h.exists_reads hplaces hshares
  refine ⟨haccepted, fun hrefused => ?_⟩
  have htellable : Tellable shares data :=
    ⟨hplaces, hnumbers, hkeys.keys, hkeys.markers, hkeys.modules⟩
  have hspeaks := speaks_ofData htellable (entriesOf_eq_ok_iff.mpr ⟨hmapping, rfl⟩)
  cases hdata : ofData shares data with
  | ok settings => exact absurd (haccepted.mp ⟨settings, hdata⟩) hrefused
  | error fault =>
    obtain ⟨message, hmessage⟩ := Option.isSome_iff_exists.mp (hspeaks fault hdata)
    exact ⟨fault, message, rfl, hmessage⟩

/-- A document with a field of every kind. -/
def mixedEntries : List (Data × Data) := [
  (.str "enabled", .str " TRUE "), (.str "delimiters", .bool false), (.str "exclude", .str "build/"),
  (.str "modules", .map [(.str "app", .null),
    (.str "web", .map [(.str "root", .null), (.str "options", .map [(.str "debug", .bool true)])])])]

theorem judged_ofData_mixed :
    ((Data.map mixedEntries).view []).entries? = some mixedEntries
      ∧ HasTextKeys [] (.map mixedEntries) ∧ Shares.AreWritable []
      ∧ (Data.map mixedEntries).isWritable = true ∧ Judged [] (.map mixedEntries) mixedEntries := by
  have hkeys : HasTextKeys [] (.map mixedEntries) :=
    ⟨by decide +kernel, by decide +kernel, by decide +kernel⟩
  have hplaces : Shares.AreWritable [] := nofun
  have hnumbers : (Data.map mixedEntries).isWritable = true := by decide +kernel
  exact ⟨rfl, hkeys, hplaces, hnumbers, judged_ofData rfl hkeys hplaces hnumbers⟩

/-- The entries of a document that asks for a mode by a number. -/
def numberedEntries (number : Int) : List (Data × Data) := [(.str "enabled", .int number)]

theorem ofData_numberedEntries {number : Int} (h : Data.intText? number = none) :
    ofData [] (.map (numberedEntries number)) = .error .tooLong := by
  have hnone : (Data.int number).display? [] = none := by
    show (Data.intText? number).map String.ofList = none
    rw [h]
    rfl
  have htext : textOf [] (.int number) = .error .tooLong := by
    unfold textOf
    rw [hnone]
  -- the mode is the first that is read of the entry
  show ((textOf [] (.int number) >>= _) >>= _) = _
  rw [htext]
  rfl

theorem hasTextKeys_numberedEntries (number : Int) : HasTextKeys [] (.map (numberedEntries number)) :=
  ⟨fun _ he _ => by rw [List.mem_singleton.mp he]; rfl, nofun, nofun⟩

/-- The least whole number with too many digits to be written. -/
def longNumber : Nat := Nat.pow 10 Text.mostDecimalDigits

theorem intText?_longNumber : Data.intText? longNumber = none := by
  refine Data.intText?_eq_none ?_
  unfold longNumber
  exact Nat.le_refl _

/-- A document with a number that is too long to be written is not accepted, but its fault has no
words. -/
theorem not_forall_judged :
    ¬ ∀ (shares : Shares) (data : Data) (entries : List (Data × Data)),
      (data.view shares).entries? = some entries → HasTextKeys shares data →
        Judged shares data entries := by
  intro h
  have hread := ofData_numberedEntries intText?_longNumber
  have hjudged := h [] (.map (numberedEntries longNumber)) (numberedEntries longNumber) rfl
    (hasTextKeys_numberedEntries longNumber)
  by_cases hgrammar : numberedEntries longNumber = [] ∨ Grammar [] (numberedEntries longNumber)
  · obtain ⟨settings, hsettings⟩ := hjudged.accepted.mpr hgrammar
    rw [hread] at hsettings
    cases hsettings
  · obtain ⟨fault, message, hfault, hmessage⟩ := hjudged.refused hgrammar
    rw [hread] at hfault
    obtain rfl := Except.error.inj hfault
    cases hmessage

end EmbeddedExpr.Settings
