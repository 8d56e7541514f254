/-
  EmbeddedExpr.Proofs.Command.Refusal
  ───────────────────────────────────
  **SETTINGS THAT CANNOT BE USED ARE REFUSED IN WORDS.**

  A project is loaded from its settings file and its ignore file.  It is made exactly when every
  pattern can be read and the directory of every module can be found (`exists_ofSettings_iff`).
  Where the file can be told (`Settings.TellableFile`) and what it says can be used, loading gives
  a project or a fault in words, and every command on that project tells these words
  (`load_reported`).

  The condition on the file does not always hold: a key that is a number makes loading fail
  without words (`not_forall_reported`).
-/
import EmbeddedExpr.Command.Run
import EmbeddedExpr.Proofs.Project.Sources
import EmbeddedExpr.Proofs.Settings.Faults

namespace EmbeddedExpr

/-! ## §1. Making projects. -/

namespace Project

variable {tree : Entry} {path : List String} {root : Location} {settings : Settings}

theorem exists_readAll_iff (lines : List String) :
    (∃ ps, Ignore.readAll lines = .ok ps)
      ↔ ∀ line ∈ lines, ∃ found, Ignore.read line.toList = .ok found := by
  rw [← exists_mapM_iff]
  unfold Ignore.readAll
  cases lines.mapM fun line => Ignore.read line.toList with
  | error fault => exact ⟨fun ⟨_, h⟩ => (nomatch h), fun ⟨_, h⟩ => (nomatch h)⟩
  | ok found => exact ⟨fun _ => ⟨found, rfl⟩, fun _ => ⟨_, rfl⟩⟩

theorem exists_moduleOf_iff (m : ModuleSettings) :
    (∃ made, moduleOf tree root m = .ok made)
      ↔ isPathText m.root = true ∧ ∃ l, Tree.resolve tree (partsFrom root m.root) = .ok l := by
  unfold moduleOf
  split
  · next htext =>
    rw [and_iff_right htext]
    cases Tree.resolve tree (partsFrom root m.root) with
    | error loop => exact ⟨fun ⟨_, h⟩ => (nomatch h), fun ⟨_, h⟩ => (nomatch h)⟩
    | ok l => exact ⟨fun _ => ⟨l, rfl⟩, fun _ => ⟨_, rfl⟩⟩
  · next htext => exact ⟨fun ⟨_, h⟩ => (nomatch h), fun ⟨h, _⟩ => absurd h htext⟩

/-- Every pattern of settings and of the ignore file can be read, and the directory of every module
can be found. -/
structure Usable (tree : Entry) (root : Location) (settings : Settings) : Prop where
  patterns : ∀ line ∈ settings.exclude ++ ignoreLines tree root,
    ∃ found, Ignore.read line.toList = .ok found
  modules : ∀ m ∈ settings.modules, isPathText m.root = true
    ∧ ∃ l, Tree.resolve tree (partsFrom root m.root) = .ok l

/-- **A project is made exactly when its settings can be used.** -/
theorem exists_ofSettings_iff :
    (∃ p, ofSettings tree path settings = .ok p)
      ↔ ∃ root, Tree.resolve tree path = .ok root ∧ Usable tree root settings := by
  constructor
  · rintro ⟨p, hp⟩
    obtain ⟨hroot, -, hpatterns, hmodules⟩ := ofSettings_eq_ok hp
    refine ⟨p.root, hroot, fun line hline => ?_, fun m hm => ?_⟩
    · refine (exists_readAll_iff _).mp ⟨_, hpatterns⟩ line ?_
      rw [List.append_assoc]
      exact List.mem_append_right _ hline
    · exact (exists_moduleOf_iff m).mp ((exists_mapM_iff _).mp ⟨_, hmodules⟩ m hm)
  · rintro ⟨root, hroot, husable⟩
    have hread : ∃ ps, Ignore.readAll (builtInPatterns ++ settings.exclude ++ ignoreLines tree root)
        = .ok ps := by
      refine (exists_readAll_iff _).mpr fun line hline => ?_
      rw [List.append_assoc] at hline
      rcases List.mem_append.mp hline with hline | hline
      · exact (exists_readAll_iff _).mp ⟨_, readAll_builtInPatterns⟩ line hline
      · exact husable.patterns line hline
    obtain ⟨patterns, hpatterns⟩ := hread
    obtain ⟨modules, hmodules⟩ := (exists_mapM_iff _).mpr fun m hm =>
      (exists_moduleOf_iff m).mpr (husable.modules m hm)
    refine ⟨⟨root, settings, patterns, ⟨rootName root, root, []⟩, modules, none⟩, ?_⟩
    unfold ofSettings
    rw [hroot]
    show ((Ignore.readAll (builtInPatterns ++ settings.exclude ++ ignoreLines tree root)).mapError
      Fault.pattern >>= fun patterns => settings.modules.mapM (moduleOf tree root) >>= fun modules =>
        pure _) = _
    rw [hpatterns, hmodules]
    rfl

/-! ## §2. Loading projects. -/

/-- The settings file of a project can be told, and the settings that it gives can be used. -/
structure Reportable (tree : Entry) (path : List String) : Prop where
  file : Settings.TellableFile tree path
  settings : ∀ settings, Settings.load tree path = .ok settings →
    ∃ root, Tree.resolve tree path = .ok root ∧ Usable tree root settings

/-- **A project is loaded, or refused in words.** -/
theorem load_cases (h : Reportable tree path) :
    (∃ p, load tree path = .ok p)
      ∨ ∃ fault words, load tree path = .error fault ∧ fault.message? = some words := by
  unfold load
  cases hload : Settings.load tree path with
  | ok settings => exact Or.inl (exists_ofSettings_iff.mpr (h.settings settings hload))
  | error fault =>
    obtain ⟨words, hwords⟩ := Option.isSome_iff_exists.mp (Settings.load_message? h.file hload)
    exact Or.inr ⟨.settings fault, words, rfl, hwords⟩

end Project

/-! ## §3. Commands. -/

namespace Command

/-- The directory that a request names for its project. -/
def Request.root? : Request → Option String
  | .scan _ _ _ _ root => root
  | .manifest _ root => root
  | .attributes root => root

/-- The project's directory, as seen from the current one. -/
def Request.projectParts (current : Location) (r : Request) : List String :=
  partsAt current ((r.root?.map Path.ofString).getD (Location.path current))

/-- Every command loads its project first. -/
theorem carryOut_of_load_error {tree : Entry} {current : Location} {r : Request}
    {fault : Project.Fault} (hdirectory : Tree.isDirectory tree (r.projectParts current) = true)
    (h : Project.load tree (r.projectParts current) = .error fault) :
    carryOut tree current r = .error (.project fault) := by
  have hproject : projectFor tree current r.root? = .error (.project fault) := by
    show (if Tree.isDirectory tree (r.projectParts current) = true then
      (Project.load tree (r.projectParts current)).mapError Refusal.project else _) = _
    rw [if_pos hdirectory, h]
    rfl
  cases r with
  | scan file opening closing force root =>
    show (projectFor tree current root >>= _) = _
    rw [show projectFor tree current root = _ from hproject]
    rfl
  | manifest file root =>
    show (projectFor tree current root >>= _) = _
    rw [show projectFor tree current root = _ from hproject]
    rfl
  | attributes root =>
    show (projectFor tree current root >>= _) = _
    rw [show projectFor tree current root = _ from hproject]
    rfl

/-- **A project is loaded, or every command on it is refused in the words of the fault.** -/
theorem load_reported {tree : Entry} {path : List String} (h : Project.Reportable tree path) :
    (∃ p, Project.load tree path = .ok p)
      ∨ ∃ fault words, Project.load tree path = .error fault ∧ fault.message? = some words
        ∧ ∀ current args r, request? args = some r → r.projectParts current = path →
          Tree.isDirectory tree path = true →
            run tree current args = .refused (.project fault)
              ∧ (Refusal.project fault).message? = some words := by
  refine (Project.load_cases h).imp_right fun ⟨fault, words, hfault, hwords⟩ => ?_
  refine ⟨fault, words, hfault, hwords, ?_⟩
  rintro current args r hrequest rfl hdirectory
  refine ⟨?_, hwords⟩
  unfold run
  rw [hrequest]
  dsimp only
  rw [carryOut_of_load_error hdirectory hfault]

/-! ## §4. Files that are told, and files that are not. -/

/-- A file system with a project of a settings file and an ignore file. -/
def projectTree (settings ignored : List UInt8) : Entry := .directory [("proj", .directory [
  (".gitignore", .file ignored 0),
  ("xinject-cfg", .directory [("settings.yaml", .file settings 0)])])]

section ProjectTree

variable {settings ignored : List UInt8}

theorem isNamed_projectTree : (projectTree settings ignored).isNamed = true := by
  rfl

theorem settingsFile_projectTree :
    Config.settingsFile (projectTree settings ignored) ["proj"]
      = .ok ["proj", "xinject-cfg", "settings.yaml"] := by
  have hresolve : Tree.resolve (projectTree settings ignored) ["proj", "xinject-cfg"]
      = .ok ["proj", "xinject-cfg"] := Tree.resolve_of_get? isNamed_projectTree rfl nofun
  unfold Config.settingsFile Config.directory
  show (Tree.resolve (projectTree settings ignored) ["proj", "xinject-cfg"]).map _ = _
  rw [hresolve]
  rfl

theorem access_projectTree :
    Tree.access (projectTree settings ignored) ["proj", "xinject-cfg", "settings.yaml"]
      = .ok (["proj", "xinject-cfg", "settings.yaml"], .file settings 0) :=
  Tree.access_of_get? isNamed_projectTree rfl nofun

theorem tellableFile_projectTree (h : Settings.TellableOctets settings) :
    Settings.TellableFile (projectTree settings ignored) ["proj"] := by
  refine ⟨_, settingsFile_projectTree, fun l octets modified haccess => ?_⟩
  rw [access_projectTree] at haccess
  obtain ⟨-, hfile⟩ := Prod.mk.inj (Except.ok.inj haccess)
  obtain ⟨rfl, -⟩ := Entry.file.inj hfile
  exact h

theorem load_projectTree {text : List Char} (h : Text.Utf8.decode? settings = some text) :
    Settings.load (projectTree settings ignored) ["proj"]
      = Settings.ofText ["proj", "xinject-cfg", "settings.yaml"] (Text.unifyBreaks text) := by
  unfold Settings.load
  rw [settingsFile_projectTree]
  dsimp only
  rw [access_projectTree]
  dsimp only
  rw [h]

/-- A settings file with an unknown key that is no text is refused without words. -/
theorem load_of_hasUnnamedKey (ignored : List UInt8) {text : List Char}
    (h : Text.Utf8.decode? settings = some text)
    (hkey : Settings.HasUnnamedKey (Text.unifyBreaks text)) :
    Project.load (projectTree settings ignored) ["proj"] = .error (.settings
      (.settings ["proj", "xinject-cfg", "settings.yaml"] .unnamedKey)) := by
  unfold Project.load
  rw [load_projectTree h, Settings.ofText_of_hasUnnamedKey hkey]
  rfl

end ProjectTree

/-- A key that is a number makes loading fail without words. -/
theorem not_forall_reported :
    ¬ ∀ settings ignored : List UInt8, (∃ p, Project.load (projectTree settings ignored) ["proj"] = .ok p)
      ∨ ∃ fault words, Project.load (projectTree settings ignored) ["proj"] = .error fault
        ∧ fault.message? = some words := by
  intro h
  have htext : Text.Utf8.decode? "1: x\n".toUTF8.toList = some "1: x\n".toList := by decide +kernel
  have hkey : Settings.HasUnnamedKey (Text.unifyBreaks "1: x\n".toList) := by decide +kernel
  have hload := load_of_hasUnnamedKey [] htext hkey
  rcases h "1: x\n".toUTF8.toList [] with ⟨p, hp⟩ | ⟨fault, words, hfault, hwords⟩
  · rw [hload] at hp
    cases hp
  · rw [hload] at hfault
    obtain rfl := Except.error.inj hfault
    cases hwords

/-- A file with an unknown key that is a text. -/
theorem load_reported_unknownKey :
    Project.Reportable (projectTree "x: 1\n".toUTF8.toList []) ["proj"]
      ∧ ((∃ p, Project.load (projectTree "x: 1\n".toUTF8.toList []) ["proj"] = .ok p)
        ∨ ∃ fault words, Project.load (projectTree "x: 1\n".toUTF8.toList []) ["proj"] = .error fault
          ∧ fault.message? = some words
          ∧ ∀ current args r, request? args = some r → r.projectParts current = ["proj"] →
            Tree.isDirectory (projectTree "x: 1\n".toUTF8.toList []) ["proj"] = true →
              run (projectTree "x: 1\n".toUTF8.toList []) current args = .refused (.project fault)
                ∧ (Refusal.project fault).message? = some words) := by
  have hreportable : Project.Reportable (projectTree "x: 1\n".toUTF8.toList []) ["proj"] := by
    refine ⟨tellableFile_projectTree (by decide +kernel), fun settings hsettings => ?_⟩
    have htext : Text.Utf8.decode? "x: 1\n".toUTF8.toList = some "x: 1\n".toList := by decide +kernel
    have hfault : (Settings.ofText ["proj", "xinject-cfg", "settings.yaml"]
        (Text.unifyBreaks "x: 1\n".toList)).toOption.isNone = true := by decide +kernel
    rw [← load_projectTree htext, hsettings] at hfault
    cases hfault
  exact ⟨hreportable, load_reported hreportable⟩

end Command

end EmbeddedExpr
