/-
  EmbeddedExpr.Proofs.Project.Sources
  ───────────────────────────────────
  **WHAT EACH SOURCE OF PATTERNS LEAVES OUT.**

  A project reads the built-in patterns, those of its settings and those of its ignore file as
  one list, in which the last pattern that concerns a path decides.  So the sources add up, each
  leaving out what it leaves out alone, exactly as long as no pattern of a later source readmits
  a path that the sources before it leave out (`Sources.TakesBack`):

      content of each source alone  ↔  content  ∧  nothing asked for is taken back

  A pattern that keeps the directory of a version control system is such a case, and so is one
  of the ignore file that keeps a directory that the settings leave out (`not_addUp`).
-/
import Mathlib
import EmbeddedExpr.Proofs.Ignore.Layers
import EmbeddedExpr.Proofs.Project.Membership
import EmbeddedExpr.Proofs.Tree.Named

namespace EmbeddedExpr

open Ignore

/-! ## §1. Directories that are left out of every project. -/

theorem isName_iff {name : String} :
    isName name = true ↔ name ≠ "" ∧ name ≠ "." ∧ name ≠ ".." ∧ '/' ∉ name.toList := by
  simp [isName, and_assoc]

namespace Content

theorem written_cons_cons (first next : String) (rest : Location) :
    (written (first :: next :: rest)).toList
      = first.toList ++ '/' :: (written (next :: rest)).toList := by
  simp [written, String.toList_intercalate]

/-- The text of a way begins with its first name. -/
theorem exists_written_slash (first : String) (rest : Location) :
    ∃ more, (written (first :: rest) ++ "/").toList = first.toList ++ '/' :: more := by
  cases rest with
  | nil => exact ⟨[], by rw [written_singleton, String.toList_append]; rfl⟩
  | cons next rest =>
    refine ⟨(written (next :: rest) ++ "/").toList, ?_⟩
    rw [String.toList_append, written_cons_cons, String.toList_append, List.append_assoc]
    rfl

/-- The text of a way that goes on ends with its last name. -/
theorem written_snoc {above : Location} (hne : above ≠ []) (name : String) :
    (written (above ++ [name])).toList = (written above).toList ++ '/' :: name.toList := by
  induction above with
  | nil => exact absurd rfl hne
  | cons first rest ih =>
    cases rest with
    | nil => simp [written_cons_cons, written_singleton]
    | cons next rest =>
      have hrest := ih (List.cons_ne_nil _ _)
      rw [List.cons_append] at hrest ⊢
      rw [List.cons_append, written_cons_cons, written_cons_cons, hrest, List.append_assoc]
      rfl

theorem written_snoc_ne {name : String} (h : isName name = true) (above : Location) :
    written (above ++ [name]) ≠ "" ∧ written (above ++ [name]) ≠ "." := by
  obtain ⟨hempty, hdot, -, -⟩ := isName_iff.mp h
  by_cases hne : above = []
  · rw [hne, List.nil_append, written_singleton]
    exact ⟨hempty, hdot⟩
  · have hslash : '/' ∈ (written (above ++ [name])).toList := by simp [written_snoc hne]
    constructor
    · intro heq
      rw [heq] at hslash
      exact absurd hslash (by decide)
    · intro heq
      rw [heq] at hslash
      exact absurd hslash (by decide)

/-- What holds of a slash and of the characters of all names holds of those of the text. -/
theorem all_written {p : Char → Bool} (hslash : p '/' = true) {way : Location}
    (h : ∀ name ∈ way, ∀ c ∈ name.toList, p c = true) : ∀ c ∈ (written way).toList, p c = true := by
  induction way with
  | nil => intro c hc; cases hc
  | cons first rest ih =>
    cases rest with
    | nil =>
      rw [written_singleton]
      exact h first List.mem_cons_self
    | cons next rest =>
      rw [written_cons_cons]
      intro c hc
      rcases List.mem_append.mp hc with hc | hc
      · exact h first List.mem_cons_self c hc
      · rcases List.mem_cons.mp hc with rfl | hc
        · exact hslash
        · exact ih (fun name hname => h name (List.mem_cons_of_mem _ hname)) c hc

end Content

namespace Ignore

/-- A path that begins with a name has no slash, nor a dot and a slash, at its head. -/
theorem relative_name {name : String} (h : isName name = true) (rest : List Char) :
    relative (name.toList ++ '/' :: rest) = name.toList ++ '/' :: rest := by
  obtain ⟨hempty, hdot, -, hslash⟩ := isName_iff.mp h
  obtain ⟨c, cs, hname⟩ := List.exists_cons_of_ne_nil fun h => hempty (String.toList_eq_nil_iff.mp h)
  rw [hname] at hslash ⊢
  refine relative_of_not ?_ ?_
  · intro h
    rw [Option.some.inj h] at hslash
    exact hslash List.mem_cons_self
  · intro h
    obtain ⟨rfl, hnext⟩ := List.cons_prefix_cons.mp h
    cases cs with
    | nil => exact hdot (String.toList_inj.mp hname)
    | cons d cs =>
      obtain ⟨rfl, -⟩ := List.cons_prefix_cons.mp hnext
      exact hslash (List.mem_cons_of_mem _ List.mem_cons_self)

/-- **The pattern of a name concerns every directory of that name**, below directories with names
without line ends. -/
theorem meets_directoryPattern {above : Location} {name : String} (hname : isName name = true)
    (habove : ∀ n ∈ above, isName n = true ∧ '\n' ∉ n.toList) :
    (directoryPattern name).meets (Content.written (above ++ [name]) ++ "/") = true := by
  have hinline : ∀ c ∈ (Content.written above).toList, isInline c = true := by
    refine Content.all_written (by decide) fun n hn c hc => ?_
    refine decide_eq_true fun hline => (habove n hn).2 ?_
    rw [← hline]
    exact hc
  obtain ⟨htop, hbelow⟩ := concerns_directoryPattern name hinline []
  unfold Pattern.meets
  -- the pattern matches at the head of the path, or after a slash: which one depends on `above`
  cases above with
  | nil =>
    rw [List.nil_append, Content.written_singleton, String.toList_append]
    show (directoryPattern name).concerns (relative (name.toList ++ '/' :: [])) = true
    rw [relative_name hname]
    exact htop
  | cons first rest =>
    have hfirst := (habove first List.mem_cons_self).1
    have hne : (Content.written (first :: rest)).toList ≠ [] := by
      cases rest with
      | nil =>
        rw [Content.written_singleton]
        exact fun h => (isName_iff.mp hfirst).1 (String.toList_eq_nil_iff.mp h)
      | cons next rest => simp [Content.written_cons_cons]
    obtain ⟨more, hmore⟩ := Content.exists_written_slash first (rest ++ [name])
    rw [List.cons_append, hmore, relative_name hfirst, ← hmore,
      ← List.cons_append, String.toList_append, Content.written_snoc (List.cons_ne_nil _ _)]
    exact hbelow hne

end Ignore

namespace Project

/-- The directories that are left out of every project. -/
def hiddenNames : List String := [".git", ".hg", ".svn", ".idea"]

theorem readAll_builtInPatterns :
    readAll builtInPatterns = .ok (hiddenNames.map directoryPattern) := by
  have h : (readAll builtInPatterns).toOption = some (hiddenNames.map directoryPattern) := by
    decide +kernel
  cases hread : readAll builtInPatterns with
  | error fault =>
    rw [hread] at h
    cases h
  | ok ps =>
    rw [hread] at h
    exact congrArg Except.ok (Option.some.inj h)

/-- The built-in patterns leave out what one of them concerns. -/
theorem verdict_hidden {name path : String} (hname : name ∈ hiddenNames)
    (h : (directoryPattern name).meets path = true) :
    verdict (hiddenNames.map directoryPattern) path = true := by
  rcases exists_last (hiddenNames.map directoryPattern) path with
    hnone | ⟨before, q, after, hsplit, hq, hafter⟩
  · rw [hnone _ (List.mem_map_of_mem hname)] at h
    cases h
  · -- the last pattern that concerns the path decides, and none of them keeps anything
    have hmem : q ∈ hiddenNames.map directoryPattern :=
      hsplit ▸ List.mem_append_right _ List.mem_cons_self
    obtain ⟨other, -, rfl⟩ := List.mem_map.mp hmem
    rw [hsplit, verdict_append_cons hq hafter]
    rfl

/-- What the path names lies in a directory that is left out of every project, or is one: a path
that ends there leads to a directory.  The names above that directory are names of one line. -/
def LiesHidden (p : Project) (tree : Entry) (path : List String) : Prop :=
  ∃ above name rest, p.way? tree path = .ok (some (above ++ name :: rest)) ∧ name ∈ hiddenNames
    ∧ (∀ n ∈ above, isName n = true ∧ '\n' ∉ n.toList)
    ∧ (rest = [] → Tree.isDirectory tree path = true)

/-- The built-in patterns alone leave out what lies in one of the directories. -/
theorem asks_of_liesHidden {p : Project} {tree : Entry} {path : List String}
    (h : p.LiesHidden tree path) :
    ∃ written, p.Asks tree path written
      ∧ verdict (hiddenNames.map directoryPattern) written = true := by
  obtain ⟨above, name, rest, hway, hname, habove, hdirectory⟩ := h
  have hisName : isName name = true := by
    have hall : ∀ n ∈ hiddenNames, isName n = true := by decide
    exact hall name hname
  have hmeets := meets_directoryPattern hisName habove
  refine ⟨_, ⟨_, hway, above ++ [name], ⟨by simp, ?_, ?_, ?_⟩, Or.inr ⟨rfl, ?_⟩⟩,
    verdict_hidden hname hmeets⟩
  · exact ⟨rest, by simp⟩
  · exact (Content.written_snoc_ne hisName above).1
  · exact (Content.written_snoc_ne hisName above).2
  · intro hend
    exact hdirectory (List.cons.inj (List.append_cancel_left hend)).2.symm

/-! ## §2. Three sources. -/

/-- The patterns of a project, by where they come from. -/
structure PatternSources where
  builtIn : List Pattern
  settings : List Pattern
  ignored : List Pattern

namespace PatternSources

/-- The sources in the order in which they are read. -/
def all (s : PatternSources) : List (List Pattern) := [s.builtIn, s.settings, s.ignored]

/-- The patterns that are there without an ignore file. -/
def standing (s : PatternSources) : List Pattern := s.builtIn ++ s.settings

/-- A pattern of a later source keeps a path that the sources before it leave out. -/
def TakesBack (s : PatternSources) (path : String) : Prop :=
  Readmits s.builtIn s.settings path ∨ Readmits s.standing s.ignored path

/-- The sources are those of a project made in a tree. -/
structure Of (s : PatternSources) (p : Project) (tree : Entry) : Prop where
  builtIn : readAll builtInPatterns = .ok s.builtIn
  settings : readAll p.settings.exclude = .ok s.settings
  ignored : readAll (ignoreLines tree p.root) = .ok s.ignored
  patterns : p.patterns = s.standing ++ s.ignored

end PatternSources

theorem readAll_append {first second : List String} {ps : List Pattern}
    (h : readAll (first ++ second) = .ok ps) :
    ∃ qs rs, readAll first = .ok qs ∧ readAll second = .ok rs ∧ ps = qs ++ rs := by
  unfold readAll at h ⊢
  rw [List.mapM_append] at h
  cases hfirst : first.mapM fun line => read line.toList with
  | error fault =>
    rw [hfirst] at h
    cases h
  | ok qs =>
    cases hsecond : second.mapM fun line => read line.toList with
    | error fault =>
      rw [hfirst, hsecond] at h
      cases h
    | ok rs =>
      rw [hfirst, hsecond] at h
      refine ⟨_, _, rfl, rfl, ?_⟩
      rw [← Except.ok.inj h]
      exact List.filterMap_append

/-- What a project is made of. -/
theorem ofSettings_eq_ok {tree : Entry} {path : List String} {settings : Settings} {p : Project}
    (h : ofSettings tree path settings = .ok p) :
    Tree.resolve tree path = .ok p.root ∧ p.settings = settings
      ∧ readAll (builtInPatterns ++ settings.exclude ++ ignoreLines tree p.root) = .ok p.patterns
      ∧ settings.modules.mapM (moduleOf tree p.root) = .ok p.modules := by
  unfold ofSettings at h
  cases hroot : Tree.resolve tree path with
  | error loop =>
    rw [hroot] at h
    cases h
  | ok root =>
    rw [hroot] at h
    replace h : ((readAll (builtInPatterns ++ settings.exclude ++ ignoreLines tree root)).mapError
      Fault.pattern >>= fun patterns => settings.modules.mapM (moduleOf tree root) >>= fun modules =>
        pure ⟨root, settings, patterns, ⟨rootName root, root, []⟩, modules, none⟩) = .ok p := h
    cases hpatterns : readAll (builtInPatterns ++ settings.exclude ++ ignoreLines tree root) with
    | error fault =>
      rw [hpatterns] at h
      cases h
    | ok patterns =>
      rw [hpatterns] at h
      cases hmodules : settings.modules.mapM (moduleOf tree root) with
      | error fault =>
        rw [hmodules] at h
        cases h
      | ok modules =>
        rw [hmodules] at h
        obtain rfl := Except.ok.inj h
        exact ⟨rfl, rfl, hpatterns, hmodules⟩

theorem exists_sources {tree : Entry} {path : List String} {settings : Settings} {p : Project}
    (h : ofSettings tree path settings = .ok p) : ∃ s : PatternSources, s.Of p tree := by
  obtain ⟨-, rfl, hread, -⟩ := ofSettings_eq_ok h
  obtain ⟨standing, ignored, hstanding, hignored, hpatterns⟩ := readAll_append hread
  obtain ⟨builtIn, settings, hbuiltIn, hsettings, rfl⟩ := readAll_append hstanding
  exact ⟨⟨builtIn, settings, ignored⟩, hbuiltIn, hsettings, hignored, hpatterns⟩

/-! ## §3. What the sources leave out together. -/

/-- Where a project's content lies depends on its root only. -/
theorem isInContentBy_of_root {p q : Project} (h : p.root = q.root) (verdict : String → Bool)
    (tree : Entry) (path : List String) :
    p.isInContentBy verdict tree path = q.isInContentBy verdict tree path := by
  unfold isInContentBy way?
  rw [h]

/-- **Patterns and those after them keep what a path names exactly when both together do and none
of the later ones readmits what is asked for.** -/
theorem isInContentBy_append_iff (p : Project) (ps qs : List Pattern) (tree : Entry)
    (path : List String) :
    p.isInContentBy (verdict (ps ++ qs)) tree path = .ok true
        ∧ (∀ written, p.Asks tree path written → ¬ Readmits ps qs written)
      ↔ p.isInContentBy (verdict ps) tree path = .ok true
        ∧ p.isInContentBy (verdict qs) tree path = .ok true := by
  simp only [isInContentBy_eq_true_iff]
  constructor
  · rintro ⟨⟨hreaches, hboth⟩, hkept⟩
    have hsplit := fun written hw => verdict_append_eq_false_iff.mp ⟨hboth written hw, hkept written hw⟩
    exact ⟨⟨hreaches, fun written hw => (hsplit written hw).1⟩, hreaches,
      fun written hw => (hsplit written hw).2⟩
  · rintro ⟨⟨hreaches, hps⟩, -, hqs⟩
    have hjoin := fun written hw => verdict_append_eq_false_iff.mpr ⟨hps written hw, hqs written hw⟩
    exact ⟨⟨hreaches, fun written hw => (hjoin written hw).1⟩, fun written hw => (hjoin written hw).2⟩

/-- How the sources of a project's patterns work together. -/
structure AddUp (p : Project) (settings : Settings) (s : PatternSources) : Prop where
  /-- What every source keeps is content, and there is no other content when none takes anything
  back. -/
  sum : ∀ tree path, (∀ ps ∈ s.all, p.isInContentBy (verdict ps) tree path = .ok true)
    ↔ p.isInContent tree path = .ok true
      ∧ ∀ written, p.Asks tree path written → ¬ s.TakesBack written
  /-- No directory of those left out of every project is content, nor what lies in one. -/
  hidden : ∀ tree path, (∀ written, p.Asks tree path written → ¬ s.TakesBack written) →
    p.LiesHidden tree path → p.isInContent tree path = .ok false
  /-- The ignore file adds to the content only what its patterns readmit. -/
  ignored : ∀ tree₀ path₀ p₀, ofSettings tree₀ path₀ settings = .ok p₀ → p₀.root = p.root →
    ignoreLines tree₀ p.root = [] → ∀ tree path, p.isInContent tree path = .ok true →
      (p₀.isInContent tree path = .ok false
        ↔ ∃ written, p.Asks tree path written ∧ Readmits s.standing s.ignored written)

theorem sum_iff {p : Project} {s : PatternSources} (hs : p.patterns = s.standing ++ s.ignored)
    (tree : Entry) (path : List String) :
    (∀ ps ∈ s.all, p.isInContentBy (verdict ps) tree path = .ok true)
      ↔ p.isInContent tree path = .ok true
        ∧ ∀ written, p.Asks tree path written → ¬ s.TakesBack written := by
  have hstanding := p.isInContentBy_append_iff s.builtIn s.settings tree path
  have hall := p.isInContentBy_append_iff s.standing s.ignored tree path
  rw [← hs] at hall
  simp only [PatternSources.all, List.mem_cons, List.not_mem_nil, or_false, forall_eq_or_imp,
    forall_eq, PatternSources.TakesBack, not_or]
  constructor
  · rintro ⟨hbuiltIn, hsettings, hignored⟩
    obtain ⟨hkept, hfirst⟩ := hstanding.mpr ⟨hbuiltIn, hsettings⟩
    obtain ⟨hcontent, hlast⟩ := hall.mpr ⟨hkept, hignored⟩
    exact ⟨hcontent, fun written hw => ⟨hfirst written hw, hlast written hw⟩⟩
  · rintro ⟨hcontent, hkept⟩
    obtain ⟨hbefore, hignored⟩ := hall.mp ⟨hcontent, fun written hw => (hkept written hw).2⟩
    obtain ⟨hbuiltIn, hsettings⟩ := hstanding.mp ⟨hbefore, fun written hw => (hkept written hw).1⟩
    exact ⟨hbuiltIn, hsettings, hignored⟩

/-- Without an ignore file, the patterns of the other sources are left. -/
theorem patterns_of_noIgnored {tree tree₀ : Entry} {path₀ : List String} {p p₀ : Project}
    {s : PatternSources} (hs : s.Of p tree) (h₀ : ofSettings tree₀ path₀ p.settings = .ok p₀)
    (hroot : p₀.root = p.root) (hlines : ignoreLines tree₀ p.root = []) :
    p₀.patterns = s.standing := by
  obtain ⟨s₀, hs₀⟩ := exists_sources h₀
  obtain ⟨-, hsettings, -, -⟩ := ofSettings_eq_ok h₀
  have hbuiltIn : s₀.builtIn = s.builtIn := Except.ok.inj (hs₀.builtIn.symm.trans hs.builtIn)
  have hexclude : s₀.settings = s.settings :=
    Except.ok.inj (hs₀.settings.symm.trans (hsettings ▸ hs.settings))
  have hignored : s₀.ignored = [] := by
    have hread := hs₀.ignored
    rw [hroot, hlines] at hread
    exact (Except.ok.inj hread).symm
  rw [hs₀.patterns, hignored, List.append_nil, PatternSources.standing, hbuiltIn, hexclude]
  rfl

/-- What lies in a directory left out of every project is no content unless it is taken back. -/
theorem isInContent_of_liesHidden {tree₀ tree : Entry} {path : List String} {p : Project}
    {s : PatternSources} (hs : s.Of p tree₀)
    (hkept : ∀ written, p.Asks tree path written → ¬ s.TakesBack written)
    (hhidden : p.LiesHidden tree path) : p.isInContent tree path = .ok false := by
  obtain ⟨written, hasks, hverdict⟩ := asks_of_liesHidden hhidden
  obtain ⟨above, name, rest, hway, -⟩ := hhidden
  refine isInContentBy_of_ne hway fun hcontent => ?_
  -- were it content, the built-in patterns alone would keep it
  have hbuiltIn := (sum_iff hs.patterns tree path).mpr ⟨hcontent, hkept⟩ s.builtIn List.mem_cons_self
  rw [Except.ok.inj (hs.builtIn.symm.trans readAll_builtInPatterns)] at hbuiltIn
  rw [(isInContentBy_eq_true_iff.mp hbuiltIn).2 written hasks] at hverdict
  cases hverdict

/-- Of the content, the patterns before the ignore file's leave out what those readmit. -/
theorem not_inContentBy_standing_iff {tree : Entry} {path : List String} {p : Project}
    {s : PatternSources} (hs : p.patterns = s.standing ++ s.ignored)
    (hcontent : p.isInContent tree path = .ok true) :
    p.isInContentBy (verdict s.standing) tree path = .ok false
      ↔ ∃ written, p.Asks tree path written ∧ Readmits s.standing s.ignored written := by
  have hboth := p.isInContentBy_append_iff s.standing s.ignored tree path
  rw [← hs] at hboth
  constructor
  · intro hfalse
    refine Classical.byContradiction fun hnone => ?_
    have hkept := (hboth.mp ⟨hcontent, fun written hw hre => hnone ⟨written, hw, hre⟩⟩).1
    rw [hfalse] at hkept
    cases hkept
  · rintro ⟨written, hasks, hreadmits⟩
    obtain ⟨way, hway, -⟩ := id hasks
    refine isInContentBy_of_ne hway fun hkept => ?_
    have hverdict := (isInContentBy_eq_true_iff.mp hkept).2 written hasks
    rw [(readmits_iff.mp hreadmits).1] at hverdict
    cases hverdict

/-- **The sources of a project's patterns add up as long as none takes anything back.** -/
theorem exclusions_addUp {tree : Entry} {path : List String} {settings : Settings} {p : Project}
    (h : ofSettings tree path settings = .ok p) :
    ∃ s : PatternSources, s.Of p tree ∧ p.AddUp settings s := by
  obtain ⟨s, hs⟩ := exists_sources h
  refine ⟨s, hs, ?_⟩
  constructor
  case sum => exact sum_iff hs.patterns
  case hidden => exact fun tree path => isInContent_of_liesHidden hs
  case ignored =>
    intro tree₀ path₀ p₀ h₀ hroot hlines tree path hcontent
    obtain ⟨-, rfl, -, -⟩ := ofSettings_eq_ok h
    rw [← not_inContentBy_standing_iff hs.patterns hcontent, isInContent,
      patterns_of_noIgnored hs h₀ hroot hlines, isInContentBy_of_root hroot]

/-! ## §4. Patterns that take something back. -/

/-- A tree with a directory of a version control system. -/
def hiddenTree : Entry := .directory [(".git", .directory [("config", .file [] 0)])]

/-- Settings that keep the directory. -/
def keepsHidden : Settings := { Settings.default with exclude := ["!.git/"] }

theorem ofSettings_keepsHidden :
    (ofSettings hiddenTree [] keepsHidden).toOption.map (fun p =>
      ((p.way? hiddenTree [".git", "config"]).toOption,
        (p.isInContent hiddenTree [".git", "config"]).toOption))
      = some (some (some [".git", "config"]), some true) := by
  cbv

/-- A tree with an ignore file that keeps a directory. -/
def ignoringTree : Entry := .directory [
  (".gitignore", .file ("!b/".toUTF8.toList) 0), ("b", .directory [("a", .file [] 0)])]

/-- The tree without that file. -/
def plainTree : Entry := .directory [("b", .directory [("a", .file [] 0)])]

/-- Settings that leave out the directory. -/
def withoutB : Settings := { Settings.default with exclude := ["b/"] }

theorem ofSettings_withoutB :
    (ofSettings ignoringTree [] withoutB).toOption.map (fun p =>
      (p.root, (p.isInContent ignoringTree ["b", "a"]).toOption)) = some ([], some true) := by
  cbv

theorem ofSettings_withoutB_plain :
    (ofSettings plainTree [] withoutB).toOption.map (fun p =>
      (p.root, ignoreLines plainTree p.root, (p.isInContent ignoringTree ["b", "a"]).toOption))
      = some ([], [], some false) := by
  cbv

/-- Settings may bring back a directory that is left out of every project, and an ignore file one
that the settings leave out. -/
theorem not_addUp :
    (¬ ∀ (tree : Entry) (path : List String) (settings : Settings) (p : Project),
      ofSettings tree path settings = .ok p → ∀ file, p.LiesHidden tree file →
        p.isInContent tree file = .ok false)
    ∧ ¬ ∀ (tree tree₀ : Entry) (path : List String) (settings : Settings) (p p₀ : Project),
      ofSettings tree path settings = .ok p → ofSettings tree₀ path settings = .ok p₀ →
        p₀.root = p.root → ignoreLines tree₀ p.root = [] → ∀ file,
          p₀.isInContent tree file = .ok false → p.isInContent tree file = .ok false := by
  constructor
  · intro h
    obtain ⟨p, hp, hrun⟩ := exists_of_toOption_map ofSettings_keepsHidden
    obtain ⟨hway, hcontent⟩ := Prod.mk.inj hrun
    have hfalse := h hiddenTree [] keepsHidden p hp [".git", "config"]
      ⟨[], ".git", ["config"], eq_ok_of_toOption hway, by decide, by simp, nofun⟩
    rw [hfalse] at hcontent
    cases hcontent
  · intro h
    obtain ⟨p, hp, hrun⟩ := exists_of_toOption_map ofSettings_withoutB
    obtain ⟨p₀, hp₀, hrun₀⟩ := exists_of_toOption_map ofSettings_withoutB_plain
    obtain ⟨hroot, hcontent⟩ := Prod.mk.inj hrun
    obtain ⟨hroot₀, hrun₀⟩ := Prod.mk.inj hrun₀
    obtain ⟨hlines, hcontent₀⟩ := Prod.mk.inj hrun₀
    have hroots : p₀.root = p.root := hroot₀.trans hroot.symm
    have hfalse := h ignoringTree plainTree [] withoutB p p₀ hp hp₀ hroots (hroots ▸ hlines)
      ["b", "a"] (eq_ok_of_toOption hcontent₀)
    rw [hfalse] at hcontent
    cases hcontent

/-- The ignore file brings back a directory, and its pattern readmits it. -/
theorem exclusions_addUp_ignoringTree :
    ∃ p, ofSettings ignoringTree [] withoutB = .ok p
      ∧ p.isInContent ignoringTree ["b", "a"] = .ok true
      ∧ ∃ s : PatternSources, s.Of p ignoringTree ∧ p.AddUp withoutB s := by
  obtain ⟨p, hp, hrun⟩ := exists_of_toOption_map ofSettings_withoutB
  exact ⟨p, hp, eq_ok_of_toOption (Prod.mk.inj hrun).2, exclusions_addUp hp⟩

end Project

end EmbeddedExpr
