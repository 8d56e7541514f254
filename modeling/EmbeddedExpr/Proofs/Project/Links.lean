/-
  EmbeddedExpr.Proofs.Project.Links
  ─────────────────────────────────
  **THE WALK GOES BY WHERE LINKS STAND.**

  The walk tests the way to a link, and membership the way to what the link names.  So a file that
  the walk meets is always content, but a link only when what it names is:

      l ∈ p.contentFiles tree  →  (p.isInContent tree l = .ok true ↔ p.NamesContent tree l)

  The walk stays in the content exactly when all links that it meets name content, and the search
  for the framework reads files of the content only as long as it does (`WalksByPlace`).
-/
import EmbeddedExpr.Proofs.Project.Upward
import EmbeddedExpr.Proofs.Project.Walk
import EmbeddedExpr.Project.Framework

namespace EmbeddedExpr

namespace Project

variable {p : Project} {verdict : String → Bool} {tree : Entry} {l l' : Location}

/-! ## §1. What is met. -/

/-- The path names what lies below the project's root, and no pattern leaves out the way to it. -/
def NamesContent (p : Project) (tree : Entry) (path : List String) : Prop :=
  ∃ way, Tree.resolve tree path = .ok (p.root ++ way)
    ∧ Content.keeps (Ignore.verdict p.patterns) [] way = true

/-- The walk meets content only. -/
def StaysInContent (p : Project) (tree : Entry) : Prop :=
  ∀ l ∈ p.contentFiles tree, p.isInContent tree l = .ok true

/-- What is met is not a directory. -/
theorem IsMet.isDirectory_eq_false (hnamed : tree.isNamed = true) (hmet : IsMet tree l) :
    Tree.isDirectory tree l = false := by
  rcases hmet with ⟨octets, modified, hfile⟩ | ⟨-, hleads⟩
  · unfold Tree.isDirectory
    rw [Tree.access_of_get? hnamed hfile nofun]
    rfl
  · exact hleads

/-- **What is met is content exactly when what it names is.** -/
theorem isInContent_iff_namesContent (hnamed : tree.isNamed = true) (hmet : IsMet tree l) :
    p.isInContent tree l = .ok true ↔ p.NamesContent tree l := by
  unfold isInContent NamesContent
  constructor
  · intro h
    cases hl : Tree.resolve tree l with
    | error loop =>
      unfold isInContentBy way? at h
      rw [hl] at h
      cases h
    | ok found =>
      obtain ⟨⟨way, rfl⟩, hholds⟩ := holds_of_isInContentBy hl h
      rw [List.drop_left, hmet.isDirectory_eq_false hnamed, Content.holds_eq_keeps] at hholds
      exact ⟨way, rfl, hholds⟩
  · rintro ⟨way, hl, hkept⟩
    rw [isInContentBy_of_resolve hl, List.drop_left, hmet.isDirectory_eq_false hnamed,
      Content.holds_eq_keeps, hkept, decide_eq_true (List.prefix_append _ _)]
    rfl

/-! ## §2. What is read. -/

/-- A file of the name at the location shows that the framework is used. -/
def ShowsAt (tree : Entry) (name : String) (l : Location) : Prop :=
  isScriptName name = true ∨ name = packageName ∧ ∃ octets modified text,
    tree.get? l = some (.file octets modified) ∧ Text.Utf8.decode? octets = some text
      ∧ declaresFramework (Text.unifyBreaks text) = true

/-- **The octets that a path leads to are those of the file that it names.** -/
theorem exists_file_of_octets {path : List String} {octets : List UInt8}
    (h : Tree.octets tree path = .ok octets) (hl : Tree.resolve tree path = .ok l) :
    ∃ modified, tree.get? l = some (.file octets modified) := by
  unfold Tree.octets at h
  split at h
  · cases h
  · next found octets' modified haccess =>
    obtain rfl := Except.ok.inj h
    obtain rfl := Except.ok.inj ((Tree.resolve_of_access haccess).symm.trans hl)
    exact ⟨modified, Tree.get?_of_access haccess⟩
  · cases h

theorem showsAt_of_showsFramework (h : showsFramework tree l = true)
    (hl : Tree.resolve tree l = .ok l') : ShowsAt tree (l.getLast?.getD "") l' := by
  unfold showsFramework at h
  rcases Bool.or_eq_true _ _ ▸ h with hscript | hpackage
  · exact Or.inl hscript
  · obtain ⟨hname, hdeclares⟩ := Bool.and_eq_true _ _ ▸ hpackage
    refine Or.inr ⟨of_decide_eq_true hname, ?_⟩
    unfold packageDeclares at hdeclares
    split at hdeclares
    · next octets hoctets =>
      split at hdeclares
      · next text htext =>
        obtain ⟨modified, hfile⟩ := exists_file_of_octets hoctets hl
        exact ⟨octets, modified, text, hfile, htext, hdeclares⟩
      · cases hdeclares
    · cases hdeclares

/-! ## §3. The walk. -/

/-- What the walk of a project comes to, whatever links there are. -/
structure WalksByPlace (p : Project) (tree : Entry) : Prop where
  /-- The walk goes by where things stand. -/
  met : ∀ l, l ∈ p.contentFiles tree ↔ ∃ way, way ≠ [] ∧ l = p.root ++ way ∧ IsMet tree l
    ∧ Content.keeps (Ignore.verdict p.patterns) [] way = true
  /-- The files that it meets are content. -/
  file : ∀ l ∈ p.contentFiles tree, Content.IsFileAt tree l → p.isInContent tree l = .ok true
  /-- A link that it meets is content exactly when what the link names is. -/
  link : ∀ l ∈ p.contentFiles tree, Content.IsLinkAt tree l →
    (p.isInContent tree l = .ok true ↔ p.NamesContent tree l)
  /-- It stays in the content exactly when all links that it meets name content. -/
  stays : p.StaysInContent tree
    ↔ ∀ l ∈ p.contentFiles tree, Content.IsLinkAt tree l → p.NamesContent tree l
  /-- If it stays there, then what is read of the files that it meets is from the content. -/
  reads : p.StaysInContent tree → ∀ l ∈ p.contentFiles tree, ∀ octets,
    Tree.octets tree l = .ok octets → ∃ way modified,
      tree.get? (p.root ++ way) = some (.file octets modified)
        ∧ Content.keeps (Ignore.verdict p.patterns) [] way = true
  /-- If it stays there, then the framework is found only where the content shows it. -/
  detects : p.StaysInContent tree → p.settings.mode = .auto → p.detectFramework tree = true →
    ∃ l ∈ p.contentFiles tree, ∃ way, Tree.resolve tree l = .ok (p.root ++ way)
      ∧ Content.keeps (Ignore.verdict p.patterns) [] way = true
      ∧ ShowsAt tree (l.getLast?.getD "") (p.root ++ way)

/-- **The walk meets content and links to anywhere**, in every tree with proper names. -/
theorem walksByPlace (p : Project) (hnamed : tree.isNamed = true) : p.WalksByPlace tree := by
  have hmem : ∀ l, l ∈ p.contentFiles tree ↔ ∃ way, way ≠ [] ∧ l = p.root ++ way ∧ IsMet tree l
      ∧ Content.keeps (Ignore.verdict p.patterns) [] way = true :=
    fun l => mem_contentFilesBy_iff_isMet hnamed
  have hmet : ∀ l ∈ p.contentFiles tree, IsMet tree l := by
    intro l hl
    obtain ⟨_, -, -, hmet, -⟩ := (hmem l).mp hl
    exact hmet
  have hiff : ∀ l ∈ p.contentFiles tree, (p.isInContent tree l = .ok true ↔ p.NamesContent tree l) :=
    fun l hl => isInContent_iff_namesContent hnamed (hmet l hl)
  have hfile : ∀ l ∈ p.contentFiles tree, Content.IsFileAt tree l →
      p.isInContent tree l = .ok true := by
    intro l hl hfile
    obtain ⟨way, -, rfl, -, hkept⟩ := (hmem l).mp hl
    rw [← hkept]
    exact isInContentBy_of_file hnamed hfile
  constructor
  case met => exact hmem
  case file => exact hfile
  case link => exact fun l hl _ => hiff l hl
  case stays =>
    refine ⟨fun hstays l hl _ => (hiff l hl).mp (hstays l hl), fun hlinks l hl => ?_⟩
    rcases hmet l hl with hisFile | ⟨hlink, -⟩
    · exact hfile l hl hisFile
    · exact (hiff l hl).mpr (hlinks l hl hlink)
  case reads =>
    intro hstays l hl octets hoctets
    obtain ⟨way, hway, hkept⟩ := (hiff l hl).mp (hstays l hl)
    obtain ⟨modified, hget⟩ := exists_file_of_octets hoctets hway
    exact ⟨way, modified, hget, hkept⟩
  case detects =>
    intro hstays hauto hfound
    unfold detectFramework at hfound
    rw [hauto] at hfound
    obtain ⟨l, hl, hshows⟩ := List.any_eq_true.mp hfound
    obtain ⟨way, hway, hkept⟩ := (hiff l hl).mp (hstays l hl)
    exact ⟨l, hl, way, hway, hkept, showsAt_of_showsFramework hshows hway⟩

/-- A project with a link to a script in a directory next to it. -/
def linkedTree : Entry := .directory [("proj", .directory [
  ("app", .directory [("angular.js", .link "../lib/angular.js")]),
  ("lib", .directory [("angular.js", .file [] 0)])])]

/-- Where the link stands. -/
def linkedScript : Location := ["proj", "app", "angular.js"]

theorem access_linkedScript :
    Tree.access linkedTree linkedScript = .ok (["proj", "lib", "angular.js"], .file [] 0) := by
  have hsteps : Tree.stepsOf "../lib/angular.js" = [.up, .name "lib", .name "angular.js"] := by
    decide +kernel
  have hrelative : Tree.isAbsolute "../lib/angular.js" = false := by decide +kernel
  simp [Tree.access, Tree.stepsOfParts, Tree.walk, Tree.linkLimit, linkedTree, linkedScript, Entry.get?,
    Entry.children, Entry.isDirectory, List.lookup, hsteps, hrelative, Location.parent]

theorem isMet_linkedScript : IsMet linkedTree linkedScript := by
  refine Or.inr ⟨⟨"../lib/angular.js", rfl⟩, ?_⟩
  unfold Tree.isDirectory
  rw [access_linkedScript]
  rfl

theorem isNamed_linkedTree : linkedTree.isNamed = true := by decide +kernel

/-- The walk meets the link, and stays in the content. -/
theorem walksByPlace_linkedTree :
    let p : Project := ⟨["proj"], .default, [], ⟨"proj", ["proj"], []⟩, [], none⟩
    linkedTree.isNamed = true ∧ linkedScript ∈ p.contentFiles linkedTree
      ∧ p.StaysInContent linkedTree ∧ p.WalksByPlace linkedTree := by
  intro p
  have hwalks := walksByPlace p isNamed_linkedTree
  refine ⟨isNamed_linkedTree, (hwalks.met _).mpr ?_, hwalks.stays.mpr ?_, hwalks⟩
  · exact ⟨["app", "angular.js"], nofun, rfl, isMet_linkedScript, by cbv⟩
  · -- the tree has one link
    rintro l - ⟨target, hlink⟩
    have hmem : l ∈ linkedTree.links [] := Tree.mem_links hlink
    obtain rfl : l = linkedScript := List.mem_singleton.mp hmem
    exact ⟨["lib", "angular.js"], Tree.resolve_of_access access_linkedScript, by cbv⟩

/-- Settings that leave out the directory of the script. -/
def withoutLib : Settings := { Settings.default with exclude := ["lib/"] }

theorem ofSettings_withoutLib :
    (Project.ofSettings linkedTree ["proj"] withoutLib).toOption.map (fun p =>
      (p.root, Content.keeps (Ignore.verdict p.patterns) [] ["app", "angular.js"],
        Content.keeps (Ignore.verdict p.patterns) [] ["lib", "angular.js"]))
      = some (["proj"], true, false) := by
  cbv

/-- A link to what is left out is met, and is not content. -/
theorem not_forall_staysInContent :
    ¬ ∀ (tree : Entry) (at_ : List String) (settings : Settings) (p : Project),
      tree.isNamed = true → Project.ofSettings tree at_ settings = .ok p → p.StaysInContent tree := by
  intro h
  obtain ⟨p, hp, hrun⟩ := exists_of_toOption_map ofSettings_withoutLib
  obtain ⟨hroot, hrun⟩ := Prod.mk.inj hrun
  obtain ⟨hkept, hleftOut⟩ := Prod.mk.inj hrun
  have hplace : linkedScript = p.root ++ ["app", "angular.js"] := by
    rw [hroot]
    rfl
  have hmem : linkedScript ∈ p.contentFiles linkedTree :=
    (mem_contentFilesBy_iff_isMet isNamed_linkedTree).mpr
      ⟨["app", "angular.js"], nofun, hplace, isMet_linkedScript, hkept⟩
  have hcontent := h _ _ _ p isNamed_linkedTree hp _ hmem
  obtain ⟨way, hway, hkeptThere⟩ :=
    (isInContent_iff_namesContent isNamed_linkedTree isMet_linkedScript).mp hcontent
  rw [Tree.resolve_of_access access_linkedScript, hroot] at hway
  obtain rfl : way = ["lib", "angular.js"] := (List.cons.inj (Except.ok.inj hway)).2.symm
  rw [hleftOut] at hkeptThere
  cases hkeptThere

end Project

end EmbeddedExpr
