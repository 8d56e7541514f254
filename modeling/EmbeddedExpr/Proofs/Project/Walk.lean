/-
  EmbeddedExpr.Proofs.Project.Walk
  ────────────────────────────────
  **THE WALK MEETS EXACTLY THE FILES OF THE CONTENT.**

  The walk goes down a tree and leaves out directories as it meets them; whether one file
  belongs to the content is told from the directories on the way to it.  In a tree with proper
  names and no links below the project's root both say the same, whatever verdict says which
  paths are left out:

      file at l  →  p.isInContentBy verdict tree l = .ok (l ∈ p.contentFilesBy verdict tree)

  `keeps` follows the way to a file from the directory that the walk has come to, as the walk
  itself does.  Both sides are equal to it.  The walk takes a link that does not lead to a
  directory for a file (`mem_files_iff_isMetAt`).
-/
import EmbeddedExpr.Project.Basic
import EmbeddedExpr.Proofs.Tree.Reached
import Mathlib.Data.List.Nodup

namespace EmbeddedExpr

namespace Content

variable {verdict : String → Bool} {leadsToDirectory : Location → Bool}

/-! ## §1. One way, step by step. -/

/-- The verdict keeps the file that `rest` leads to from the directory at `way`, and every
directory between them. -/
def keeps (verdict : String → Bool) (way : Location) : Location → Bool
  | [] => true
  | [name] => !isExcluded verdict (written (way ++ [name])) false
  | name :: next :: rest =>
    !isExcluded verdict (written (way ++ [name])) true
      && keeps verdict (way ++ [name]) (next :: rest)

theorem keeps_cons (name : String) (rest : Location) :
    ∀ way : Location, keeps verdict way (name :: rest)
      = (((List.range rest.length).all fun k =>
          !isExcluded verdict (written (way ++ (name :: rest).take (k + 1))) true)
        && !isExcluded verdict (written (way ++ name :: rest)) false) := by
  induction rest generalizing name with
  | nil => intro way; rfl
  | cons next rest ih =>
    intro way
    show (_ && keeps verdict (way ++ [name]) (next :: rest)) = _
    rw [ih next (way ++ [name]), List.length_cons, List.range_succ_eq_map, List.all_cons,
      List.all_map, Bool.and_assoc]
    simp only [Function.comp_def, Nat.succ_eq_add_one, List.take_succ_cons, List.take_zero,
      List.append_assoc, List.singleton_append]

/-- A file belongs to the content when the verdict keeps it all the way down. -/
theorem holds_eq_keeps (way : Location) : holds verdict way false = keeps verdict [] way := by
  cases way with
  | nil => rfl
  | cons name rest =>
    rw [keeps_cons]
    unfold holds ancestors
    rw [List.all_map]
    rfl

/-! ## §2. One directory. -/

/-- The directories among entries that the walk enters. -/
def entered (verdict : String → Bool) (way : Location) (entries : List (String × Entry)) :
    List (String × Entry) :=
  entries.filter fun c =>
    c.2.isDirectory && !isExcluded verdict (written (way ++ [c.1])) true

/-- The ways to the files of a directory itself that the verdict keeps. -/
def ownFiles (verdict : String → Bool) (leadsToDirectory : Location → Bool) (way : Location)
    (entries : List (String × Entry)) : List Location :=
  ((fileNames leadsToDirectory way entries).map fun name => way ++ [name]).filter
    fun file => !isExcluded verdict (written file) false

theorem filesBelow_eq (way : Location) (entries : List (String × Entry)) :
    filesBelow verdict leadsToDirectory way entries
      = (entered verdict way entries).map fun c =>
          (c.1, files verdict leadsToDirectory (way ++ [c.1]) c.2) := by
  induction entries with
  | nil => rw [filesBelow]; rfl
  | cons c more ih =>
    obtain ⟨name, e⟩ := c
    unfold entered at ih ⊢
    cases e with
    | file octets modified => exact ih
    | link target => exact ih
    | directory entries =>
      rw [filesBelow, ih]
      by_cases h : isExcluded verdict (written (way ++ [name])) true = true
      · rw [if_pos h, List.filter_cons_of_neg (by simp [h])]
      · rw [if_neg h, List.filter_cons_of_pos (by simp [h, Entry.isDirectory]), List.map_cons]

/-- **The walk of a tree, but for its order**: the files at its root, and those of the
directories there that are entered. -/
theorem files_perm (way : Location) (e : Entry) :
    (files verdict leadsToDirectory way e).Perm
      (ownFiles verdict leadsToDirectory way e.children
        ++ (entered verdict way e.children).flatMap fun c =>
          files verdict leadsToDirectory (way ++ [c.1]) c.2) := by
  cases e with
  | file octets modified =>
    rw [files]
    · exact List.Perm.refl []
    · rintro entries ⟨⟩
  | link target =>
    rw [files]
    · exact List.Perm.refl []
    · rintro entries ⟨⟩
  | directory entries =>
    rw [files, filesBelow_eq]
    refine List.Perm.append ?_ ?_
    · exact ((List.mergeSort_perm _ _).map _).filter _
    · refine ((List.mergeSort_perm _ _).flatMap_right _).trans ?_
      rw [List.flatMap_map]
      rfl

/-! ## §3. Whole trees. -/

/-- A file stands at the location. -/
def IsFileAt (e : Entry) (l : Location) : Prop :=
  ∃ octets modified, e.get? l = some (.file octets modified)

/-- A link stands at the location. -/
def IsLinkAt (e : Entry) (l : Location) : Prop := ∃ target, e.get? l = some (.link target)

/-- The walk takes for a file what stands there below the directory that it has come to: a file,
or a link that does not lead to a directory. -/
def IsMetAt (leadsToDirectory : Location → Bool) (way : Location) (e : Entry) (rest : Location) :
    Prop :=
  IsFileAt e rest ∨ IsLinkAt e rest ∧ leadsToDirectory (way ++ rest) = false

/-- What stands at a location stands at the rest of it below a child. -/
theorem get?_cons_eq_some_iff {e f : Entry} (h : e.isNamed = true) {name : String}
    {rest : Location} :
    e.get? (name :: rest) = some f
      ↔ ∃ child, (name, child) ∈ e.children ∧ child.get? rest = some f := by
  rw [Entry.get?_cons, Option.bind_eq_some_iff]
  simp only [Entry.lookup_eq_some_iff (Entry.nodup_children h)]

theorem isMetAt_cons_iff {e : Entry} (h : e.isNamed = true) {way rest : Location} {name : String} :
    IsMetAt leadsToDirectory way e (name :: rest)
      ↔ ∃ child, (name, child) ∈ e.children
        ∧ IsMetAt leadsToDirectory (way ++ [name]) child rest := by
  unfold IsMetAt IsFileAt IsLinkAt
  simp only [get?_cons_eq_some_iff h, List.append_assoc, List.singleton_append]
  constructor
  · rintro (⟨octets, modified, child, hc, hfile⟩ | ⟨⟨target, child, hc, hlink⟩, hleads⟩)
    · exact ⟨child, hc, Or.inl ⟨octets, modified, hfile⟩⟩
    · exact ⟨child, hc, Or.inr ⟨⟨target, hlink⟩, hleads⟩⟩
  · rintro ⟨child, hc, ⟨octets, modified, hfile⟩ | ⟨⟨target, hlink⟩, hleads⟩⟩
    · exact Or.inl ⟨octets, modified, child, hc, hfile⟩
    · exact Or.inr ⟨⟨target, child, hc, hlink⟩, hleads⟩

/-- A location that goes on leads through a directory. -/
theorem isDirectory_of_isMetAt {e : Entry} {way rest : Location} {name : String}
    (h : IsMetAt leadsToDirectory way e (name :: rest)) : e.isDirectory = true := by
  cases e with
  | file octets modified => rcases h with ⟨_, _, hfile⟩ | ⟨⟨_, hlink⟩, -⟩ <;> contradiction
  | link target => rcases h with ⟨_, _, hfile⟩ | ⟨⟨_, hlink⟩, -⟩ <;> contradiction
  | directory entries => rfl

/-- The names of files are those under which something stands that is met. -/
theorem mem_fileNames_iff {way : Location} {e : Entry} (hnamed : e.isNamed = true)
    {name : String} :
    name ∈ fileNames leadsToDirectory way e.children
      ↔ IsMetAt leadsToDirectory way e [name] := by
  unfold fileNames
  rw [isMetAt_cons_iff hnamed]
  constructor
  · intro hname
    obtain ⟨⟨_, child⟩, hc, rfl⟩ := List.mem_map.mp hname
    obtain ⟨hc, hkind⟩ := List.mem_filter.mp hc
    refine ⟨child, hc, ?_⟩
    cases child with
    | file octets modified => exact Or.inl ⟨octets, modified, rfl⟩
    | directory entries => cases hkind
    | link target =>
      refine Or.inr ⟨⟨target, rfl⟩, ?_⟩
      rw [List.append_nil]
      simpa using hkind
  · rintro ⟨child, hc, hmet⟩
    refine List.mem_map.mpr ⟨_, List.mem_filter.mpr ⟨hc, ?_⟩, rfl⟩
    rcases hmet with ⟨octets, modified, hfile⟩ | ⟨⟨target, hlink⟩, hleads⟩
    · obtain rfl : child = .file octets modified := Option.some.inj hfile
      rfl
    · obtain rfl : child = .link target := Option.some.inj hlink
      rw [List.append_nil] at hleads
      simp [hleads]

theorem mem_ownFiles_iff {way : Location} {e : Entry} (hnamed : e.isNamed = true) {l : Location} :
    l ∈ ownFiles verdict leadsToDirectory way e.children
      ↔ ∃ name, l = way ++ [name] ∧ IsMetAt leadsToDirectory way e [name]
        ∧ keeps verdict way [name] = true := by
  unfold ownFiles
  constructor
  · intro hl
    obtain ⟨hmap, hkept⟩ := List.mem_filter.mp hl
    obtain ⟨name, hname, rfl⟩ := List.mem_map.mp hmap
    exact ⟨name, rfl, (mem_fileNames_iff hnamed).mp hname, hkept⟩
  · rintro ⟨name, rfl, hmet, hkept⟩
    refine List.mem_filter.mpr ⟨List.mem_map_of_mem ?_, hkept⟩
    exact (mem_fileNames_iff hnamed).mpr hmet

/-- **The walk of a tree meets what the verdict keeps all the way down**: files, and links that
do not lead to directories. -/
theorem mem_files_iff_isMetAt (e : Entry) :
    ∀ {way : Location}, e.isNamed = true → ∀ {l : Location},
      l ∈ files verdict leadsToDirectory way e
        ↔ ∃ rest, l = way ++ rest ∧ rest ≠ [] ∧ IsMetAt leadsToDirectory way e rest
          ∧ keeps verdict way rest = true := by
  induction e using Entry.inductionOnChildren with
  | step e ih =>
    intro way hnamed l
    rw [(files_perm way e).mem_iff, List.mem_append, mem_ownFiles_iff hnamed]
    constructor
    · rintro (⟨name, rfl, hmet, hkept⟩ | hbelow)
      · exact ⟨[name], rfl, List.cons_ne_nil _ _, hmet, hkept⟩
      · obtain ⟨c, hc, hl⟩ := List.mem_flatMap.mp hbelow
        obtain ⟨hc, hentered⟩ := List.mem_filter.mp hc
        obtain ⟨-, hentered⟩ := Bool.and_eq_true _ _ ▸ hentered
        obtain ⟨rest, rfl, hne, hmet, hkept⟩ := (ih c hc (Entry.isNamed_child hnamed hc).2).mp hl
        refine ⟨c.1 :: rest, ?_, List.cons_ne_nil _ _,
          (isMetAt_cons_iff hnamed).mpr ⟨c.2, hc, hmet⟩, ?_⟩
        · rw [List.append_assoc, List.singleton_append]
        · cases rest with
          | nil => exact absurd rfl hne
          | cons next rest => exact Bool.and_eq_true _ _ ▸ ⟨hentered, hkept⟩
    · rintro ⟨rest, rfl, hne, hmet, hkept⟩
      cases rest with
      | nil => exact absurd rfl hne
      | cons name rest =>
        cases rest with
        | nil => exact Or.inl ⟨name, rfl, hmet, hkept⟩
        | cons next rest =>
          -- the way goes on below a child, which the walk enters
          obtain ⟨child, hc, hmet⟩ := (isMetAt_cons_iff hnamed).mp hmet
          obtain ⟨hentered, hkept⟩ := Bool.and_eq_true _ _ ▸ hkept
          refine Or.inr (List.mem_flatMap.mpr ⟨(name, child), List.mem_filter.mpr ⟨hc,
            Bool.and_eq_true _ _ ▸ ⟨isDirectory_of_isMetAt hmet, hentered⟩⟩, ?_⟩)
          refine (ih (name, child) hc (Entry.isNamed_child hnamed hc).2).mpr
            ⟨next :: rest, ?_, List.cons_ne_nil _ _, hmet, hkept⟩
          rw [List.append_assoc, List.singleton_append]

/-- **The walk of a tree without links meets the files that the verdict keeps all the way
down.** -/
theorem mem_files_iff (e : Entry) {at_ way : Location} (hnamed : e.isNamed = true)
    (hlinks : e.links at_ = []) {l : Location} :
    l ∈ files verdict leadsToDirectory way e
      ↔ ∃ rest, l = way ++ rest ∧ rest ≠ [] ∧ IsFileAt e rest ∧ keeps verdict way rest = true := by
  have hmet : ∀ rest, IsMetAt leadsToDirectory way e rest ↔ IsFileAt e rest :=
    fun rest => or_iff_left fun ⟨⟨target, hlink⟩, _⟩ =>
      List.not_mem_nil (hlinks ▸ Tree.mem_links hlink)
  simp only [mem_files_iff_isMetAt e hnamed, hmet]

/-- **The walk of a tree meets no file twice.** -/
theorem nodup_files (e : Entry) :
    ∀ {at_ way : Location}, e.isNamed = true → e.links at_ = [] →
      (files verdict leadsToDirectory way e).Nodup := by
  induction e using Entry.inductionOnChildren with
  | step e ih =>
    intro at_ way hnamed hlinks
    have hnames : (e.children.map (·.1)).Nodup := Entry.nodup_children hnamed
    -- what is met below a child begins with the way to it, and goes on
    have hbelow : ∀ c ∈ e.children, ∀ l ∈ files verdict leadsToDirectory (way ++ [c.1]) c.2,
        ∃ rest, l = way ++ c.1 :: rest ∧ rest ≠ [] := by
      intro c hc l hl
      obtain ⟨rest, rfl, hne, -⟩ := (mem_files_iff c.2 (Entry.isNamed_child hnamed hc).2
        (Entry.links_child hlinks hc)).mp hl
      exact ⟨rest, by rw [List.append_assoc, List.singleton_append], hne⟩
    rw [(files_perm way e).nodup_iff, List.nodup_append]
    refine ⟨?_, ?_, ?_⟩
    · have hfiles : (fileNames leadsToDirectory way e.children).Nodup :=
        hnames.sublist (List.filter_sublist.map _)
      refine (hfiles.map ?_).filter _
      exact fun a b hab => List.singleton_inj.mp (List.append_cancel_left hab)
    · refine List.nodup_flatMap.mpr ⟨?_, ?_⟩
      · intro c hc
        have hc := (List.mem_filter.mp hc).1
        exact ih c hc (Entry.isNamed_child hnamed hc).2 (Entry.links_child hlinks hc)
      · refine ((List.pairwise_map.mp hnames).filter _).imp_of_mem ?_
        intro c d hc hd hne l hlc hld
        obtain ⟨rest, rfl, -⟩ := hbelow c (List.mem_filter.mp hc).1 l hlc
        obtain ⟨rest', heq, -⟩ := hbelow d (List.mem_filter.mp hd).1 _ hld
        exact hne (List.cons.inj (List.append_cancel_left heq)).1
    · rintro l hown m hm rfl
      obtain ⟨name, rfl, -⟩ := (mem_ownFiles_iff hnamed).mp hown
      obtain ⟨c, hc, hl⟩ := List.mem_flatMap.mp hm
      obtain ⟨rest, heq, hne⟩ := hbelow c (List.mem_filter.mp hc).1 _ hl
      exact hne (List.cons.inj (List.append_cancel_left heq)).2.symm

end Content

/-! ## §4. Projects. -/

namespace Project

/-- The location is that of a file below the project's root. -/
def IsFileBelow (p : Project) (tree : Entry) (l : Location) : Prop :=
  ∃ way octets modified, way ≠ [] ∧ l = p.root ++ way
    ∧ tree.get? l = some (.file octets modified)

/-- The walk takes for a file what stands at the location: a file, or a link that does not lead to
a directory. -/
def IsMet (tree : Entry) (l : Location) : Prop :=
  Content.IsFileAt tree l ∨ Content.IsLinkAt tree l ∧ Tree.isDirectory tree l = false

/-- **The walk of a project meets what the verdict keeps on the way down from the root.** -/
theorem mem_contentFilesBy_iff_isMet {p : Project} {verdict : String → Bool} {tree : Entry}
    (hnamed : tree.isNamed = true) {l : Location} :
    l ∈ p.contentFilesBy verdict tree
      ↔ ∃ way, way ≠ [] ∧ l = p.root ++ way ∧ IsMet tree l ∧ Content.keeps verdict [] way = true := by
  have hget : ∀ way, tree.get? (p.root ++ way) = (tree.get? p.root).bind fun e => e.get? way :=
    fun way => Entry.get?_append p.root way tree
  unfold contentFilesBy IsMet Content.IsFileAt Content.IsLinkAt
  cases hroot : tree.get? p.root with
  | none =>
    refine ⟨nofun, ?_⟩
    rintro ⟨way, -, rfl, ⟨octets, modified, hfile⟩ | ⟨⟨target, hlink⟩, -⟩, -⟩
    · rw [hget, hroot] at hfile
      cases hfile
    · rw [hget, hroot] at hlink
      cases hlink
  | some e =>
    simp only [List.mem_map, Content.mem_files_iff_isMetAt e (Entry.isName_of_get? hnamed hroot).2,
      Content.IsMetAt, Content.IsFileAt, Content.IsLinkAt, List.nil_append]
    constructor
    · rintro ⟨way, ⟨_, rfl, hne, hmet, hkept⟩, rfl⟩
      rw [hget, hroot]
      exact ⟨way, hne, rfl, hmet, hkept⟩
    · rintro ⟨way, hne, rfl, hmet, hkept⟩
      rw [hget, hroot] at hmet
      exact ⟨way, ⟨way, rfl, hne, hmet, hkept⟩, rfl⟩

theorem mem_contentFilesBy_iff {p : Project} {verdict : String → Bool} {tree : Entry}
    (hnamed : tree.isNamed = true) (hlinks : ∀ e ∈ tree.get? p.root, e.links [] = [])
    {way : Location} :
    p.root ++ way ∈ p.contentFilesBy verdict tree
      ↔ (way ≠ [] ∧ Content.IsFileAt tree (p.root ++ way))
        ∧ Content.keeps verdict [] way = true := by
  have hmet : IsMet tree (p.root ++ way) ↔ Content.IsFileAt tree (p.root ++ way) := by
    refine or_iff_left ?_
    rintro ⟨⟨target, hlink⟩, -⟩
    rw [Entry.get?_append] at hlink
    obtain ⟨e, hroot, hlink⟩ := Option.bind_eq_some_iff.mp hlink
    exact List.not_mem_nil (hlinks e hroot ▸ Tree.mem_links hlink)
  rw [mem_contentFilesBy_iff_isMet hnamed, hmet, and_assoc]
  constructor
  · rintro ⟨way', hne, heq, hfile, hkept⟩
    obtain rfl := List.append_cancel_left heq
    exact ⟨hne, hfile, hkept⟩
  · rintro ⟨hne, hfile, hkept⟩
    exact ⟨way, hne, rfl, hfile, hkept⟩

/-- Whether a file belongs to the content is told from the way to it. -/
theorem isInContentBy_of_file {p : Project} {verdict : String → Bool} {tree : Entry}
    (hnamed : tree.isNamed = true) {way : Location}
    (hfile : Content.IsFileAt tree (p.root ++ way)) :
    p.isInContentBy verdict tree (p.root ++ way) = .ok (Content.keeps verdict [] way) := by
  obtain ⟨octets, modified, hfile⟩ := hfile
  have hlink : ∀ target, Entry.file octets modified ≠ .link target := fun target h => by cases h
  have hway : Location.relativeTo? (p.root ++ way) p.root = some way := by
    unfold Location.relativeTo?
    rw [if_pos (List.isPrefixOf_iff_prefix.mpr (List.prefix_append _ _)), List.drop_left]
  have hdir : Tree.isDirectory tree (p.root ++ way) = false := by
    unfold Tree.isDirectory
    rw [Tree.access_of_get? hnamed hfile hlink]
    rfl
  unfold isInContentBy way?
  rw [Tree.resolve_of_get? hnamed hfile hlink, hdir]
  simp only [Except.map, hway, Content.holds_eq_keeps]

/-- **The walk and the question for one path agree.**  In a tree with proper names, without
links below the project's root, the walk meets files below the root only and none of them
twice, and it meets a file exactly when the file belongs to the content.  The verdict on
written paths is arbitrary; that of the project's own patterns is one. -/
theorem contentFilesBy_agrees (p : Project) (verdict : String → Bool) {tree : Entry}
    (hnamed : tree.isNamed = true) (hlinks : ∀ e ∈ tree.get? p.root, e.links [] = []) :
    (p.contentFilesBy verdict tree).Nodup
      ∧ (∀ l ∈ p.contentFilesBy verdict tree, p.IsFileBelow tree l)
      ∧ ∀ l, p.IsFileBelow tree l →
        p.isInContentBy verdict tree l = .ok (decide (l ∈ p.contentFilesBy verdict tree)) := by
  have hmem : ∀ way : Location, p.root ++ way ∈ p.contentFilesBy verdict tree
      ↔ (way ≠ [] ∧ Content.IsFileAt tree (p.root ++ way))
        ∧ Content.keeps verdict [] way = true := fun way => mem_contentFilesBy_iff hnamed hlinks
  refine ⟨?_, ?_, ?_⟩
  · unfold contentFilesBy
    cases hroot : tree.get? p.root with
    | none => exact List.nodup_nil
    | some e =>
      refine (Content.nodup_files e (Entry.isName_of_get? hnamed hroot).2 (hlinks e hroot)).map ?_
      exact fun a b hab => List.append_cancel_left hab
  · intro l hl
    have hbelow : ∃ way, l = p.root ++ way := by
      unfold contentFilesBy at hl
      cases hroot : tree.get? p.root with
      | none => rw [hroot] at hl; cases hl
      | some e =>
        rw [hroot] at hl
        obtain ⟨way, -, rfl⟩ := List.mem_map.mp hl
        exact ⟨way, rfl⟩
    obtain ⟨way, rfl⟩ := hbelow
    obtain ⟨⟨hne, octets, modified, hfile⟩, -⟩ := (hmem way).mp hl
    exact ⟨way, octets, modified, hne, rfl, hfile⟩
  · rintro l ⟨way, octets, modified, hne, rfl, hfile⟩
    rw [isInContentBy_of_file hnamed ⟨octets, modified, hfile⟩]
    congr 1
    rw [Bool.eq_iff_iff, decide_eq_true_iff, hmem way]
    exact ⟨fun hkept => ⟨⟨hne, octets, modified, hfile⟩, hkept⟩, fun h => h.2⟩

/-- A file system with a project that has a file in each of two directories. -/
def twoDirectories : Entry := .directory [("proj", .directory [
  ("skip", .directory [("b.html", .file [] 0)]), ("src", .directory [("a.html", .file [] 0)])])]

/-- A directory that is left out by its path with a slash only. -/
theorem contentFilesBy_agrees_twoDirectories :
    let p : Project := ⟨["proj"], .default, [], ⟨"", [], []⟩, [], none⟩
    let verdict : String → Bool := fun path => path = "skip/"
    (twoDirectories.isNamed = true ∧ ∀ e ∈ twoDirectories.get? p.root, e.links [] = [])
      ∧ p.contentFilesBy verdict twoDirectories = [["proj", "src", "a.html"]]
      ∧ (p.contentFilesBy verdict twoDirectories).Nodup
      ∧ (∀ l ∈ p.contentFilesBy verdict twoDirectories, p.IsFileBelow twoDirectories l)
      ∧ ∀ l, p.IsFileBelow twoDirectories l → p.isInContentBy verdict twoDirectories l
        = .ok (decide (l ∈ p.contentFilesBy verdict twoDirectories)) := by
  intro p verdict
  have hnamed : twoDirectories.isNamed = true := by decide +kernel
  have hlinks : ∀ e ∈ twoDirectories.get? p.root, e.links [] = [] := by
    rintro e ⟨⟩
    decide +kernel
  refine ⟨⟨hnamed, hlinks⟩, ?_, contentFilesBy_agrees p verdict hnamed hlinks⟩
  decide +kernel

end Project

end EmbeddedExpr
