/-
  EmbeddedExpr.Proofs.Command.Offsets
  ───────────────────────────────────
  **WHERE A REPORT SAYS THAT EXPRESSIONS STAND.**

  A scan reads its document with every line end as one line feed, and reports offsets of the text
  that it has read.  In the file there are more characters: each carriage return with a line feed
  after it counts for one only.  So an offset is the place in the file less the number of those
  pairs before it,

      i.absolute.start + pairs front = front.length

  and what stands at the place is the expression, but for the way its line ends are written
  (`Injection.FoundAt`, `scan_located`).  Where no pair stands before it, the offsets name the
  expression in the file itself exactly when there is no carriage return in it.  One blank line with
  a pair at its end, at the head of a file, is enough for them not to (`not_forall_indexed`).
-/
import Mathlib
import EmbeddedExpr.Command.Run
import EmbeddedExpr.Proofs.Answers
import EmbeddedExpr.Proofs.Injection.Placement
import EmbeddedExpr.Proofs.Text.Lines
import EmbeddedExpr.Proofs.Tree.Named

namespace EmbeddedExpr

open Text (unifyBreaks pairs)

/-! ## §1. Places in a file. -/

/-- The expression that has been found in the text of a file stands in the file between `front` and
`back`. -/
structure Injection.FoundAt (content : List Char) (i : Injection) (front body back : List Char) :
    Prop where
  split : content = front ++ body ++ back
  /-- What stands there is the expression, with its line ends as the file has them. -/
  text : unifyBreaks body = i.text
  /-- Every pair before the expression makes its offset less by one than its place in the file. -/
  start : i.absolute.start + pairs front = front.length
  /-- Every pair in the expression makes it shorter by one than it is in the file. -/
  length : i.absolute.stop - i.absolute.start + pairs body = body.length

namespace Injection

variable {content : List Char} {i : Injection}

/-- **An expression that stands in the text of a file stands in the file.** -/
theorem exists_foundAt (hinside : 0 ≤ i.absolute.start ∧ i.absolute.start < i.absolute.stop
      ∧ i.absolute.stop ≤ (unifyBreaks content).length)
    (htext : i.absolute.substring (unifyBreaks content) = i.text) :
    ∃ front body back, i.FoundAt content front body back := by
  obtain ⟨hlow, hlt, hup⟩ := hinside
  -- the bounds are natural numbers, so no index counts from the end
  obtain ⟨a, ha⟩ := Int.eq_ofNat_of_zero_le hlow
  obtain ⟨b, hb⟩ := Int.eq_ofNat_of_zero_le (Int.le_of_lt (Int.lt_of_le_of_lt hlow hlt))
  have hab : a ≤ b := by omega
  have hbl : b ≤ (unifyBreaks content).length := by omega
  have hslice : ((unifyBreaks content).take b).drop a = i.text := by
    rw [← htext]
    unfold Region.substring
    rw [ha, hb, Text.slice_natCast hab hbl]
  -- the file is cut where the expression ends, and what is before that where it starts
  obtain ⟨whole, back, hwhole, hread, -⟩ := Text.exists_split_of_unifyBreaks b hbl
  have hlength : (unifyBreaks whole).length = b := by
    rw [hread, List.length_take]
    omega
  obtain ⟨front, body, rfl, hfront, hbody⟩ :=
    Text.exists_split_of_unifyBreaks (s := whole) a (by omega)
  have hfrontLength : (unifyBreaks front).length = a := by
    rw [hfront, List.length_take]
    omega
  have hbodyLength : (unifyBreaks body).length = b - a := by
    rw [hbody, List.length_drop]
    omega
  have hfrontPairs := Text.length_unifyBreaks front
  have hbodyPairs := Text.length_unifyBreaks body
  refine ⟨front, body, back, hwhole, ?_, by omega, by omega⟩
  rw [hbody, hread, hslice]

variable {front body back : List Char}

/-- **Without pairs before it, the offsets name an expression exactly when there is no carriage
return in it.** -/
theorem FoundAt.substring_eq_iff (h : i.FoundAt content front body back) (hnone : pairs front = 0) :
    i.absolute.substring content = i.text ↔ '\r' ∉ body := by
  have hstart : i.absolute.start = (front.length : Nat) := by
    have hplace := h.start
    omega
  have hstop : i.absolute.stop = (front.length + (unifyBreaks body).length : Nat) := by
    have hshorter := h.length
    have hpairs := Text.length_unifyBreaks body
    omega
  have hbound : front.length + (unifyBreaks body).length ≤ content.length := by
    have hpairs := Text.length_unifyBreaks body
    rw [h.split, List.length_append, List.length_append]
    omega
  have hsub : i.absolute.substring content = (body ++ back).take (unifyBreaks body).length := by
    unfold Region.substring
    rw [hstart, hstop, Text.slice_natCast (Nat.le_add_right _ _) hbound, h.split,
      List.append_assoc, List.drop_take, List.drop_left, Nat.add_sub_cancel_left]
  rw [hsub, ← h.text]
  exact Text.take_eq_unifyBreaks_iff body back

/-- In a file without carriage returns, the offsets name the expression. -/
theorem FoundAt.substring_eq (h : i.FoundAt content front body back) (hcontent : '\r' ∉ content) :
    i.absolute.substring content = i.text := by
  rw [h.split] at hcontent
  have hfront : '\r' ∉ front := fun hmem => hcontent (by simp [hmem])
  have hbody : '\r' ∉ body := fun hmem => hcontent (by simp [hmem])
  exact (h.substring_eq_iff (Text.pairs_of_notMem hfront)).mpr hbody

end Injection

/-- The expressions that a scan has found, and where in the file they stand. -/
structure Located (content : List Char) (found : List Injection) : Prop where
  nonempty : ∀ i ∈ found, i.absolute.start < i.absolute.stop
  ordered : found.Pairwise fun i k =>
    i.absolute.start < k.absolute.start ∧ i.absolute.stop ≤ k.absolute.start
  place : ∀ i ∈ found, ∃ front body back, i.FoundAt content front body back
    ∧ (pairs front = 0 → (i.absolute.substring content = i.text ↔ '\r' ∉ body))
  plain : '\r' ∉ content → ∀ i ∈ found, i.absolute.substring content = i.text

theorem Placed.located {content : List Char} {found : List Injection}
    (h : Placed (unifyBreaks content) found) : Located content found := by
  have hplace : ∀ i ∈ found, ∃ front body back, i.FoundAt content front body back := by
    intro i hi
    obtain ⟨hlow, hup⟩ := h.inside i hi
    exact Injection.exists_foundAt ⟨hlow, h.nonempty i hi, hup⟩ (h.text_eq i hi)
  constructor
  case nonempty => exact h.nonempty
  case ordered => exact h.ordered
  case place =>
    intro i hi
    obtain ⟨front, body, back, hfound⟩ := hplace i hi
    exact ⟨front, body, back, hfound, hfound.substring_eq_iff⟩
  case plain =>
    intro hcontent i hi
    obtain ⟨front, body, back, hfound⟩ := hplace i hi
    exact hfound.substring_eq hcontent

/-! ## §2. Scans. -/

namespace Command

variable {tree : Entry} {current : Location} {file : String} {opening closing : Option String}
  {force : Bool} {root : Option String}

/-- The report on the text of a document, in the project that the command works on. -/
def textReport (tree : Entry) (project : Project) (path : Path) (opening closing : Option String)
    (text : List Char) : Data :=
  scanReport path.render project.settings.language
    (project.injections tree
      { project.injector with delimiters := chosen project.injector.delimiters opening closing }
      text (some path.name)).1

/-- A scan has three steps that may fail, and then a report. -/
theorem carryOut_scan :
    carryOut tree current (.scan file opening closing force root)
      = (do
        let loaded ← projectFor tree current root
        let project ← (if force = true then forced tree loaded else .ok loaded)
        let text ← documentText tree current (Path.ofString file)
        .ok (textReport tree project (Path.ofString file) opening closing text)) := by
  cases force with
  | true => rfl
  | false => rfl

theorem carryOut_scan_eq_ok_iff {data : Data} :
    carryOut tree current (.scan file opening closing force root) = .ok data
      ↔ ∃ loaded, projectFor tree current root = .ok loaded
        ∧ ∃ project, (if force = true then forced tree loaded else .ok loaded) = .ok project
        ∧ ∃ text, documentText tree current (Path.ofString file) = .ok text
        ∧ textReport tree project (Path.ofString file) opening closing text = data := by
  simp only [carryOut_scan, bind_eq_ok_iff, Except.ok.injEq]

/-- The text of a document is that of a file, with its line ends written as line feeds. -/
theorem documentText_eq_ok {path : Path} {text : List Char}
    (h : documentText tree current path = .ok text) :
    ∃ octets content, Tree.octets tree (partsAt current path) = .ok octets
      ∧ Text.Utf8.decode? octets = some content ∧ text = unifyBreaks content := by
  unfold documentText Manifest.fileText at h
  dsimp only at h
  split at h
  · cases hoctets : Tree.octets tree (partsAt current path) with
    | error fault =>
      rw [hoctets] at h
      cases h
    | ok octets =>
      rw [hoctets] at h
      cases hcontent : Text.Utf8.decode? octets with
      | none =>
        simp only [hcontent] at h
        cases h
      | some content =>
        simp only [hcontent] at h
        exact ⟨octets, content, rfl, hcontent, (Except.ok.inj h).symm⟩
  · cases h

/-- **What a scan reports is found in the file**, in order and without overlaps: every offset is the
place in the file less the number of pairs before it.  In a file without carriage returns the offsets
name the expressions. -/
theorem scan_located {args : List String} {report : String}
    (hrequest : request? args = some (.scan file opening closing force root))
    (hrun : run tree current args = .report report) :
    ∃ octets content language found,
      Tree.octets tree (partsAt current (Path.ofString file)) = .ok octets
      ∧ Text.Utf8.decode? octets = some content
      ∧ report = String.ofList (Json.write (scanReport (Path.ofString file).render language found))
      ∧ Located content found := by
  unfold run at hrun
  simp only [hrequest] at hrun
  cases hdata : carryOut tree current (.scan file opening closing force root) with
  | error why =>
    rw [hdata] at hrun
    cases hrun
  | ok data =>
    rw [hdata] at hrun
    obtain ⟨-, -, project, -, text, htext, rfl⟩ := carryOut_scan_eq_ok_iff.mp hdata
    obtain ⟨octets, content, hoctets, hcontent, rfl⟩ := documentText_eq_ok htext
    have hplaced := project.injections_placed tree
      { project.injector with delimiters := chosen project.injector.delimiters opening closing }
      (unifyBreaks content) (some (Path.ofString file).name)
    exact ⟨octets, content, _, _, hoctets, hcontent, (Outcome.report.inj hrun).symm,
      hplaced.located⟩

/-! ## §3. A pair before an expression. -/

/-- A directory with a document whose first line is blank and ends in a pair. -/
def blankLineTree : Entry :=
  .directory [("a.html", .file "\r\n\x7b\x7bb\x7d\x7d".toUTF8.toList 0)]

/-- The expression of the document. -/
def blankLineInjection : Injection :=
  ⟨⟨.text, 0, "\n\x7b\x7bb\x7d\x7d".toList⟩, ⟨3, 4⟩, "AngularJS"⟩

theorem request?_blankLine :
    request? ["scan", "a.html", "--force"] = some (.scan "a.html" none none true none) := by
  decide +kernel

theorem octets_blankLine :
    Tree.octets blankLineTree (partsAt [] (Path.ofString "a.html"))
      = .ok "\r\n\x7b\x7bb\x7d\x7d".toUTF8.toList := by
  apply eq_ok_of_toOption
  cbv

theorem projectFor_blankLine :
    ∃ loaded, projectFor blankLineTree [] none = .ok loaded ∧ loaded.root = []
      ∧ loaded.settings = Settings.default := by
  have hkept : (projectFor blankLineTree [] none).toOption.map (fun p => (p.root, p.settings))
      = some ([], Settings.default) := by cbv
  obtain ⟨loaded, hloaded, hkept⟩ := exists_of_toOption_map hkept
  obtain ⟨hroot, hsettings⟩ := Prod.mk.inj hkept
  exact ⟨loaded, hloaded, hroot, hsettings⟩

/-- The settings that are forced have expressions looked for, without a look at the content. -/
theorem ofSettings_blankLine :
    ∃ project, Project.ofSettings blankLineTree [] { Settings.default with mode := .on } = .ok project
      ∧ project.settings = { Settings.default with mode := .on }
      ∧ ∀ j s name, (project.injections blankLineTree j s name).1 = j.injections s name := by
  have hkept : (Project.ofSettings blankLineTree []
      { Settings.default with mode := .on }).toOption.map (fun p => (p.settings, p.usesFramework?))
        = some ({ Settings.default with mode := .on }, none) := by cbv
  obtain ⟨project, hproject, hkept⟩ := exists_of_toOption_map hkept
  obtain ⟨hon, hunknown⟩ := Prod.mk.inj hkept
  refine ⟨project, hproject, hon, ?_⟩
  intro j s name
  unfold Project.injections Project.hasFramework Project.detectFramework
  rw [hunknown, hon]
  rfl

/-- The scan reports the expression at offsets of the text that is read. -/
theorem run_blankLine :
    run blankLineTree [] ["scan", "a.html", "--force"] = .report (String.ofList (Json.write
      (scanReport (Path.ofString "a.html").render "AngularJS" [blankLineInjection]))) := by
  obtain ⟨loaded, hloaded, hroot, hsettings⟩ := projectFor_blankLine
  obtain ⟨project, hproject, hon, hinjections⟩ := ofSettings_blankLine
  have hforced : forced blankLineTree loaded = .ok project := by
    unfold forced
    rw [hroot, hsettings, hproject]
    rfl
  have htext : documentText blankLineTree [] (Path.ofString "a.html")
      = .ok "\n\x7b\x7bb\x7d\x7d".toList := eq_ok_of_toOption (by cbv)
  have hfound : (Injector.mk (.ofExtra []) Delimiters.standard "AngularJS").injections
      "\n\x7b\x7bb\x7d\x7d".toList (some (Path.ofString "a.html").name)
        = [blankLineInjection] := by
    decide +kernel
  have hreport : textReport blankLineTree project (Path.ofString "a.html") none none
      "\n\x7b\x7bb\x7d\x7d".toList
        = scanReport (Path.ofString "a.html").render "AngularJS" [blankLineInjection] := by
    unfold textReport Project.injector Project.registry
    rw [hinjections, hon, ← hfound]
    rfl
  have hdata : carryOut blankLineTree [] (.scan "a.html" none none true none)
      = .ok (scanReport (Path.ofString "a.html").render "AngularJS" [blankLineInjection]) := by
    apply carryOut_scan_eq_ok_iff.mpr
    exact ⟨loaded, hloaded, project, hforced, _, htext, hreport⟩
  unfold run
  rw [request?_blankLine]
  dsimp only
  rw [hdata]

/-- A scan of a document whose first line is blank. -/
theorem scan_located_blankLine :
    request? ["scan", "a.html", "--force"] = some (.scan "a.html" none none true none)
      ∧ run blankLineTree [] ["scan", "a.html", "--force"] = .report (String.ofList (Json.write
        (scanReport (Path.ofString "a.html").render "AngularJS" [blankLineInjection])))
      ∧ ∃ octets content language found,
        Tree.octets blankLineTree (partsAt [] (Path.ofString "a.html")) = .ok octets
        ∧ Text.Utf8.decode? octets = some content
        ∧ String.ofList (Json.write
            (scanReport (Path.ofString "a.html").render "AngularJS" [blankLineInjection]))
          = String.ofList (Json.write (scanReport (Path.ofString "a.html").render language found))
        ∧ Located content found :=
  ⟨request?_blankLine, run_blankLine, scan_located request?_blankLine run_blankLine⟩

/-- The offsets that a scan reports need not name the expressions in the file. -/
theorem not_forall_indexed :
    ¬ ∀ (tree : Entry) (current : Location) (args : List String) (file : String)
        (opening closing : Option String) (force : Bool) (root : Option String)
        (octets : List UInt8) (content : List Char) (language : String) (found : List Injection),
      request? args = some (.scan file opening closing force root) →
        Tree.octets tree (partsAt current (Path.ofString file)) = .ok octets →
          Text.Utf8.decode? octets = some content →
            run tree current args = .report (String.ofList (Json.write
              (scanReport (Path.ofString file).render language found))) →
              ∀ i ∈ found, i.absolute.substring content = i.text := by
  intro h
  have hcontent : Text.Utf8.decode? "\r\n\x7b\x7bb\x7d\x7d".toUTF8.toList
      = some "\r\n\x7b\x7bb\x7d\x7d".toList := by decide +kernel
  have hindexed := h _ _ _ _ _ _ _ _ _ _ _ _ request?_blankLine octets_blankLine hcontent
    run_blankLine blankLineInjection List.mem_cons_self
  exact absurd hindexed (by decide +kernel)

end Command

end EmbeddedExpr
