/-
  EmbeddedExpr.Project.Content
  ────────────────────────────
  **WHAT BELONGS TO A PROJECT.**

  Content is what lies under the project's root and is not left out, nor lies in a directory
  that is.  A verdict on written paths says what is left out; a directory is left out also
  when its path with a slash is.  The walk meets exactly the files that belong to the content:
  it does not enter directories that are left out, nor links to directories.
-/
import EmbeddedExpr.Settings.File

namespace EmbeddedExpr.Content

/-! ## §1. Membership. -/

/-- The verdict leaves a path out: the project's configuration always is left out, its root
never. -/
def isExcluded (verdict : String → Bool) (path : String) (directory : Bool) : Bool :=
  if path = "" || path = "." then false
  else Config.owns path || verdict path || (directory && verdict (path ++ "/"))

/-- The text of a way down from the project's root. -/
def written (way : Location) : String := "/".intercalate way

/-- The directories that a way leads through, outermost first, without the root and without
the end of the way. -/
def ancestors (way : Location) : List Location :=
  (List.range (way.length - 1)).map fun k => way.take (k + 1)

/-- What a way down from the project's root leads to belongs to the content. -/
def holds (verdict : String → Bool) (way : Location) (directory : Bool) : Bool :=
  way.isEmpty
    || ((ancestors way).all fun above => !isExcluded verdict (written above) true)
      && !isExcluded verdict (written way) directory

/-! ## §2. The walk. -/

/-- Names in order. -/
def sorted (names : List String) : List String := names.mergeSort fun a b => a ≤ b

/-- The names of a directory's entries that are no directories. -/
def fileNames (leadsToDirectory : Location → Bool) (way : Location)
    (entries : List (String × Entry)) : List String :=
  (entries.filter fun e =>
    match e.2 with
    | .directory _ => false
    | .file _ _ => true
    | .link _ => !leadsToDirectory (way ++ [e.1])).map (·.1)

mutual
/-- The ways to the content's files under an entry: those of a directory itself, then those
of its directories, both in order. -/
def files (verdict : String → Bool) (leadsToDirectory : Location → Bool) (way : Location) :
    Entry → List Location
  | .directory entries =>
    let own := (sorted (fileNames leadsToDirectory way entries)).map fun name => way ++ [name]
    let below := filesBelow verdict leadsToDirectory way entries
    (own.filter fun file => !isExcluded verdict (written file) false)
      ++ (below.mergeSort fun a b => a.1 ≤ b.1).flatMap (·.2)
  | _ => []
/-- The ways to the content's files under the directories among entries, with the names of
those directories. -/
def filesBelow (verdict : String → Bool) (leadsToDirectory : Location → Bool)
    (way : Location) : List (String × Entry) → List (String × List Location)
  | [] => []
  | (name, e) :: more =>
    let rest := filesBelow verdict leadsToDirectory way more
    match e with
    | .directory entries =>
      if isExcluded verdict (written (way ++ [name])) true then rest
      else (name, files verdict leadsToDirectory (way ++ [name]) (.directory entries)) :: rest
    | _ => rest
end

end EmbeddedExpr.Content
