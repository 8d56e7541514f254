/-
  EmbeddedExpr.Main
  ─────────────────
  **THE COMMAND LINE.**

  Commands work on a tree of files.  Here the tree is made from the file system: the whole
  project, and what stands on the way to each path that the arguments or the settings name.
-/
import EmbeddedExpr.Command.Run

namespace EmbeddedExpr.Command

/-! ## §1. Single places. -/

/-- The place of a location in the file system. -/
def placeOf (l : Location) : IO IO.FS.DirEntry := do
  pure ⟨← IO.currentDir, l.render⟩

/-- What kind of entry stands at a place, if there is one. -/
def kindAt? (place : IO.FS.DirEntry) : IO (Option IO.FS.FileType) := do
  try pure (some (← place.path.symlinkMetadata).type)
  catch _ => pure none

/-- A name that no entry of a directory can have. -/
def noName : String := "\x00"

/-- The link at a place.  One that leads nowhere keeps doing so. -/
def linkAt (place : IO.FS.DirEntry) : IO Entry := do
  try pure (.link (toString (← IO.FS.realPath place.path)))
  catch _ => pure (.link noName)

/-- The file at a place, with its contents if they are asked for. -/
def fileAt (place : IO.FS.DirEntry) (asked : Bool) : IO Entry := do
  let modified := (← place.path.metadata).modified
  let octets ← if asked then IO.FS.readBinFile place.path else pure .empty
  pure (.file octets.toList (modified.sec * 1000000000 + modified.nsec.toNat))

/-! ## §2. Trees. -/

/-- The names of the files that every command may read. -/
def readNames : List String :=
  [Config.settingsName, Project.ignoreName, Project.packageName, Manifest.fileName]

/-- The entry at a place, with all that is under it. -/
partial def entryAt (place : IO.FS.DirEntry) : IO Entry := do
  match ← kindAt? place with
  | some .dir =>
    let inside ← place.path.readDir
    pure (.directory (← inside.toList.mapM fun e => do pure (e.fileName, ← entryAt e)))
  | some .symlink => linkAt place
  | _ => fileAt place (readNames.contains place.fileName)

/-- The tree with what stands on the way that names lead from a location.  Links are
followed. -/
partial def addWay (tree : Entry) (here : Location) : List String → IO Entry
  | [] => pure tree
  | ".." :: rest => addWay tree here.parent rest
  | name :: rest => do
    let next := here ++ [name]
    let place ← placeOf next
    match ← kindAt? place with
    | none => pure tree
    | some .dir =>
      addWay (if (tree.get? next).isSome then tree else tree.put .empty next) next rest
    | some .symlink =>
      match ← linkAt place with
      | .link target =>
        addWay (tree.put (.link target) next) [] ((Path.ofString target).parts ++ rest)
      | _ => pure tree
    | some _ => pure (tree.put (← fileAt place true) next)

/-- The tree with what stands on the way to each of some paths. -/
def addWays (tree : Entry) (paths : List (List String)) : IO Entry :=
  paths.foldlM (fun tree path => addWay tree [] path) tree

/-! ## §3. The tree of a command. -/

/-- The directory of the project that a request is about, as written, and its file. -/
def Request.paths : Request → Option String × Option String
  | .scan file _ _ _ root => (root, some file)
  | .manifest file root => (root, some file)
  | .attributes root => (root, none)

/-- The paths that the modules of settings name. -/
def modulePaths (root : Location) (s : Settings) : List (List String) :=
  s.modules.flatMap fun m =>
    let listed := ((m.options.lookup Manifest.rootsOption).map Manifest.listedRoots).getD []
    (m.root :: listed).map (Project.partsFrom root)

/-- The tree with a project and what its settings name. -/
def addProject (tree : Entry) (project : List String) : IO Entry := do
  let tree ← addWay tree [] project
  match Tree.resolve tree project with
  | .error _ => pure tree
  | .ok root =>
    if !Tree.isDirectory tree root then pure tree
    else
      let tree := tree.put (← entryAt (← placeOf root)) root
      let tree ← addWays tree (tree.links [])
      match Settings.load tree root with
      | .ok settings => addWays tree (modulePaths root settings)
      | .error _ => pure tree

/-- The tree that a request is carried out in. -/
def treeOf (current : Location) (request : Request) : IO Entry := do
  let (root, file) := request.paths
  let at_ := fun (written : String) => partsAt current (Path.ofString written)
  let tree ← addProject .empty ((root.map at_).getD current)
  addWays tree ((file.map at_).toList)

/-- How the program is called. -/
def usageLine : String :=
  "usage: scan FILE [--start START] [--end END] [--force] [--root ROOT]\n" ++
  "       manifest FILE [--root ROOT]\n" ++
  "       list attributes [--root ROOT]"

end EmbeddedExpr.Command

open EmbeddedExpr EmbeddedExpr.Command in
/-- Carries out the command that the arguments spell. -/
def main (args : List String) : IO UInt32 := do
  let current := (Path.ofString (toString (← IO.currentDir))).parts
  let tree ← match request? args with
    | some request => treeOf current request
    | none => pure .empty
  match run tree current args with
  | .usage =>
    IO.eprintln usageLine
    pure 2
  | .report text =>
    IO.print text
    pure 0
  | .refused why =>
    match why.message? with
    | some message =>
      IO.eprint (errorLine message)
      pure 2
    | none =>
      IO.eprintln "The project's settings or patterns cannot be used."
      pure 1
