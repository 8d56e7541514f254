/-
  EmbeddedExpr.Tree.Resolve
  ─────────────────────────
  **THE LOCATION THAT A PATH NAMES.**

  Resolving follows links as far as there are any and works on paths that lead to nothing.  A
  double dot takes away the last name reached.  Each link is opened once; one met again while
  it is open makes a loop, and the rest of the path is then taken as it is written.  A result
  that still leads through a loop is refused.
-/
import EmbeddedExpr.Tree.Access

namespace EmbeddedExpr.Tree

/-- A step of resolving a path. -/
inductive Task where
  | step (s : Step)
  /-- The target of the link at a location has been resolved. -/
  | close (link : Location)
  deriving DecidableEq, Repr

/-- A location with a written rest, in which double dots take away the name before them. -/
def appendWritten (here : Location) : List Task → Location
  | [] => here
  | .step (.name s) :: rest => appendWritten (here ++ [s]) rest
  | .step .up :: rest => appendWritten here.parent rest
  | .step .stay :: rest => appendWritten here rest
  | .close _ :: rest => appendWritten here rest

/-- The location that tasks lead to.  `unopened` are the links not yet opened, and `resolved`
those whose targets are known. -/
def locate (root : Entry) (unopened : List Location) (resolved : List (Location × Location))
    (here : Location) (tasks : List Task) : Location :=
  match tasks with
  | [] => here
  | .close link :: rest => locate root unopened ((link, here) :: resolved) here rest
  | .step .stay :: rest => locate root unopened resolved here rest
  | .step .up :: rest => locate root unopened resolved here.parent rest
  | .step (.name s) :: rest =>
    let next := here ++ [s]
    match root.get? next with
    | some (.link target) =>
      if _open : next ∈ unopened then
        locate root (unopened.erase next) resolved (if isAbsolute target then [] else here)
          ((stepsOf target).map .step ++ .close next :: rest)
      else match resolved.lookup next with
        | some known => locate root unopened resolved known rest
        | none => appendWritten next rest
    | _ => locate root unopened resolved next rest
termination_by (unopened.length, tasks.length)
decreasing_by
  all_goals simp_wf
  · exact .right _ (by omega)
  · exact .right _ (by omega)
  · exact .right _ (by omega)
  · refine .left _ _ ?_
    have := List.length_pos_of_mem _open
    rw [List.length_erase_of_mem _open]
    omega
  · exact .right _ (by omega)
  · exact .right _ (by omega)

/-- A path leads through a loop of links. -/
structure LinkLoop where
  location : Location
  deriving DecidableEq, Repr

/-- The location that an absolute path names. -/
def resolve (root : Entry) (parts : List String) : Except LinkLoop Location :=
  let found := locate root (root.links []) [] [] ((stepsOfParts parts).map .step)
  match access root found with
  | .error .loop => .error ⟨found⟩
  | _ => .ok found

end EmbeddedExpr.Tree
