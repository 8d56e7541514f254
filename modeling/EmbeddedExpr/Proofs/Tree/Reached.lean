/-
  EmbeddedExpr.Proofs.Tree.Reached
  ────────────────────────────────
  **WHAT A PATH LEADS TO STANDS WHERE THE PATH RESOLVES TO.**

  Walking a path asks for a directory at every name and follows at most forty links.  Resolving
  it asks for nothing, opens each link once, and keeps what the target of a link led to.  Where
  the walk comes to an end the two agree, and no link is left on the way:

      access root parts = .ok (l, e)  →  resolve root parts = .ok l  ∧  Straight root l

  `Leads` is a walk without a bound, with the number of links that it follows.  Resolving follows
  the same steps (`locate_of_leads`).  It cannot come back to a link that is still open: the walk
  of its target would have to go through the same target again, and so follow more links than it
  follows (`Leads.det`).
-/
import EmbeddedExpr.Proofs.Tree.Straight

namespace EmbeddedExpr.Tree

/-! ## §1. Walks without a bound. -/

/-- The location from which the target of a link is walked. -/
def targetStart (here : Location) (target : String) : Location :=
  if isAbsolute target then [] else here

/-- Steps lead from one location to another, and follow a number of links. -/
inductive Leads (root : Entry) : Nat → Location → List Step → Location → Prop
  | done {here} : Leads root 0 here [] here
  | stay {n here rest l} : Leads root n here rest l → Leads root n here (.stay :: rest) l
  | up {n here rest l} : Leads root n here.parent rest l → Leads root n here (.up :: rest) l
  | name {n here s rest l} (free : ∀ target, root.get? (here ++ [s]) ≠ some (.link target)) :
      Leads root n (here ++ [s]) rest l → Leads root n here (.name s :: rest) l
  | link {k n here s target mid rest l} (hlink : root.get? (here ++ [s]) = some (.link target)) :
      Leads root k (targetStart here target) (stepsOf target) mid → Leads root n mid rest l →
      Leads root (k + n + 1) here (.name s :: rest) l

variable {root : Entry} {here l : Location} {n : Nat}

/-- Steps in two parts lead to a location in between. -/
theorem Leads.split {front back : List Step} :
    ∀ {n here}, Leads root n here (front ++ back) l →
      ∃ k m mid, n = k + m ∧ Leads root k here front mid ∧ Leads root m mid back l := by
  induction front with
  | nil =>
    intro n here h
    exact ⟨0, n, here, (Nat.zero_add n).symm, .done, h⟩
  | cons step front ih =>
    intro n here h
    cases h with
    | stay hrest =>
      obtain ⟨k, m, mid, rfl, hfront, hback⟩ := ih hrest
      exact ⟨k, m, mid, rfl, .stay hfront, hback⟩
    | up hrest =>
      obtain ⟨k, m, mid, rfl, hfront, hback⟩ := ih hrest
      exact ⟨k, m, mid, rfl, .up hfront, hback⟩
    | name free hrest =>
      obtain ⟨k, m, mid, rfl, hfront, hback⟩ := ih hrest
      exact ⟨k, m, mid, rfl, .name free hfront, hback⟩
    | @link k _ _ _ _ _ _ _ hlink htarget hrest =>
      obtain ⟨k', m, mid, rfl, hfront, hback⟩ := ih hrest
      exact ⟨k + k' + 1, m, mid, by omega, .link hlink htarget hfront, hback⟩

/-- **Steps lead to one location only, and follow one number of links.** -/
theorem Leads.det {steps : List Step} (h : Leads root n here steps l) :
    ∀ {n' l'}, Leads root n' here steps l' → n = n' ∧ l = l' := by
  induction h with
  | done =>
    intro n' l' h'
    cases h'
    exact ⟨rfl, rfl⟩
  | stay _ ih =>
    intro n' l' h'
    cases h' with
    | stay hrest => exact ih hrest
  | up _ ih =>
    intro n' l' h'
    cases h' with
    | up hrest => exact ih hrest
  | name free _ ih =>
    intro n' l' h'
    cases h' with
    | name _ hrest => exact ih hrest
    | link hlink _ _ => exact absurd hlink (free _)
  | link hlink _ _ ihtarget ihrest =>
    intro n' l' h'
    cases h' with
    | name free _ => exact absurd hlink (free _)
    | link hlink' htarget' hrest' =>
      -- one link has one target
      obtain rfl := Entry.link.inj (Option.some.inj (hlink.symm.trans hlink'))
      obtain ⟨rfl, rfl⟩ := ihtarget htarget'
      obtain ⟨rfl, rfl⟩ := ihrest hrest'
      exact ⟨rfl, rfl⟩

/-- Steps that lead somewhere lead to a straight location. -/
theorem Leads.straight {steps : List Step} (h : Leads root n here steps l) :
    Straight root here → Straight root l := by
  induction h with
  | done => exact fun hhere => hhere
  | stay _ ih => exact ih
  | up _ ih => exact fun hhere => ih hhere.parent
  | name free _ ih => exact fun hhere => ih (hhere.snoc free)
  | link _ _ _ ihtarget ihrest =>
    intro hhere
    refine ihrest (ihtarget ?_)
    unfold targetStart
    split
    · exact straight_nil
    · exact hhere

/-- A child of an entry is the entry one name further. -/
theorem get?_snoc {e : Entry} {s : String} (he : root.get? here = some e) :
    root.get? (here ++ [s]) = e.children.lookup s := by
  rw [Entry.get?_append, he, Option.bind_some, Entry.get?_cons]
  cases e.children.lookup s <;> rfl

/-- **A walk that reaches an entry leads there.** -/
theorem exists_leads_of_walk {budget : Nat} {steps : List Step} {e : Entry} :
    walk root budget here steps = .ok (l, e) → ∃ n, Leads root n here steps l := by
  fun_induction walk root budget here steps with
  | case1 | case3 | case6 | case7 => exact nofun
  | case2 budget here e' he =>
    intro h
    obtain rfl := (Prod.mk.inj (Except.ok.inj h)).1
    exact ⟨0, .done⟩
  | case4 budget here e' he rest hdir ih =>
    intro h
    obtain ⟨n, hn⟩ := ih h
    exact ⟨n, .stay hn⟩
  | case5 budget here e' he rest hdir ih =>
    intro h
    obtain ⟨n, hn⟩ := ih h
    exact ⟨n, .up hn⟩
  | case8 here e' he rest hdir s target hlink budget ih =>
    -- the link's target is walked first, then what was left
    intro h
    obtain ⟨n, hn⟩ := ih h
    obtain ⟨k, m, mid, rfl, htarget, hrest⟩ := hn.split
    exact ⟨k + m + 1, .link ((get?_snoc he).trans hlink) htarget hrest⟩
  | case9 budget here e' he rest hdir s child hfree hchild ih =>
    intro h
    obtain ⟨n, hn⟩ := ih h
    refine ⟨n, .name ?_ hn⟩
    intro target hlink
    rw [get?_snoc he, hchild] at hlink
    exact hfree target (Option.some.inj hlink)

/-- A walk ends at the entry that it reaches. -/
theorem get?_of_walk {budget : Nat} {steps : List Step} {e : Entry} :
    walk root budget here steps = .ok (l, e) → root.get? l = some e := by
  fun_induction walk root budget here steps with
  | case1 | case3 | case6 | case7 => exact nofun
  | case2 budget here e' he =>
    intro h
    obtain ⟨rfl, rfl⟩ := Prod.mk.inj (Except.ok.inj h)
    exact he
  | case4 budget here e' he rest hdir ih => exact ih
  | case5 budget here e' he rest hdir ih => exact ih
  | case8 here e' he rest hdir s target hlink budget ih => exact ih
  | case9 budget here e' he rest hdir s child hfree hchild ih => exact ih

/-! ## §2. Open links. -/

/-- Every link is among the links of its tree. -/
theorem mem_links {target : String} {rest : Location} :
    ∀ {e : Entry} {at_ : Location}, e.get? rest = some (.link target) →
      at_ ++ rest ∈ e.links at_ := by
  induction rest with
  | nil =>
    intro e at_ h
    obtain rfl := Option.some.inj h
    unfold Entry.links
    simp
  | cons name rest ih =>
    intro e at_ h
    rw [Entry.get?_cons] at h
    obtain ⟨child, hchild, h⟩ := Option.bind_eq_some_iff.mp h
    rw [List.append_cons]
    exact Entry.links_subset (Entry.mem_of_lookup hchild) (ih h)

/-- A link has been opened and its target is not resolved. -/
def IsOpen (unopened : List Location) (resolved : List (Location × Location))
    (link : Location) : Prop :=
  link ∉ unopened ∧ resolved.lookup link = none

/-- What is kept for links is where their targets lead. -/
def Knows (root : Entry) (resolved : List (Location × Location)) : Prop :=
  ∀ here s target known, root.get? (here ++ [s]) = some (.link target) →
    resolved.lookup (here ++ [s]) = some known →
      ∃ k, Leads root k (targetStart here target) (stepsOf target) known

/-- In the middle of resolving: the targets of links that are open follow no fewer links than
there are to follow yet. -/
structure Clear (root : Entry) (n : Nat) (unopened : List Location)
    (resolved : List (Location × Location)) : Prop where
  knows : Knows root resolved
  bound : ∀ here s target, root.get? (here ++ [s]) = some (.link target) →
    IsOpen unopened resolved (here ++ [s]) →
      ∀ k l, Leads root k (targetStart here target) (stepsOf target) l → n ≤ k

section

variable {unopened unopened' : List Location} {resolved resolved' : List (Location × Location)}
  {link other : Location}

theorem IsOpen.of_erase (h : IsOpen (unopened.erase link) resolved other) (hne : other ≠ link) :
    IsOpen unopened resolved other :=
  ⟨fun hmem => h.1 ((List.mem_erase_of_ne hne).mpr hmem), h.2⟩

/-- A link that is closed is not open, and no other link changes. -/
theorem IsOpen.of_cons {known : Location} (h : IsOpen unopened ((link, known) :: resolved) other) :
    other ≠ link ∧ IsOpen unopened resolved other := by
  have hlookup := h.2
  rw [List.lookup_cons] at hlookup
  by_cases heq : other = link
  · rw [beq_iff_eq.mpr heq] at hlookup
    cases hlookup
  · rw [beq_false_of_ne heq] at hlookup
    exact ⟨heq, h.1, hlookup⟩

theorem Knows.cons {s target : String} {k : Nat} (h : Knows root resolved)
    (hlink : root.get? (here ++ [s]) = some (.link target))
    (htarget : Leads root k (targetStart here target) (stepsOf target) l) :
    Knows root ((here ++ [s], l) :: resolved) := by
  intro here' s' target' known hlink' hknown
  rw [List.lookup_cons] at hknown
  by_cases heq : here' ++ [s'] = here ++ [s]
  · rw [beq_iff_eq.mpr heq] at hknown
    obtain rfl := Option.some.inj hknown
    obtain ⟨rfl, hs⟩ := List.append_inj' heq rfl
    obtain rfl := List.singleton_inj.mp hs
    obtain rfl := Entry.link.inj (Option.some.inj (hlink'.symm.trans hlink))
    exact ⟨k, htarget⟩
  · rw [beq_false_of_ne heq] at hknown
    exact h here' s' target' known hlink' hknown

/-- Fewer links to follow, and no new open ones. -/
theorem Clear.later {m : Nat} (h : Clear root n unopened resolved) (hm : m ≤ n)
    (hknows : Knows root resolved')
    (hopen : ∀ link, IsOpen unopened' resolved' link → IsOpen unopened resolved link) :
    Clear root m unopened' resolved' :=
  ⟨hknows, fun here s target hlink ho k l hk =>
    Nat.le_trans hm (h.bound here s target hlink (hopen _ ho) k l hk)⟩

/-- A link may be opened that takes its target's share of the links to follow. -/
theorem Clear.opened {s target : String} {k : Nat} (h : Clear root n unopened resolved)
    (hlink : root.get? (here ++ [s]) = some (.link target))
    (htarget : Leads root k (targetStart here target) (stepsOf target) l) (hk : k ≤ n) :
    Clear root k (unopened.erase (here ++ [s])) resolved := by
  refine ⟨h.knows, ?_⟩
  intro here' s' target' hlink' hopen k' l' hk'
  by_cases heq : here' ++ [s'] = here ++ [s]
  · obtain ⟨rfl, hs⟩ := List.append_inj' heq rfl
    obtain rfl := List.singleton_inj.mp hs
    obtain rfl := Entry.link.inj (Option.some.inj (hlink'.symm.trans hlink))
    exact Nat.le_of_eq (htarget.det hk').1
  · exact Nat.le_trans hk (h.bound here' s' target' hlink' (hopen.of_erase heq) k' l' hk')

end

/-! ## §3. Resolving. -/

/-- **Resolving steps that lead somewhere comes to the same location**, and leaves no link open
that it opens. -/
theorem locate_of_leads {steps : List Step} (h : Leads root n here steps l) :
    ∀ {unopened resolved}, Clear root n unopened resolved → ∀ tasks, ∃ unopened' resolved',
      locate root unopened resolved here (steps.map .step ++ tasks)
          = locate root unopened' resolved' l tasks
        ∧ Knows root resolved'
        ∧ ∀ link, IsOpen unopened' resolved' link → IsOpen unopened resolved link := by
  induction h with
  | done =>
    intro unopened resolved hclear tasks
    exact ⟨unopened, resolved, rfl, hclear.knows, fun link h => h⟩
  | stay _ ih =>
    intro unopened resolved hclear tasks
    rw [List.map_cons, List.cons_append, locate]
    exact ih hclear tasks
  | up _ ih =>
    intro unopened resolved hclear tasks
    rw [List.map_cons, List.cons_append, locate]
    exact ih hclear tasks
  | @name n here s rest l free _ ih =>
    intro unopened resolved hclear tasks
    rw [List.map_cons, List.cons_append, locate]
    split
    · next target hlink => exact absurd hlink (free target)
    · exact ih hclear tasks
  | @link k n here s target mid rest l hlink htarget hrest ihtarget ihrest =>
    intro unopened resolved hclear tasks
    rw [List.map_cons, List.cons_append, locate]
    simp only [hlink]
    by_cases hmem : here ++ [s] ∈ unopened
    · -- the link is opened, its target resolved, and the link closed
      rw [dif_pos hmem]
      obtain ⟨unopened₁, resolved₁, heq₁, hknows₁, hopen₁⟩ :=
        ihtarget (hclear.opened hlink htarget (by omega))
          (.close (here ++ [s]) :: (rest.map .step ++ tasks))
      have hknows := hknows₁.cons hlink htarget
      have hopen : ∀ link, IsOpen unopened₁ ((here ++ [s], mid) :: resolved₁) link →
          IsOpen unopened resolved link :=
        fun link ho => (hopen₁ link ho.of_cons.2).of_erase ho.of_cons.1
      obtain ⟨unopened₂, resolved₂, heq₂, hknows₂, hopen₂⟩ :=
        ihrest (hclear.later (by omega) hknows hopen) tasks
      refine ⟨unopened₂, resolved₂, ?_, hknows₂, fun link ho => hopen link (hopen₂ link ho)⟩
      rw [← heq₂, ← locate, ← heq₁]
      rfl
    · rw [dif_neg hmem]
      cases hlookup : resolved.lookup (here ++ [s]) with
      | some known =>
        -- the link was closed before, and what it led to is kept
        obtain ⟨k', hknown⟩ := hclear.knows here s target known hlink hlookup
        obtain ⟨-, rfl⟩ := hknown.det htarget
        exact ihrest (hclear.later (by omega) hclear.knows fun link ho => ho) tasks
      | none =>
        -- an open link would be followed inside its own target
        have hle := hclear.bound here s target hlink ⟨hmem, hlookup⟩ k mid htarget
        omega

section

variable {parts : List String} {e : Entry}

/-- The steps of a path that leads to an entry lead to a straight location. -/
theorem locate_of_access (h : access root parts = .ok (l, e)) :
    locate root (root.links []) [] [] ((stepsOfParts parts).map .step) = l ∧ Straight root l := by
  obtain ⟨n, hleads⟩ := exists_leads_of_walk h
  -- at first no link is open, and nothing is known
  have hclear : Clear root n (root.links []) [] := by
    constructor
    · intro here s target known _ hknown
      cases hknown
    · intro here s target hlink hopen
      exact absurd (mem_links hlink) hopen.1
  obtain ⟨unopened, resolved, heq, -, -⟩ := locate_of_leads hleads hclear []
  rw [List.append_nil] at heq
  rw [heq, locate]
  exact ⟨rfl, hleads.straight straight_nil⟩

theorem up_notMem_of_access (h : access root parts = .ok (l, e)) : ".." ∉ l := by
  have hup := up_notMem_locate root parts
  rw [(locate_of_access h).1] at hup
  exact hup

/-- **A path that leads to an entry resolves to the location of that entry.** -/
theorem resolve_of_access (h : access root parts = .ok (l, e)) : resolve root parts = .ok l :=
  resolve_of_locate (locate_of_access h).1
    (access_ne_loop_of_straight (locate_of_access h).2 (up_notMem_of_access h))

theorem get?_of_access (h : access root parts = .ok (l, e)) : root.get? l = some e := get?_of_walk h

theorem exists_resolve_of_isDirectory (h : isDirectory root parts = true) :
    ∃ l, resolve root parts = .ok l := by
  unfold isDirectory at h
  split at h
  · next l e haccess => exact ⟨l, resolve_of_access haccess⟩
  · cases h

end

end EmbeddedExpr.Tree
