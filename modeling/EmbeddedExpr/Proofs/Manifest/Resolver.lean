/-
  EmbeddedExpr.Proofs.Manifest.Resolver
  ─────────────────────────────────────
  **A RESOLVER AND THE CACHE THAT IT IS GIVEN.**

  The owner of a cache gives it to a resolver and goes on using it.  A cache in which manifests
  are kept is shared from then on: however the turns of the two alternate, the questions for
  names are requests to this cache, and its sources are those that it has at the time:

      (of c).run make make' ts  =  the replies of  c.run make (ts.map Turn.moment)

  A cache in which nothing is kept is not taken.  The resolver has one of its own, and neither
  of the two caches learns what the other is asked (`after_of_empty`).  A document that was
  open when the resolver was made is then not seen.

  A resolver that is given a store takes it as it takes the store's cache, and its questions for
  names are its turns (`Lent.nameAt_store`).  One that takes the store works on the store itself
  (`Lent.WorksOn`).
-/
import EmbeddedExpr.Proofs.Manifest.History

namespace EmbeddedExpr.Manifest

variable {π κ σ ε τ φ σ' ε' τ' : Type}

/-! ## §1. Turns. -/

/-- What is asked: something of the cache, or the name at a path of the resolver. -/
inductive Asked (π : Type) where
  | request (r : Request π)
  | name (path : π)

/-- What is asked, the sources of the cache that was given, and those that a new cache would
have. -/
structure Turn (π κ σ ε τ φ σ' ε' τ' : Type) where
  sources : Sources π κ σ ε τ φ
  newSources : Sources π κ σ' ε' τ' φ
  asked : Asked π

/-- What a turn gives. -/
inductive Reply where
  | manifest (info : Option Info) (didRead : Bool)
  | name (text : Option String)

/-- The name in an answer. -/
def Reply.ofName (a : Cache.Answer κ σ Info) : Reply := .name (a.value.bind Store.nameOf?)

namespace Turn

/-- The turn as a request to the cache that was given. -/
def moment (t : Turn π κ σ ε τ φ σ' ε' τ') : Moment π κ σ ε τ φ :=
  match t.asked with
  | .request r => ⟨t.sources, r⟩
  | .name path => ⟨t.sources, .get path⟩

/-- The reply for an answer to that request. -/
def reply (t : Turn π κ σ ε τ φ σ' ε' τ') (a : Cache.Answer κ σ Info) : Reply :=
  match t.asked with
  | .request _ => .manifest a.value a.didRead
  | .name _ => .ofName a

/-- The request of the owner. -/
def ownerMoment? (t : Turn π κ σ ε τ φ σ' ε' τ') : Option (Moment π κ σ ε τ φ) :=
  match t.asked with
  | .request r => some ⟨t.sources, r⟩
  | .name _ => none

/-- The question to the resolver, as a request to a cache of its own. -/
def ownMoment? (t : Turn π κ σ ε τ φ σ' ε' τ') : Option (Moment π κ σ' ε' τ' φ) :=
  match t.asked with
  | .request _ => none
  | .name path => some ⟨t.newSources, .get path⟩

end Turn

/-! ## §2. A cache and the resolver that it is given to. -/

/-- A cache that was given to a resolver. -/
structure Lent (κ σ σ' : Type) where
  given : Cache κ σ Info
  /-- The resolver's own cache, if it does not work on the given one. -/
  own? : Option (Cache κ σ' Info)

namespace Lent

/-- The cache is given to a new resolver, which has one of its own if it does not take it. -/
def of (c : Cache κ σ Info) : Lent κ σ σ' := ⟨c, if c.isTaken then none else some .empty⟩

theorem of_of_kept {c : Cache κ σ Info} (h : c.size ≠ 0) : (of c : Lent κ σ σ') = ⟨c, none⟩ := by
  rw [of, if_pos (show c.isTaken = true from decide_eq_true h)]

theorem of_of_empty {c : Cache κ σ Info} (h : c.size = 0) :
    (of c : Lent κ σ σ') = ⟨c, some .empty⟩ := by
  rw [of, if_neg (show ¬ c.isTaken = true from fun ht => of_decide_eq_true ht h)]

variable [DecidableEq κ] [DecidableEq σ] [DecidableEq σ']

/-- A turn: the reply, and the caches after it. -/
def step (make : τ → Option Info) (make' : τ' → Option Info) (l : Lent κ σ σ')
    (t : Turn π κ σ ε τ φ σ' ε' τ') : Except φ Reply × Lent κ σ σ' :=
  match t.asked, l.own? with
  | .name path, some own =>
    ((own.serve make' ⟨t.newSources, .get path⟩).map .ofName,
      { l with own? := some (own.next make' ⟨t.newSources, .get path⟩) })
  | _, _ =>
    ((l.given.serve make t.moment).map t.reply, { l with given := l.given.next make t.moment })

/-- The replies to turns, one after the other. -/
def run (make : τ → Option Info) (make' : τ' → Option Info) (l : Lent κ σ σ') :
    List (Turn π κ σ ε τ φ σ' ε' τ') → List (Except φ Reply)
  | [] => []
  | t :: more => (l.step make make' t).1 :: run make make' (l.step make make' t).2 more

/-- The caches after turns, one after the other. -/
def after (make : τ → Option Info) (make' : τ' → Option Info) (l : Lent κ σ σ')
    (ts : List (Turn π κ σ ε τ φ σ' ε' τ')) : Lent κ σ σ' :=
  ts.foldl (fun l t => (l.step make make' t).2) l

variable {make : τ → Option Info} {make' : τ' → Option Info}

/-- A turn without a cache of the resolver's own is a request to the given one. -/
theorem step_of_none (c : Cache κ σ Info) (t : Turn π κ σ ε τ φ σ' ε' τ') :
    (⟨c, none⟩ : Lent κ σ σ').step make make' t
      = ((c.serve make t.moment).map t.reply, ⟨c.next make t.moment, none⟩) := by
  unfold step
  cases t.asked <;> rfl

/-- A turn with a cache of the resolver's own changes one of the two: the given one at a
request of its owner, the other at a question for a name. -/
theorem step_of_some (c : Cache κ σ Info) (own : Cache κ σ' Info)
    (t : Turn π κ σ ε τ φ σ' ε' τ') :
    ((⟨c, some own⟩ : Lent κ σ σ').step make make' t).2
      = ⟨c.after make t.ownerMoment?.toList, some (own.after make' t.ownMoment?.toList)⟩ := by
  obtain ⟨sources, newSources, asked⟩ := t
  cases asked <;> rfl

theorem run_of_none (ts : List (Turn π κ σ ε τ φ σ' ε' τ')) :
    ∀ c : Cache κ σ Info, (⟨c, none⟩ : Lent κ σ σ').run make make' ts
      = ts.zipWith (fun t a => a.map t.reply) (c.run make (ts.map Turn.moment)) := by
  induction ts with
  | nil => intro c; rfl
  | cons t more ih =>
    intro c
    show _ :: run make make' ((⟨c, none⟩ : Lent κ σ σ').step make make' t).2 more = _ :: _
    rw [step_of_none, ih]

theorem after_of_none (ts : List (Turn π κ σ ε τ φ σ' ε' τ')) :
    ∀ c : Cache κ σ Info, (⟨c, none⟩ : Lent κ σ σ').after make make' ts
      = ⟨c.after make (ts.map Turn.moment), none⟩ := by
  induction ts with
  | nil => intro c; rfl
  | cons t more ih =>
    intro c
    show after make make' ((⟨c, none⟩ : Lent κ σ σ').step make make' t).2 more = _
    rw [step_of_none, ih]
    rfl

theorem after_of_some (ts : List (Turn π κ σ ε τ φ σ' ε' τ')) :
    ∀ (c : Cache κ σ Info) (own : Cache κ σ' Info),
      (⟨c, some own⟩ : Lent κ σ σ').after make make' ts
        = ⟨c.after make (ts.filterMap Turn.ownerMoment?),
            some (own.after make' (ts.filterMap Turn.ownMoment?))⟩ := by
  induction ts with
  | nil => intro c own; rfl
  | cons t more ih =>
    intro c own
    show after make make' ((⟨c, some own⟩ : Lent κ σ σ').step make make' t).2 more = _
    rw [step_of_some, ih]
    obtain ⟨sources, newSources, asked⟩ := t
    cases asked <;> rfl

/-- **A cache in which nothing is kept and the resolver that it is given to go apart**: each
of the two caches has only its own requests. -/
theorem after_of_empty {c : Cache κ σ Info} (hempty : c.size = 0)
    (ts : List (Turn π κ σ ε τ φ σ' ε' τ')) :
    (of c : Lent κ σ σ').after make make' ts
      = ⟨c.after make (ts.filterMap Turn.ownerMoment?),
          some (Cache.empty.after make' (ts.filterMap Turn.ownMoment?))⟩ := by
  rw [of_of_empty hempty]
  exact after_of_some ts c .empty

end Lent

/-! ## §3. Stores. -/

/-- The store that a resolver works on, when the given one has these documents: they are open
in that one only. -/
def Lent.store (l : Lent Location Stamp Stamp) (b : Buffers) : Store :=
  match l.own? with
  | none => ⟨l.given, b⟩
  | some own => ⟨own, .empty⟩

/-- A resolver that is given a store takes it as it takes the store's cache. -/
theorem Store.forResolver_some (s : Store) :
    forResolver (some s) = (Lent.of s.cache).store s.buffers := by
  show (if s.cache.isTaken then s else empty) = _
  unfold Lent.of Lent.store
  cases s.cache.isTaken <;> rfl

/-- The name at a path is asked of a store's cache, with its documents and files for
sources. -/
theorem Store.nameAt_eq (s : Store) (tree : Entry) (path : List String) :
    (s.nameAt tree path).map (fun a => (Reply.name a.1, a.2))
      = ((s.cache.serve read? ⟨s.buffers.sources tree, .get path⟩).map Reply.ofName).map fun r =>
          (r, { s with cache := s.cache.next read? ⟨s.buffers.sources tree, .get path⟩ }) := by
  unfold nameAt Cache.next
  rw [get_eq_serve]
  cases s.cache.serve read? ⟨s.buffers.sources tree, .get path⟩ <;> rfl

/-- **A question for a name to a resolver's store is the turn of the resolver.** -/
theorem Lent.nameAt_store (l : Lent Location Stamp Stamp) (b : Buffers) (tree : Entry)
    (path : List String) {reply : Except Tree.LinkLoop Reply} {next : Lent Location Stamp Stamp}
    (hstep : l.step read? read? ⟨b.sources tree, Buffers.empty.sources tree, .name path⟩
      = (reply, next)) :
    ((l.store b).nameAt tree path).map (fun a => (Reply.name a.1, a.2))
      = reply.map fun r => (r, next.store b) := by
  obtain ⟨given, own?⟩ := l
  cases own? with
  | none =>
    rw [step_of_none] at hstep
    obtain ⟨rfl, rfl⟩ := Prod.mk.inj hstep
    exact Store.nameAt_eq ⟨given, b⟩ tree path
  | some own =>
    obtain ⟨rfl, rfl⟩ := Prod.mk.inj hstep
    exact Store.nameAt_eq ⟨own, .empty⟩ tree path

/-- The name at a path is the name in the manifest that the store has there. -/
theorem Store.nameAt_eq_get (s : Store) (tree : Entry) (path : List String) :
    s.nameAt tree path = (s.get tree path).map fun a => (a.1.bind nameOf?, a.2.2) := by
  unfold nameAt
  cases s.get tree path with
  | error fault => rfl
  | ok a => rfl

/-! ## §4. Resolvers of stores. -/

namespace Lent

/-- A turn whose sources are open documents and the files behind them. -/
abbrev StoreTurn : Type :=
  Turn (List String) Location Stamp TextFault (List Char) Tree.LinkLoop Stamp TextFault (List Char)

/-- A resolver that is given a store works on this store: when it is made, and after any turns,
in any documents and files. -/
structure WorksOn (s : Store) : Prop where
  taken : Store.forResolver (some s) = s
  named : ∀ (tree : Entry) (path : List String),
    (Store.forResolver (some s)).nameAt tree path
      = (s.get tree path).map fun a => (a.1.bind Store.nameOf?, a.2.2)
  start : (of s.cache).store s.buffers = Store.forResolver (some s)
  namedAfter : ∀ (ts : List StoreTurn) (b : Buffers) (tree : Entry) (path : List String),
    (((of s.cache).after read? read? ts).store b).nameAt tree path
      = ((⟨s.cache.after read? (ts.map Turn.moment), b⟩ : Store).get tree path).map fun a =>
          (a.1.bind Store.nameOf?, a.2.2)
  /-- A name and the store after it are the reply of a turn and the caches after it. -/
  turned : ∀ (ts : List StoreTurn) (b : Buffers) (tree : Entry) (path : List String) reply next,
    ((of s.cache).after read? read? ts).step read? read?
        (⟨b.sources tree, Buffers.empty.sources tree, .name path⟩ : StoreTurn) = (reply, next) →
      ((((of s.cache).after read? read? ts).store b).nameAt tree path).map
          (fun a => (Reply.name a.1, a.2))
        = reply.map fun r => (r, next.store b)

theorem worksOn_of_kept {s : Store} (hkept : s.cache.size ≠ 0) : WorksOn s := by
  have hof : (of s.cache : Lent Location Stamp Stamp) = ⟨s.cache, none⟩ := of_of_kept hkept
  have htaken : Store.forResolver (some s) = s := by
    rw [Store.forResolver_some, hof]
    rfl
  constructor
  case taken => exact htaken
  case named =>
    intro tree path
    rw [htaken]
    exact s.nameAt_eq_get tree path
  case start => exact (Store.forResolver_some s).symm
  case namedAfter =>
    intro ts b tree path
    rw [hof, after_of_none]
    exact Store.nameAt_eq_get _ tree path
  case turned =>
    intro ts b tree path reply next hstep
    exact nameAt_store _ b tree path hstep

variable [DecidableEq κ] [DecidableEq σ] [DecidableEq σ']
variable {make : τ → Option Info} {make' : τ' → Option Info}

/-- **A resolver works on the cache that it is given, if a manifest is kept in it**: turns are
answered as the requests that they are to this cache, and leave it as these do.  So a resolver
that is given a store works on the store. -/
theorem run_of_kept {c : Cache κ σ Info} (hkept : c.size ≠ 0)
    (ts : List (Turn π κ σ ε τ φ σ' ε' τ')) :
    (of c : Lent κ σ σ').run make make' ts
        = ts.zipWith (fun t a => a.map t.reply) (c.run make (ts.map Turn.moment))
      ∧ (of c : Lent κ σ σ').after make make' ts
        = ⟨c.after make (ts.map Turn.moment), none⟩
      ∧ ∀ s : Store, s.cache.size ≠ 0 → WorksOn s := by
  rw [of_of_kept hkept]
  exact ⟨run_of_none ts c, after_of_none ts c, fun _ => worksOn_of_kept⟩

/-- A document that is open under a number. -/
def openDocument (number : Nat) (text : String) :
    Sources String String Nat String (List Char) String where
  locate := .ok
  stamp _ := some number
  read _ := .ok text.toList

/-- A cache in which one manifest is kept. -/
def oneManifest : Cache String Nat Info := ⟨[("m", 1, [(.str "name", .str "saved")])]⟩

/-- Questions for a name before and after its document is changed. -/
def editedTurns : List (Turn String String Nat String (List Char) String Nat String (List Char)) := [
  ⟨openDocument 1 "", openDocument 0 "", .name "m"⟩,
  ⟨openDocument 2 "name: unsaved\n", openDocument 0 "", .name "m"⟩,
  ⟨openDocument 2 "name: unsaved\n", openDocument 0 "", .request .clear⟩,
  ⟨openDocument 3 "name: edited\n", openDocument 0 "", .name "m"⟩]

/-- A store in which one manifest is kept, and the document of another is open. -/
def keptStore : Store :=
  ⟨⟨[(["other.yaml"], .document 0, [])]⟩,
    Buffers.empty.update ["pubspec.yaml"] "name: unsaved\n".toList⟩

/-- In an empty directory a manifest's path leads to its place. -/
private theorem resolve_pubspec :
    Tree.resolve (.directory []) ["pubspec.yaml"] = .ok ["pubspec.yaml"] := by
  simp [Tree.resolve, Tree.stepsOfParts, Tree.locate, Tree.access, Tree.walk, Entry.get?,
    Entry.isDirectory, Entry.children]

theorem run_of_kept_editedTurns :
    (oneManifest.size ≠ 0
      ∧ ((of oneManifest : Lent String Nat Nat).run read? read? editedTurns).map
          (fun r => match r with
            | .ok (.name text) => text
            | _ => none)
        = [some "saved", some "unsaved", none, some "edited"])
      ∧ keptStore.cache.size ≠ 0
      ∧ Store.forResolver (some keptStore) = keptStore
      ∧ ((Store.forResolver (some keptStore)).nameAt (.directory []) ["pubspec.yaml"]).toOption.map
          (·.1) = some (some "unsaved") := by
  have hkept : oneManifest.size ≠ 0 := by decide
  have hstore : keptStore.cache.size ≠ 0 := by decide
  obtain ⟨hrun, -, hworks⟩ := run_of_kept hkept editedTurns
  refine ⟨⟨hkept, ?_⟩, hstore, (hworks keptStore hstore).taken, ?_⟩
  · rw [hrun]
    decide +kernel
  · rw [(hworks keptStore hstore).named]
    unfold Store.get
    rw [resolve_pubspec]
    decide +kernel

end Lent

namespace Store

/-- A store in which one document is open and nothing is kept. -/
def unsaved : Store :=
  ⟨.empty, Buffers.empty.update ["pubspec.yaml"] "name: unsaved\n".toList⟩

/-- The document gives a name, and a resolver that is given the store does not find it. -/
theorem nameAt_unsaved :
    (unsaved.get (.directory []) ["pubspec.yaml"]).toOption.map (fun a => a.1.bind nameOf?)
        = some (some "unsaved")
      ∧ ((forResolver (some unsaved)).nameAt (.directory []) ["pubspec.yaml"]).toOption.map (·.1)
        = some none := by
  have haccess : Tree.access (.directory []) ["pubspec.yaml"] = .error .missing := by
    unfold Tree.access
    rw [Tree.walk.eq_def]
    rfl
  constructor
  · unfold get
    rw [Lent.resolve_pubspec]
    decide +kernel
  · have hstamp : fileStamp (.directory []) ["pubspec.yaml"] = none := by
      unfold fileStamp
      rw [haccess]
    unfold nameAt get
    rw [Lent.resolve_pubspec]
    show Option.map _ (some (Option.bind (Cache.get .empty _ (fileStamp _ _) _ read?).value _, _)) = _
    rw [hstamp]
    rfl

end Store

end EmbeddedExpr.Manifest
