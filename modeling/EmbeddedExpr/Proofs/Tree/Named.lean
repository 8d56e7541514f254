/-
  EmbeddedExpr.Proofs.Tree.Named
  ──────────────────────────────
  **LOCATIONS IN A TREE WITH PROPER NAMES.**

  In a tree as file systems hold it the names in a directory differ, and none is empty, a dot
  or a double dot, or holds a slash (`isNamed`).  There a location that leads to an entry other
  than a link is reached by walking its names, and resolving the location changes nothing:

      e.get? l = some f  →  access e l = .ok (l, f)  ∧  resolve e l = .ok l
-/
import EmbeddedExpr.Tree.Resolve

namespace EmbeddedExpr

/-! ## §1. Named trees. -/

/-- A name that an entry of a directory may have. -/
def isName (name : String) : Bool :=
  name ≠ "" && name ≠ "." && name ≠ ".." && !name.toList.contains '/'

namespace Entry

mutual
/-- The names in every directory of a tree are names, and differ. -/
def isNamed : Entry → Bool
  | .directory entries => decide (entries.map (·.1)).Nodup && areNamed entries
  | _ => true
/-- Entries have names, and are named trees. -/
def areNamed : List (String × Entry) → Bool
  | [] => true
  | (name, e) :: more => isName name && e.isNamed && areNamed more
end

/-- **What holds of a tree when it holds of all its children holds of every tree.** -/
theorem inductionOnChildren {P : Entry → Prop}
    (step : ∀ e : Entry, (∀ c ∈ e.children, P c.2) → P e) (e : Entry) : P e := by
  refine step e fun c hc => ?_
  have hlt : sizeOf c.2 < sizeOf e := by
    cases e with
    | file octets modified => cases hc
    | link target => cases hc
    | directory entries =>
      have hmem := List.sizeOf_lt_of_mem (show c ∈ entries from hc)
      obtain ⟨name, child⟩ := c
      simp only [Prod.mk.sizeOf_spec] at hmem
      simp only [directory.sizeOf_spec]
      omega
  exact inductionOnChildren step c.2
termination_by sizeOf e

/-! ## §2. Children and locations. -/

theorem isNamed_of_mem_areNamed {c : String × Entry} {entries : List (String × Entry)}
    (h : areNamed entries = true) (hc : c ∈ entries) :
    isName c.1 = true ∧ c.2.isNamed = true := by
  induction entries with
  | nil => cases hc
  | cons d more ih =>
    obtain ⟨name, e⟩ := d
    unfold areNamed at h
    simp only [Bool.and_eq_true] at h
    rcases List.mem_cons.mp hc with rfl | hc
    · exact h.1
    · exact ih h.2 hc

theorem isNamed_child {e : Entry} {c : String × Entry} (h : e.isNamed = true)
    (hc : c ∈ e.children) : isName c.1 = true ∧ c.2.isNamed = true := by
  cases e with
  | file octets modified => cases hc
  | link target => cases hc
  | directory entries =>
    unfold isNamed at h
    exact isNamed_of_mem_areNamed (Bool.and_eq_true _ _ ▸ h).2 hc

theorem nodup_children {e : Entry} (h : e.isNamed = true) : (e.children.map (·.1)).Nodup := by
  cases e with
  | file octets modified => exact List.nodup_nil
  | link target => exact List.nodup_nil
  | directory entries =>
    unfold isNamed at h
    exact of_decide_eq_true (Bool.and_eq_true _ _ ▸ h).1

theorem mem_of_lookup {name : String} {e : Entry} {entries : List (String × Entry)}
    (h : entries.lookup name = some e) : (name, e) ∈ entries := by
  obtain ⟨front, back, rfl, -⟩ := List.lookup_eq_some_iff.mp h
  exact List.mem_append_right _ List.mem_cons_self

/-- Where names differ, looking up a name finds what stands under it. -/
theorem lookup_eq_some_iff {name : String} {e : Entry} {entries : List (String × Entry)}
    (h : (entries.map (·.1)).Nodup) : entries.lookup name = some e ↔ (name, e) ∈ entries := by
  refine ⟨mem_of_lookup, fun hmem => List.lookup_eq_some_iff.mpr ?_⟩
  obtain ⟨front, back, rfl⟩ := List.append_of_mem hmem
  refine ⟨front, back, rfl, ?_⟩
  intro c hc
  rw [List.map_append, List.map_cons] at h
  -- an earlier entry of the same name would stand twice
  have hne := (List.nodup_append.mp h).2.2 c.1 (List.mem_map_of_mem hc) name List.mem_cons_self
  exact bne_iff_ne.mpr (Ne.symm hne)

theorem get?_cons (e : Entry) (name : String) (rest : Location) :
    e.get? (name :: rest) = (e.children.lookup name).bind fun child => child.get? rest := by
  rw [get?]
  cases e.children.lookup name <;> rfl

theorem get?_append (l m : Location) :
    ∀ e : Entry, e.get? (l ++ m) = (e.get? l).bind fun f => f.get? m := by
  induction l with
  | nil => intro e; rfl
  | cons name l ih =>
    intro e
    rw [List.cons_append, get?_cons, get?_cons]
    cases e.children.lookup name with
    | none => rfl
    | some child => exact ih child

/-- The names of a location that leads to an entry are names. -/
theorem isName_of_get? {f : Entry} {l : Location} :
    ∀ {e : Entry}, e.isNamed = true → e.get? l = some f →
      (∀ name ∈ l, isName name = true) ∧ f.isNamed = true := by
  induction l with
  | nil =>
    intro e he hf
    obtain rfl : e = f := Option.some.inj hf
    exact ⟨by simp, he⟩
  | cons name l ih =>
    intro e he hf
    rw [get?_cons] at hf
    obtain ⟨child, hchild, hf⟩ := Option.bind_eq_some_iff.mp hf
    obtain ⟨hname, hnamed⟩ := isNamed_child he (mem_of_lookup hchild)
    obtain ⟨hrest, hfnamed⟩ := ih hnamed hf
    refine ⟨?_, hfnamed⟩
    intro n hn
    rcases List.mem_cons.mp hn with rfl | hn
    · exact hname
    · exact hrest n hn

/-- The links of an entry are among those of the directory that holds it. -/
theorem linksAmong_subset {at_ : Location} {c : String × Entry} {entries : List (String × Entry)}
    (hc : c ∈ entries) : c.2.links (at_ ++ [c.1]) ⊆ linksAmong at_ entries := by
  induction entries with
  | nil => cases hc
  | cons d more ih =>
    obtain ⟨name, e⟩ := d
    unfold linksAmong
    rcases List.mem_cons.mp hc with rfl | hc
    · exact List.subset_append_left _ _
    · exact fun link hlink => List.mem_append_right _ (ih hc hlink)

theorem links_subset {at_ : Location} {e : Entry} {c : String × Entry} (hc : c ∈ e.children) :
    c.2.links (at_ ++ [c.1]) ⊆ e.links at_ := by
  cases e with
  | file octets modified => cases hc
  | link target => cases hc
  | directory entries =>
    rw [show links at_ (.directory entries) = linksAmong at_ entries by rw [links]]
    exact linksAmong_subset hc

/-- The children of a tree without links have none. -/
theorem links_child {at_ : Location} {e : Entry} {c : String × Entry} (h : e.links at_ = [])
    (hc : c ∈ e.children) : c.2.links (at_ ++ [c.1]) = [] :=
  List.subset_nil.mp (h ▸ links_subset hc)

end Entry

/-! ## §3. Paths that lead to entries. -/

namespace Tree

theorem stepsOfParts_cons {name : String} (h : isName name = true) (rest : List String) :
    stepsOfParts (name :: rest) = .name name :: stepsOfParts rest := by
  have hne : name ≠ ".." := by
    rintro rfl
    exact absurd h (by decide)
  unfold stepsOfParts
  rw [List.map_cons, if_neg hne]

/-- A location that goes on leads through a directory, and not to a link. -/
theorem get?_of_append_cons {root f : Entry} {here rest : Location} {name : String}
    (h : root.get? (here ++ name :: rest) = some f) (hf : ∀ target, f ≠ .link target) :
    ∃ e child, root.get? here = some e ∧ e.isDirectory = true
      ∧ e.children.lookup name = some child ∧ root.get? (here ++ [name]) = some child
      ∧ ∀ target, child ≠ .link target := by
  rw [Entry.get?_append] at h
  obtain ⟨e, he, h⟩ := Option.bind_eq_some_iff.mp h
  rw [Entry.get?_cons] at h
  obtain ⟨child, hchild, h⟩ := Option.bind_eq_some_iff.mp h
  refine ⟨e, child, he, ?_, hchild, ?_, ?_⟩
  · cases e with
    | file octets modified => cases hchild
    | link target => cases hchild
    | directory entries => rfl
  · rw [Entry.get?_append, he, Option.bind_some, Entry.get?_cons, hchild]
    rfl
  · rintro target rfl
    cases rest with
    | nil => exact hf target (Option.some.inj h).symm
    | cons next rest => cases h

/-- **Walking the names of a location reaches its entry.** -/
theorem walk_of_get? {root f : Entry} {budget : Nat} {rest : Location} :
    ∀ {here : Location}, (∀ name ∈ rest, isName name = true) →
      root.get? (here ++ rest) = some f → (∀ target, f ≠ .link target) →
      walk root budget here (stepsOfParts rest) = .ok (here ++ rest, f) := by
  induction rest with
  | nil =>
    intro here _ h _
    rw [List.append_nil] at h ⊢
    rw [walk, h]
    rfl
  | cons name rest ih =>
    intro here hnames h hf
    obtain ⟨e, child, he, hdir, hchild, hnext, hlink⟩ := get?_of_append_cons h hf
    have hrest := @ih (here ++ [name]) (fun n hn => hnames n (List.mem_cons_of_mem _ hn))
    rw [List.append_assoc, List.singleton_append] at hrest
    rw [stepsOfParts_cons (hnames name List.mem_cons_self), walk, he]
    simp only
    rw [if_neg (by rw [hdir]; decide)]
    cases child with
    | link target => exact absurd rfl (hlink target)
    | file octets modified =>
      simp only [hchild]
      exact hrest h hf
    | directory entries =>
      simp only [hchild]
      exact hrest h hf

/-- **Resolving a location that leads to an entry keeps its names.** -/
theorem locate_of_get? {root f : Entry} {unopened : List Location}
    {resolved : List (Location × Location)} {rest : Location} :
    ∀ {here : Location}, (∀ name ∈ rest, isName name = true) →
      root.get? (here ++ rest) = some f → (∀ target, f ≠ .link target) →
      locate root unopened resolved here ((stepsOfParts rest).map .step) = here ++ rest := by
  induction rest with
  | nil =>
    intro here _ _ _
    show locate root unopened resolved here [] = here ++ []
    rw [locate, List.append_nil]
  | cons name rest ih =>
    intro here hnames h hf
    obtain ⟨e, child, -, -, -, hnext, hlink⟩ := get?_of_append_cons h hf
    have hrest := @ih (here ++ [name]) (fun n hn => hnames n (List.mem_cons_of_mem _ hn))
    rw [List.append_assoc, List.singleton_append] at hrest
    rw [stepsOfParts_cons (hnames name List.mem_cons_self), List.map_cons, locate]
    simp only [hnext]
    cases child with
    | link target => exact absurd rfl (hlink target)
    | file octets modified => exact hrest h hf
    | directory entries => exact hrest h hf

theorem access_of_get? {root f : Entry} {l : Location} (hroot : root.isNamed = true)
    (h : root.get? l = some f) (hf : ∀ target, f ≠ .link target) :
    access root l = .ok (l, f) := by
  unfold access
  exact @walk_of_get? root f linkLimit l [] (Entry.isName_of_get? hroot h).1 h hf

theorem resolve_of_get? {root f : Entry} {l : Location} (hroot : root.isNamed = true)
    (h : root.get? l = some f) (hf : ∀ target, f ≠ .link target) :
    resolve root l = .ok l := by
  have hfound : locate root (root.links []) [] [] ((stepsOfParts l).map .step) = l :=
    @locate_of_get? root f _ _ l [] (Entry.isName_of_get? hroot h).1 h hf
  unfold resolve
  simp only [hfound, access_of_get? hroot h hf]

end Tree

end EmbeddedExpr
