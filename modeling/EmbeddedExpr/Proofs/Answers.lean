/-
  EmbeddedExpr.Proofs.Answers
  ───────────────────────────
  **ANSWERS THAT MAY BE FAULTS.**

  When steps that may fail give an answer together: one after the other (`bind_eq_ok_iff`), for
  every item of a list (`exists_mapM_iff`), and from one item to the next (`exists_foldlM`).
  An answer that has been computed is told by what can be seen of it.
-/
namespace EmbeddedExpr

/-! ## §1. Computed answers. -/

theorem exists_of_toOption_map {ε α β : Type} {x : Except ε α} {f : α → β} {b : β}
    (h : x.toOption.map f = some b) : ∃ a, x = .ok a ∧ f a = b := by
  cases x with
  | error e => cases h
  | ok a => exact ⟨a, rfl, Option.some.inj h⟩

theorem eq_ok_of_toOption {ε α : Type} {x : Except ε α} {a : α} (h : x.toOption = some a) :
    x = .ok a := by
  cases x with
  | error e => cases h
  | ok b => exact congrArg Except.ok (Option.some.inj h)

/-! ## §2. Answers of several steps. -/

variable {ε α β : Type}

theorem bind_eq_ok_iff {x : Except ε α} {f : α → Except ε β} {b : β} :
    (x >>= f) = .ok b ↔ ∃ a, x = .ok a ∧ f a = .ok b := by
  cases x with
  | error fault => exact ⟨nofun, fun ⟨_, h, _⟩ => nomatch h⟩
  | ok a => exact ⟨fun h => ⟨a, rfl, h⟩, fun ⟨_, ha, h⟩ => Except.ok.inj ha ▸ h⟩

theorem exists_mapM_iff {f : α → Except ε β} (items : List α) :
    (∃ found, items.mapM f = .ok found) ↔ ∀ a ∈ items, ∃ b, f a = .ok b := by
  induction items with
  | nil => exact ⟨fun _ a ha => (nomatch ha), fun _ => ⟨[], rfl⟩⟩
  | cons a more ih =>
    rw [List.mapM_cons, List.forall_mem_cons, ← ih]
    cases f a with
    | error fault => exact ⟨fun ⟨_, h⟩ => (nomatch h), fun ⟨⟨_, h⟩, _⟩ => (nomatch h)⟩
    | ok b =>
      cases more.mapM f with
      | error fault => exact ⟨fun ⟨_, h⟩ => (nomatch h), fun ⟨_, _, h⟩ => (nomatch h)⟩
      | ok bs => exact ⟨fun _ => ⟨⟨b, rfl⟩, bs, rfl⟩, fun _ => ⟨b :: bs, rfl⟩⟩

theorem exists_foldlM {f : β → α → Except ε β} {items : List α}
    (h : ∀ a ∈ items, ∀ b, ∃ c, f b a = .ok c) : ∀ b, ∃ c, items.foldlM f b = .ok c := by
  induction items with
  | nil => exact fun b => ⟨b, rfl⟩
  | cons a more ih =>
    intro b
    obtain ⟨c, hc⟩ := h a List.mem_cons_self b
    obtain ⟨d, hd⟩ := ih (fun a' ha' => h a' (List.mem_cons_of_mem _ ha')) c
    refine ⟨d, ?_⟩
    rw [List.foldlM_cons]
    exact bind_eq_ok_iff.mpr ⟨c, hc, hd⟩

end EmbeddedExpr
