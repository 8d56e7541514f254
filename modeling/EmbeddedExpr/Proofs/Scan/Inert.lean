/-
  EmbeddedExpr.Proofs.Scan.Inert
  ──────────────────────────────
  **INERT STRETCHES OF A TEXT ARE PASSED OVER AS A WHOLE.**

  A stretch of inert offsets that begins and ends with angle brackets is passed over, however
  many markers it holds, when the markers hold no angle bracket: none of them reaches into
  the stretch, or out of it.  Texts that differ in such stretches only (`SameLive`) have the
  same candidates:

      SameLive inert offset s s'
        →  candidatesFrom o c inert offset s = candidatesFrom o c inert offset s'
-/
import EmbeddedExpr.Proofs.Scan.Order
import EmbeddedExpr.Proofs.Text.Search

namespace EmbeddedExpr.Scan

/-! ## §1. The search, one offset at a time. -/

theorem live?_nil (m : Marker) (inert : Nat → Bool) (offset : Nat) :
    live? m inert offset [] = none := by
  rw [live?]
  rfl

theorem live?_at_head {m : Marker} {inert : Nat → Bool} {offset : Nat} {s : List Char}
    (h : m.text <+: s) (hi : inert offset = false) :
    live? m inert offset s = some (offset, s.drop m.text.length) := by
  rw [live?, Text.cut?_at_head h]
  simp [hi]

/-- After an inert marker the search goes on. -/
theorem live?_of_inert {m : Marker} {inert : Nat → Bool} {offset : Nat} {s : List Char}
    (h : m.text <+: s) (hi : inert offset = true) :
    live? m inert offset s
      = live? m inert (offset + m.text.length) (s.drop m.text.length) := by
  rw [live?, Text.cut?_at_head h]
  simp [hi]

/-- Where no marker begins, the search goes on with the next offset. -/
theorem live?_cons {m : Marker} {inert : Nat → Bool} {offset : Nat} {c : Char} {s : List Char}
    (h : ¬ m.text <+: c :: s) :
    live? m inert offset (c :: s) = live? m inert (offset + 1) s := by
  have hcut : Text.cut? m.text (c :: s)
      = (Text.cut? m.text s).map fun pieces => (c :: pieces.1, pieces.2) := by
    conv => lhs; unfold Text.cut?
    rw [if_neg fun hp => h (List.isPrefixOf_iff_prefix.mp hp)]
  rw [live?, live?, hcut]
  cases Text.cut? m.text s with
  | none => rfl
  | some found =>
    simp only [Option.map_some, List.length_cons, Nat.add_assoc, Nat.add_comm 1]

/-! ## §2. Inert stretches. -/

/-- A marker without the bracket that begins in a stretch which the bracket ends, or which
ends the text, lies in the stretch. -/
theorem prefix_of_prefix_append {x w s : List Char} (hx : '>' ∉ x) (hne : w ≠ [])
    (hend : s ≠ [] → ∀ c ∈ w.getLast?, c = '>') (hp : x <+: w ++ s) : x <+: w := by
  by_cases hs : s = []
  · rwa [hs, List.append_nil] at hp
  · rcases List.prefix_or_prefix_of_prefix hp (List.prefix_append w s) with hxw | hwx
    · exact hxw
    · -- the marker would hold the bracket
      obtain ⟨c, hc⟩ := Option.isSome_iff_exists.mp (List.getLast?_isSome.mpr hne)
      obtain rfl := hend hs c hc
      exact absurd (hwx.subset (List.mem_of_getLast? hc)) hx

/-- **An inert stretch is passed over as a whole**, when it ends with a character that the
marker does not hold, or ends the text. -/
theorem live?_append_of_inert {m : Marker} {inert : Nat → Bool} {s : List Char}
    (hm : '>' ∉ m.text) (w : List Char) :
    ∀ {offset : Nat}, (∀ k < w.length, inert (offset + k) = true) →
      (s ≠ [] → ∀ c ∈ w.getLast?, c = '>') →
      live? m inert offset (w ++ s) = live? m inert (offset + w.length) s := by
  -- by the length of the stretch, since the search may skip all of a marker in it
  induction hn : w.length using Nat.strongRecOn generalizing w with
  | ind n ih =>
    intro offset hi hend
    subst hn
    have further : ∀ {v : List Char} {from_ : Nat}, v <:+ w → v.length < w.length →
        from_ = offset + (w.length - v.length) →
        live? m inert from_ (v ++ s) = live? m inert (offset + w.length) s := by
      rintro v from_ ⟨front, hv⟩ hlt rfl
      rw [ih v.length hlt v rfl (fun k hk => ?_) (fun hs c hc => hend hs c ?_)]
      · rw [Nat.add_assoc, Nat.sub_add_cancel (Nat.le_of_lt hlt)]
      · rw [Nat.add_assoc]
        exact hi _ (by omega)
      · rw [← hv, List.getLast?_append, Option.mem_def.mp hc]
        rfl
    cases w with
    | nil => rfl
    | cons c w =>
      -- the search skips a marker here, or goes on with the next offset
      by_cases hp : m.text <+: c :: w ++ s
      · obtain ⟨v, hv⟩ := prefix_of_prefix_append hm (List.cons_ne_nil c w) hend hp
        have hlen := congrArg List.length hv
        have hpos := Marker.length_pos m
        rw [List.length_append] at hlen
        have hi0 : inert offset = true := hi 0 (Nat.succ_pos _)
        rw [live?_of_inert hp hi0]
        conv => lhs; rw [← hv, List.append_assoc, List.drop_left]
        exact further ⟨_, hv⟩ (by omega) (by omega)
      · rw [List.cons_append] at hp ⊢
        rw [live?_cons hp]
        exact further (List.suffix_cons c w) (Nat.lt_succ_self _) (by
          rw [List.length_cons]
          omega)

/-! ## §3. Texts that differ in inert stretches. -/

/-- The stretch `w` before the text `s` is set off by angle brackets: it begins with one, and
ends with one unless the text ends with it. -/
def SetOff (w s : List Char) : Prop :=
  w.head? = some '<' ∧ (s ≠ [] → ∀ c ∈ w.getLast?, c = '>')

/-- Two texts that are the same up to inert stretches, which are as long in both. -/
inductive SameLive (inert : Nat → Bool) : Nat → List Char → List Char → Prop where
  | nil {offset : Nat} : SameLive inert offset [] []
  | live {offset : Nat} {c : Char} {s s' : List Char} (hi : inert offset = false)
      (h : SameLive inert (offset + 1) s s') : SameLive inert offset (c :: s) (c :: s')
  | stretch {offset : Nat} {w w' s s' : List Char} (hlen : w'.length = w.length)
      (hi : ∀ k < w.length, inert (offset + k) = true) (hw : SetOff w s) (hw' : SetOff w' s')
      (h : SameLive inert (offset + w.length) s s') :
      SameLive inert offset (w ++ s) (w' ++ s')

namespace SameLive

variable {inert : Nat → Bool} {offset : Nat} {s s' : List Char}

theorem length_eq (h : SameLive inert offset s s') : s'.length = s.length := by
  induction h with
  | nil => rfl
  | live _ _ ih => rw [List.length_cons, List.length_cons, ih]
  | stretch hlen _ _ _ _ ih => rw [List.length_append, List.length_append, hlen, ih]

theorem symm (h : SameLive inert offset s s') : SameLive inert offset s' s := by
  induction h with
  | nil => exact .nil
  | live hi _ ih => exact .live hi ih
  | stretch hlen hi hw hw' _ ih =>
    exact .stretch hlen.symm (fun k hk => hi k (hlen ▸ hk)) hw' hw (by rw [hlen]; exact ih)

theorem append_live {x : List Char} :
    ∀ {offset : Nat}, (∀ k < x.length, inert (offset + k) = false) →
      SameLive inert (offset + x.length) s s' → SameLive inert offset (x ++ s) (x ++ s') := by
  induction x with
  | nil => intro offset _ h; exact h
  | cons c x ih =>
    intro offset hi h
    refine .live (hi 0 (Nat.succ_pos _)) (ih (fun k hk => ?_) ?_)
    · rw [Nat.add_assoc, Nat.add_comm 1]
      exact hi (k + 1) (Nat.succ_lt_succ hk)
    · rw [Nat.add_assoc, Nat.add_comm 1]
      exact h

/-- Characters without an angle bracket that begin the one text begin the other as well, since
no stretch is among them. -/
theorem drop (x : List Char) (hx : '<' ∉ x) :
    ∀ {offset : Nat} {s s' : List Char}, SameLive inert offset s s' → x <+: s →
      x <+: s' ∧ SameLive inert (offset + x.length) (s.drop x.length) (s'.drop x.length) := by
  induction x with
  | nil => intro offset s s' h _; exact ⟨List.nil_prefix, h⟩
  | cons d x ih =>
    intro offset s s' h hp
    cases h with
    | nil => cases List.prefix_nil.mp hp
    | @live _ c s s' hi h =>
      obtain ⟨rfl, hpx⟩ := List.cons_prefix_cons.mp hp
      obtain ⟨hp', hrest⟩ := ih (fun hmem => hx (List.mem_cons_of_mem _ hmem)) h hpx
      refine ⟨List.cons_prefix_cons.mpr ⟨rfl, hp'⟩, ?_⟩
      rw [Nat.add_assoc, Nat.add_comm 1] at hrest
      exact hrest
    | @stretch _ w w' s s' hlen hi hw hw' h =>
      obtain ⟨more, rfl⟩ := List.head?_eq_some_iff.mp hw.1
      obtain ⟨rfl, -⟩ := List.cons_prefix_cons.mp hp
      exact absurd List.mem_cons_self hx

/-- **The same markers are live in both texts**, and what follows them differs in inert
stretches only. -/
theorem live?_rel {m : Marker} (hm : '<' ∉ m.text ∧ '>' ∉ m.text)
    (h : SameLive inert offset s s') :
    Option.Rel (fun x y => x.1 = y.1 ∧ SameLive inert (x.1 + m.text.length) x.2 y.2)
      (live? m inert offset s) (live? m inert offset s') := by
  induction h with
  | nil =>
    rw [live?_nil]
    exact .none
  | @live offset c s s' hi h ih =>
    have hall : SameLive inert offset (c :: s) (c :: s') := .live hi h
    -- a marker begins here in both texts or in none
    by_cases hp : m.text <+: c :: s
    · obtain ⟨hp', hrest⟩ := drop m.text hm.1 hall hp
      rw [live?_at_head hp hi, live?_at_head hp' hi]
      exact .some ⟨rfl, hrest⟩
    · have hp' : ¬ m.text <+: c :: s' := fun hp' => hp (drop m.text hm.1 hall.symm hp').1
      rw [live?_cons hp, live?_cons hp']
      exact ih
  | @stretch offset w w' s s' hlen hi hw hw' h ih =>
    rw [live?_append_of_inert hm.2 w hi hw.2,
      live?_append_of_inert hm.2 w' (fun k hk => hi k (hlen ▸ hk)) hw'.2, hlen]
    exact ih

theorem live?_eq_none {m : Marker} (hm : '<' ∉ m.text ∧ '>' ∉ m.text)
    (h : SameLive inert offset s s') (hnone : live? m inert offset s = none) :
    live? m inert offset s' = none := by
  have hrel := h.live?_rel hm
  rw [hnone] at hrel
  generalize live? m inert offset s' = found at hrel ⊢
  cases hrel
  rfl

theorem live?_eq_some {m : Marker} (hm : '<' ∉ m.text ∧ '>' ∉ m.text) {found : Nat}
    {rest : List Char} (h : SameLive inert offset s s')
    (hsome : live? m inert offset s = some (found, rest)) :
    ∃ rest', live? m inert offset s' = some (found, rest')
      ∧ SameLive inert (found + m.text.length) rest rest' := by
  have hrel := h.live?_rel hm
  rw [hsome] at hrel
  generalize live? m inert offset s' = found' at hrel ⊢
  cases hrel with
  | @some _ y hy =>
    obtain ⟨at_, rest'⟩ := y
    obtain ⟨rfl, hrest⟩ := hy
    exact ⟨rest', rfl, hrest⟩

/-- **Texts that differ in inert stretches have the same candidates.** -/
theorem candidatesFrom_eq {opening closing : Marker}
    (ho : '<' ∉ opening.text ∧ '>' ∉ opening.text)
    (hc : '<' ∉ closing.text ∧ '>' ∉ closing.text) :
    ∀ {s' : List Char}, SameLive inert offset s s' →
      candidatesFrom opening closing inert offset s
        = candidatesFrom opening closing inert offset s' := by
  fun_induction candidatesFrom opening closing inert offset s
  case case1 offset s hnone =>
    intro s' h
    rw [candidatesFrom, h.live?_eq_none ho hnone]
  case case2 offset s at_ body hopen start hnone =>
    intro s' h
    obtain ⟨body', hopen', hbody⟩ := h.live?_eq_some ho hopen
    rw [candidatesFrom, hopen']
    simp only
    rw [hbody.live?_eq_none hc hnone, hbody.length_eq]
  case case3 offset s at_ body hopen start stop rest hclose ih =>
    intro s' h
    obtain ⟨body', hopen', hbody⟩ := h.live?_eq_some ho hopen
    obtain ⟨rest', hclose', hrest⟩ := hbody.live?_eq_some hc hclose
    conv => rhs; rw [candidatesFrom, hopen']
    simp only
    rw [hclose', ih hrest]

theorem regions_eq {opening closing : List Char}
    (ho : '<' ∉ opening ∧ '>' ∉ opening) (hc : '<' ∉ closing ∧ '>' ∉ closing)
    (h : SameLive inert 0 s s') :
    regions opening closing inert s = regions opening closing inert s' := by
  unfold regions candidates
  congr 1
  cases hopening : Marker.ofText? opening with
  | none => rfl
  | some o =>
    cases hclosing : Marker.ofText? closing with
    | none => rfl
    | some c =>
      rw [← Marker.text_of_ofText? hopening] at ho
      rw [← Marker.text_of_ofText? hclosing] at hc
      exact candidatesFrom_eq ho hc h

end SameLive

end EmbeddedExpr.Scan
