/-
  EmbeddedExpr.Proofs.Markup.Host
  ───────────────────────────────
  **HOSTS ARE LONGEST RUNS OF DATA AND SINGLE VALUES.**

  `Host.From` says how a host comes from tokens, without the function that collects hosts: a
  text host is a run of adjacent data tokens with no data token on either side, and every
  other host is the value of an attribute.  The hosts collected are exactly these:

      g ∈ hosts ts  ↔  g.From ts

  They stand in order without overlap, and each holds the characters of its place.
-/
import EmbeddedExpr.Markup.Host
import EmbeddedExpr.Proofs.Markup.Coverage
import EmbeddedExpr.Proofs.Text.Search
import Mathlib.Data.List.Chain

namespace EmbeddedExpr.Markup

/-! ## §1. Longest runs. -/

/-- The tokens `run`, from `start` to `stop`, are a longest run of character data: each begins
where the one before it ends, and the tokens on either side are of another kind. -/
structure IsRun (ts run : List Token) (start stop : Nat) : Prop where
  first : run.head?.map Token.start = some start
  last : run.getLast?.map Token.stop = some stop
  data : ∀ t ∈ run, t.isData = true
  adjacent : run.IsChain fun t u => t.stop = u.start
  maximal : ∃ before after, ts = before ++ run ++ after
    ∧ (∀ t ∈ before.getLast?, t.isData = false) ∧ (∀ t ∈ after.head?, t.isData = false)

/-- How a host comes from tokens. -/
inductive Host.From (ts : List Token) (g : Host) : Prop where
  /-- The host is all of a longest run of character data. -/
  | run (run : List Token) (hrun : IsRun ts run g.start g.stop) (hkind : g.kind = .text)
      (htext : g.text = run.flatMap Token.text)
  /-- The host is one attribute value. -/
  | value (t : Token) (ht : t ∈ ts) (hg : t.host? = some g)

theorem Token.isData_iff {t : Token} : t.isData = true ↔ t.kind = .text ∨ t.kind = .comment := by
  simp [Token.isData]

theorem Token.inTag_of_isData {t : Token} (h : t.isData = true) : t.kind.inTag = false := by
  rcases Token.isData_iff.mp h with hk | hk <;> rw [hk] <;> rfl

theorem Token.host?_of_isData {t : Token} (h : t.isData = true) : t.host? = none := by
  rcases Token.isData_iff.mp h with hk | hk <;> simp only [Token.host?, hk]

theorem Aligned.append_right {xs ys : List Token} :
    ∀ {lower : Nat} {inside : Bool}, Aligned lower inside (xs ++ ys) →
      ∃ lower' inside', Aligned lower' inside' ys := by
  induction xs with
  | nil => intro lower inside h; exact ⟨lower, inside, h⟩
  | cons t more ih => intro lower inside h; exact ih h.2.2.2

/-- Data tokens that follow each other leave no gap. -/
theorem Aligned.adjacent {run after : List Token} :
    ∀ {lower : Nat} {inside : Bool}, Aligned lower inside (run ++ after) →
      (∀ t ∈ run, t.isData = true) → run.IsChain fun t u => t.stop = u.start := by
  induction run with
  | nil => intro lower inside _ _; exact List.IsChain.nil
  | cons t more ih =>
    intro lower inside h hd
    have htail := ih h.2.2.2 fun u hu => hd u (List.mem_cons_of_mem _ hu)
    cases more with
    | nil => exact List.IsChain.singleton t
    | cons u more =>
      have hout := Token.inTag_of_isData (hd t List.mem_cons_self)
      exact List.IsChain.cons_cons (h.2.2.2.2.1 hout).symm htail

/-- A token's place is as long as its text. -/
def Exact (ts : List Token) : Prop := ∀ t ∈ ts, t.stop = t.start + t.text.length

theorem Exact.subset {ts us : List Token} (h : Exact ts) (hsub : us ⊆ ts) : Exact us :=
  fun t ht => h t (hsub ht)

theorem exact_tokens (s : List Char) : Exact (tokens s) := by
  intro t ht
  obtain ⟨-, -, -, -, hstop⟩ := split_of_mem_tokens ht
  exact hstop

/-- Adjacent tokens end where their joined text ends. -/
theorem stop_of_adjacent {run : List Token} {stop : Nat} :
    ∀ {start : Nat}, Exact run → (run.IsChain fun t u => t.stop = u.start) →
      run.head?.map Token.start = some start → run.getLast?.map Token.stop = some stop →
      start + (run.flatMap Token.text).length = stop := by
  induction run with
  | nil => intro start _ _ hf _; cases hf
  | cons t more ih =>
    intro start he hc hf hl
    have hstart : t.start = start := Option.some.inj hf
    have hstop := he t List.mem_cons_self
    rw [List.flatMap_cons, List.length_append]
    cases more with
    | nil =>
      have hlast : t.stop = stop := Option.some.inj hl
      show start + (t.text.length + 0) = stop
      omega
    | cons u more =>
      have hadj : t.stop = u.start := (List.isChain_cons_cons.mp hc).1
      have := ih (he.subset (List.subset_cons_self _ _)) hc.tail rfl
        (by rw [← hl, List.getLast?_cons_cons])
      omega

/-- The tokens at the head of a list that are data: they leave no gap, and end where their
joined text ends. -/
theorem head_run {lower : Nat} {inside : Bool} {t : Token} {more : List Token}
    (hd : t.isData = true) (ha : Aligned lower inside (t :: more)) (he : Exact (t :: more)) :
    t :: more = (t :: more.takeWhile Token.isData) ++ more.dropWhile Token.isData
      ∧ (∀ u ∈ t :: more.takeWhile Token.isData, u.isData = true)
      ∧ ((t :: more.takeWhile Token.isData).IsChain fun t u => t.stop = u.start)
      ∧ (t :: more.takeWhile Token.isData).getLast?.map Token.stop
        = some (t.start + ((t :: more.takeWhile Token.isData).flatMap Token.text).length) := by
  have hsplit : t :: more
      = (t :: more.takeWhile Token.isData) ++ more.dropWhile Token.isData := by
    rw [List.cons_append, List.takeWhile_append_dropWhile]
  have hdata : ∀ u ∈ t :: more.takeWhile Token.isData, u.isData = true := by
    intro u hu
    rcases List.mem_cons.mp hu with rfl | hu
    · exact hd
    · exact List.all_eq_true.mp List.all_takeWhile u hu
  rw [hsplit] at ha he
  have hadj := ha.adjacent hdata
  obtain ⟨v, hv⟩ := Option.isSome_iff_exists.mp (List.getLast?_isSome.mpr
    (List.cons_ne_nil t (more.takeWhile Token.isData)))
  have hstop := stop_of_adjacent (he.subset (List.subset_append_left _ _)) hadj rfl
    (congrArg (Option.map Token.stop) hv)
  refine ⟨hsplit, hdata, hadj, ?_⟩
  rw [hv]
  exact congrArg some hstop.symm

/-! ## §2. Collecting hosts. -/

theorem hosts_cons_of_isData {t : Token} (more : List Token) (h : t.isData = true) :
    hosts (t :: more) =
      ⟨.text, t.start, t.text ++ (more.takeWhile Token.isData).flatMap Token.text⟩ ::
        hosts (more.dropWhile Token.isData) := by
  rw [hosts, if_pos h]

theorem hosts_cons_of_not_isData {t : Token} (more : List Token) (h : t.isData = false) :
    hosts (t :: more) = t.host?.toList ++ hosts more := by
  rw [hosts, if_neg (by rw [h]; exact Bool.false_ne_true)]

/-- Hosts do not join across a token that is no data. -/
theorem hosts_append (xs ys : List Token) (h : ∀ t ∈ xs.getLast?, t.isData = false) :
    hosts (xs ++ ys) = hosts xs ++ hosts ys := by
  fun_induction hosts xs with
  | case1 => rfl
  | case2 t more hd ih =>
    cases more with
    | nil => exact absurd (h t rfl) (by rw [hd]; decide)
    | cons u more =>
      rw [List.getLast?_cons_cons] at h
      -- the run of `t` ends before the last token, which is no data
      obtain ⟨v, hv⟩ := Option.isSome_iff_exists.mp (List.getLast?_isSome.mpr (List.cons_ne_nil u more))
      have hstop := Text.takeWhile_append_stop (p := Token.isData) ys
        ⟨v, List.mem_of_getLast? hv, h v hv⟩
      rw [List.cons_append, hosts_cons_of_isData _ hd, hstop.1, hstop.2, List.cons_append]
      congr 1
      refine ih fun w hw => h w ?_
      obtain ⟨front, hfront⟩ := List.dropWhile_suffix (l := u :: more) Token.isData
      rw [← hfront, List.getLast?_append, Option.mem_def.mp hw]
      rfl
  | case3 t more hd ih =>
    rw [List.cons_append, hosts_cons_of_not_isData _ (Bool.not_eq_true _ ▸ hd), List.append_assoc,
      ih]
    intro w hw
    cases more with
    | nil => cases hw
    | cons u more => exact h w (by rw [List.getLast?_cons_cons]; exact hw)

theorem head?_dropWhile_data (ts : List Token) :
    ∀ t ∈ (ts.dropWhile Token.isData).head?, t.isData = false := by
  intro t ht
  have := List.head?_dropWhile_not Token.isData ts
  rw [Option.mem_def.mp ht] at this
  exact this

/-- Every host collected comes from the tokens, also when others stand before them. -/
theorem from_of_mem_hosts {g : Host} {ts : List Token} :
    ∀ {lower : Nat} {inside : Bool} (before : List Token), Aligned lower inside ts → Exact ts →
      ((∀ t ∈ before.getLast?, t.isData = false) ∨ ∀ t ∈ ts.head?, t.isData = false) →
      g ∈ hosts ts → g.From (before ++ ts) := by
  fun_induction hosts ts with
  | case1 => intro lower inside before _ _ _ hg; cases hg
  | case2 t more hd ih =>
    intro lower inside before ha he hb hg
    obtain ⟨hsplit, hdata, hadj, hstop⟩ := head_run hd ha he
    have hbefore : ∀ u ∈ before.getLast?, u.isData = false := by
      rcases hb with hb | hb
      · exact hb
      · exact absurd (hb t rfl) (by rw [hd]; decide)
    rw [hsplit] at ha he ⊢
    rcases List.mem_cons.mp hg with rfl | hg
    · refine .run (t :: more.takeWhile Token.isData) ⟨rfl, hstop, hdata, hadj, ?_⟩ rfl rfl
      exact ⟨before, more.dropWhile Token.isData, (List.append_assoc _ _ _).symm, hbefore,
        head?_dropWhile_data more⟩
    · rw [← List.append_assoc]
      obtain ⟨lower', inside', ha'⟩ := ha.append_right
      exact ih _ ha' (he.subset (List.subset_append_right _ _))
        (Or.inr (head?_dropWhile_data more)) hg
  | case3 t more hd ih =>
    intro lower inside before ha he hb hg
    rcases List.mem_append.mp hg with hg | hg
    · exact .value t (List.mem_append_right _ List.mem_cons_self) (Option.mem_toList.mp hg)
    · have hlast : ∀ u ∈ (before ++ [t]).getLast?, u.isData = false := by
        intro u hu
        rw [List.getLast?_concat, Option.mem_some] at hu
        rw [← hu]
        exact Bool.not_eq_true _ ▸ hd
      rw [show before ++ t :: more = (before ++ [t]) ++ more by
        rw [List.append_assoc, List.singleton_append]]
      exact ih _ ha.2.2.2 (he.subset (List.subset_cons_self _ _)) (Or.inl hlast) hg

/-- A longest run of data is collected as one host. -/
theorem mem_hosts_of_isRun {g : Host} {ts run : List Token} (he : Exact ts)
    (hrun : IsRun ts run g.start g.stop) (hkind : g.kind = .text)
    (htext : g.text = run.flatMap Token.text) : g ∈ hosts ts := by
  obtain ⟨before, after, rfl, hbefore, hafter⟩ := hrun.maximal
  cases run with
  | nil => cases hrun.first
  | cons t more =>
    have hmore : ∀ u ∈ more, u.isData = true := fun u hu => hrun.data u (List.mem_cons_of_mem _ hu)
    have htake : (more ++ after).takeWhile Token.isData = more := by
      rw [List.takeWhile_append_of_pos hmore]
      cases after with
      | nil => exact List.append_nil more
      | cons u after =>
        rw [List.takeWhile_cons_of_neg (by rw [hafter u rfl]; decide), List.append_nil]
    have hg : g = ⟨.text, t.start, t.text ++ more.flatMap Token.text⟩ := by
      have hstart : t.start = g.start := Option.some.inj hrun.first
      cases g
      simp only at hkind htext hstart
      rw [hkind, htext, hstart, List.flatMap_cons]
    rw [List.append_assoc, hosts_append _ _ hbefore, List.cons_append,
      hosts_cons_of_isData _ (hrun.data t List.mem_cons_self), htake, ← hg]
    exact List.mem_append_right _ List.mem_cons_self

/-- An attribute value is collected as a host. -/
theorem mem_hosts_of_host? {g : Host} {t : Token} (hg : t.host? = some g) {ts : List Token}
    (ht : t ∈ ts) : g ∈ hosts ts := by
  have hnot : t.isData = false := by
    refine Bool.eq_false_iff.mpr fun hd => ?_
    rw [Token.host?_of_isData hd] at hg
    cases hg
  fun_induction hosts ts with
  | case1 => cases ht
  | case2 u more hd ih =>
    rcases List.mem_cons.mp ht with rfl | ht
    · exact absurd hd (by rw [hnot]; decide)
    · -- the run that is passed over holds data only
      rw [← List.takeWhile_append_dropWhile (p := Token.isData) (l := more)] at ht
      rcases List.mem_append.mp ht with ht | ht
      · exact absurd (List.all_eq_true.mp List.all_takeWhile t ht) (by rw [hnot]; decide)
      · exact List.mem_cons_of_mem _ (ih ht)
  | case3 u more hd ih =>
    rcases List.mem_cons.mp ht with rfl | ht
    · exact List.mem_append_left _ (Option.mem_toList.mpr hg)
    · exact List.mem_append_right _ (ih ht)

/-- **The hosts collected are the longest runs of data and the attribute values.** -/
theorem mem_hosts_iff {lower : Nat} {inside : Bool} {ts : List Token} {g : Host}
    (ha : Aligned lower inside ts) (he : Exact ts) : g ∈ hosts ts ↔ g.From ts := by
  constructor
  · intro hg
    exact from_of_mem_hosts [] ha he (Or.inl fun t ht => by cases ht) hg
  · intro hg
    cases hg with
    | run run hrun hkind htext => exact mem_hosts_of_isRun he hrun hkind htext
    | value t ht hg => exact mem_hosts_of_host? hg ht

/-- What is taken from values alone is taken from the tokens in order. -/
theorem flatMap_hosts {α : Type} {f : Host → List α} (hf : ∀ h, h.kind = .text → f h = [])
    (ts : List Token) : (hosts ts).flatMap f = ts.flatMap fun t => t.host?.toList.flatMap f := by
  have hdata : ∀ {run : List Token}, (∀ t ∈ run, t.isData = true) →
      (run.flatMap fun t => t.host?.toList.flatMap f) = [] := by
    intro run hrun
    refine List.flatMap_eq_nil_iff.mpr fun t ht => ?_
    rw [Token.host?_of_isData (hrun t ht)]
    rfl
  fun_induction hosts ts with
  | case1 => rfl
  | case2 t more hd ih =>
    rw [List.flatMap_cons, hf _ rfl, List.nil_append, ih]
    conv_rhs => rw [List.flatMap_cons, Token.host?_of_isData hd,
      ← List.takeWhile_append_dropWhile (p := Token.isData) (l := more), List.flatMap_append,
      hdata (List.all_eq_true.mp List.all_takeWhile)]
    rfl
  | case3 t more hd ih => rw [List.flatMap_append, ih, List.flatMap_cons]

/-! ## §3. The places of hosts. -/

theorem Token.eq_of_host? {t : Token} {g : Host} (h : t.host? = some g) :
    t.kind = .attrValue ∧ g.start = t.start ∧ g.text = t.text := by
  unfold Token.host? at h
  split at h
  · next hk =>
    rw [← Option.some.inj h]
    exact ⟨hk, rfl, rfl⟩
  · cases h

theorem Token.stop_of_host? {t : Token} {g : Host} (hlen : t.stop = t.start + t.text.length)
    (h : t.host? = some g) : g.stop = t.stop := by
  obtain ⟨-, hstart, htext⟩ := Token.eq_of_host? h
  show g.start + g.text.length = t.stop
  rw [hstart, htext, hlen]

/-- A host begins where one of its tokens begins, and ends where one of them ends. -/
theorem Host.From.ends {ts : List Token} {g : Host} (he : Exact ts) (h : g.From ts) :
    (∃ t ∈ ts, g.start = t.start) ∧ ∃ t ∈ ts, g.stop = t.stop := by
  cases h with
  | run run hrun hkind htext =>
    obtain ⟨before, after, rfl, -, -⟩ := hrun.maximal
    obtain ⟨t, ht, hstart⟩ := Option.map_eq_some_iff.mp hrun.first
    obtain ⟨u, hu, hstop⟩ := Option.map_eq_some_iff.mp hrun.last
    have hmem : ∀ v ∈ run, v ∈ before ++ run ++ after := fun v hv =>
      List.mem_append_left _ (List.mem_append_right _ hv)
    exact ⟨⟨t, hmem t (List.mem_of_head? ht), hstart.symm⟩,
      ⟨u, hmem u (List.mem_of_getLast? hu), hstop.symm⟩⟩
  | value t ht hg =>
    exact ⟨⟨t, ht, (Token.eq_of_host? hg).2.1⟩, t, ht, Token.stop_of_host? (he t ht) hg⟩

/-- **Hosts stand in order and do not overlap.** -/
theorem hosts_pairwise {ts : List Token} :
    ∀ {lower : Nat} {inside : Bool}, Aligned lower inside ts → Exact ts →
      (hosts ts).Pairwise fun g h => g.stop ≤ h.start := by
  fun_induction hosts ts with
  | case1 => intro lower inside _ _; exact List.Pairwise.nil
  | case2 t more hd ih =>
    intro lower inside ha he
    obtain ⟨hsplit, -, -, hstop⟩ := head_run hd ha he
    rw [hsplit] at ha he
    obtain ⟨lower', inside', ha'⟩ := ha.append_right
    have he' : Exact (more.dropWhile Token.isData) := he.subset (List.subset_append_right _ _)
    refine List.Pairwise.cons ?_ (ih ha' he')
    intro g hg
    -- the run ends with one of its tokens, and `g` begins with a token after it
    obtain ⟨⟨u, hu, hstart⟩, -⟩ := ((mem_hosts_iff ha' he').mp hg).ends he'
    obtain ⟨v, hv, hend⟩ := Option.map_eq_some_iff.mp hstop
    rw [hstart]
    exact Nat.le_trans (Nat.le_of_eq hend.symm)
      ((List.pairwise_append.mp ha.pairwise).2.2 v (List.mem_of_getLast? hv) u hu)
  | case3 t more hd ih =>
    intro lower inside ha he
    have he' : Exact more := he.subset (List.subset_cons_self _ _)
    refine List.pairwise_append.mpr ⟨?_, ih ha.2.2.2 he', ?_⟩
    · cases t.host? <;> simp
    · intro g hg g' hg'
      have hstop := Token.stop_of_host? (he t List.mem_cons_self) (Option.mem_toList.mp hg)
      obtain ⟨⟨u, hu, hstart⟩, -⟩ := ((mem_hosts_iff ha.2.2.2 he').mp hg').ends he'
      rw [hstop, hstart]
      exact (List.pairwise_cons.mp ha.pairwise).1 u hu

/-- Adjacent tokens of a document hold the characters from the first start to the last stop. -/
theorem text_of_adjacent {s : List Char} {run : List Token} {stop : Nat} :
    ∀ {start : Nat}, (∀ t ∈ run, t ∈ tokens s) → (run.IsChain fun t u => t.stop = u.start) →
      run.head?.map Token.start = some start → run.getLast?.map Token.stop = some stop →
      start ≤ stop ∧ run.flatMap Token.text = (s.take stop).drop start := by
  induction run with
  | nil => intro start _ _ hf _; cases hf
  | cons t more ih =>
    intro start hmem hc hf hl
    obtain rfl : t.start = start := Option.some.inj hf
    have ht := hmem t List.mem_cons_self
    have hpos := start_lt_stop ht
    rw [List.flatMap_cons, text_eq_of_mem_tokens ht]
    cases more with
    | nil =>
      obtain rfl : t.stop = stop := Option.some.inj hl
      exact ⟨Nat.le_of_lt hpos, List.append_nil _⟩
    | cons u more =>
      have hadj : t.stop = u.start := (List.isChain_cons_cons.mp hc).1
      rw [List.getLast?_cons_cons] at hl
      obtain ⟨hle, htext⟩ := ih (fun v hv => hmem v (List.mem_cons_of_mem _ hv)) hc.tail rfl hl
      obtain ⟨v, hv, rfl⟩ := Option.map_eq_some_iff.mp hl
      have hv := hmem v (List.mem_cons_of_mem _ (List.mem_of_getLast? hv))
      refine ⟨by omega, ?_⟩
      rw [htext, hadj]
      exact Text.slice_join (by omega) hle (stop_le_length hv)

/-- **A host holds the characters of its place.** -/
theorem text_eq_of_mem_hosts {s : List Char} {g : Host} (h : g ∈ hosts (tokens s)) :
    g.text = (s.take g.stop).drop g.start ∧ g.stop ≤ s.length := by
  have hfrom := (mem_hosts_iff (aligned_tokens s) (exact_tokens s)).mp h
  constructor
  · cases hfrom with
    | run run hrun hkind htext =>
      obtain ⟨before, after, hts, -, -⟩ := hrun.maximal
      have hmem : ∀ t ∈ run, t ∈ tokens s := by
        intro t ht
        rw [hts]
        exact List.mem_append_left _ (List.mem_append_right _ ht)
      rw [htext]
      exact (text_of_adjacent hmem hrun.adjacent hrun.first hrun.last).2
    | value t ht hg =>
      obtain ⟨-, hstart, htext⟩ := Token.eq_of_host? hg
      rw [htext, Token.stop_of_host? (exact_tokens s t ht) hg, hstart]
      exact text_eq_of_mem_tokens ht
  · obtain ⟨t, ht, hstop⟩ := (hfrom.ends (exact_tokens s)).2
    rw [hstop]
    exact stop_le_length ht

end EmbeddedExpr.Markup
