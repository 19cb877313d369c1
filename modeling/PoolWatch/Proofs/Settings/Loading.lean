import PoolWatch.Numeric.Checked
import PoolWatch.Proofs.Settings.Numerals
/-!
# Loading settings

Settings are loaded if and only if every variable that is set has a value of its kind, and then
they are what the variables say.  Otherwise the first variable in order that has no such value is
reported with its text.  So settings that are written out are loaded as they were.
-/

namespace PoolWatch.Settings

open PoolWatch.Numeric PoolWatch.Text

/-! ## Variables that are set -/

def IsWritten (text : String) : Prop := ∃ c ∈ text.toList, isBlank c = false

/-- A variable is set to a text: it is there, and it is not blank. -/
def Source.Sets (source : Source) (var text : String) : Prop :=
  source var = some text ∧ IsWritten text

/-- What a variable gives: what its text is read as, if it is set, and else the default. -/
def Source.Gives {α : Type} (source : Source) (var : String) (reads : String → α → Prop)
    (default value : α) : Prop :=
  (∃ text, source.Sets var text ∧ reads text value) ∨
    (∀ text, ¬source.Sets var text) ∧ value = default

section

variable {source : Source} {var text : String}

theorem get?_eq_some_iff : source.get? var = some text ↔ source.Sets var text := by
  rw [Source.get?, Option.filter_eq_some_iff, Source.Sets, IsWritten]
  simp

theorem get?_eq_none_iff : source.get? var = none ↔ ∀ text, ¬source.Sets var text := by
  simp only [Option.eq_none_iff_forall_ne_some, Ne, get?_eq_some_iff]

theorem Source.Sets.eq {text' : String} (h : source.Sets var text)
    (h' : source.Sets var text') : text' = text :=
  Option.some.inj (h'.1.symm.trans h.1)

variable {α : Type} {reads : String → α → Prop} {default value : α}

theorem Source.Sets.gives_iff (h : source.Sets var text) :
    source.Gives var reads default value ↔ reads text value := by
  constructor
  · rintro (⟨text', h', hreads⟩ | ⟨hunset, -⟩)
    · rwa [h.eq h'] at hreads
    · exact absurd h (hunset text)
  · exact fun hreads => .inl ⟨text, h, hreads⟩

theorem gives_iff_of_unset (h : ∀ text, ¬source.Sets var text) :
    source.Gives var reads default value ↔ value = default := by
  constructor
  · rintro (⟨text, htext, -⟩ | ⟨-, hvalue⟩)
    · exact absurd htext (h text)
    · exact hvalue
  · exact fun hvalue => .inr ⟨h, hvalue⟩

theorem getD_get?_eq_iff {text default : String} :
    (source.get? var).getD default = text ↔ source.Gives var (fun s t => t = s) default text := by
  cases hget : source.get? var with
  | none => rw [gives_iff_of_unset (get?_eq_none_iff.1 hget), Option.getD_none, eq_comm]
  | some set => rw [(get?_eq_some_iff.1 hget).gives_iff, Option.getD_some, eq_comm]

theorem get?_eq_iff {text? : Option String} :
    source.get? var = text? ↔ source.Gives var (fun s t => t = some s) none text? := by
  cases hget : source.get? var with
  | none => rw [gives_iff_of_unset (get?_eq_none_iff.1 hget), eq_comm]
  | some set => rw [(get?_eq_some_iff.1 hget).gives_iff, eq_comm]

end

/-! ## Values of a kind -/

theorem Spells.unique {text : String} {m n : Nat} (hm : Spells text m) (hn : Spells text n) :
    m = n :=
  Option.some.inj
    ((numeral?_trimmed_eq_some_iff.2 hm).symm.trans (numeral?_trimmed_eq_some_iff.2 hn))

def SpellsPositive (text : String) (n : Nat) : Prop := Spells text n ∧ 1 ≤ n

inductive Kind where
  | positive
  | oneOf (names : List String)

def checked : List (String × Kind) :=
  [("GPU_POOL_REFRESH_MS", .positive), ("GPU_POOL_MAX_POINTS", .positive),
    ("GPU_POOL_HISTORY", .positive), ("GPU_POOL_TIMEOUT_MS", .positive),
    ("GPU_POOL_OVERLAP", .oneOf ["last-completion", "last-issued"]),
    ("GPU_POOL_REFRESH_STYLE", .oneOf ["keep-stale", "reset-to-loading"])]

def Kind.Admits : Kind → String → Prop
  | .positive, text => ∃ n, SpellsPositive text n
  | .oneOf names, text => text ∈ names

/-- A variable is not set, or it has a value of its kind. -/
def IsValid (source : Source) (v : String × Kind) : Prop :=
  ∀ text, source.Sets v.1 text → v.2.Admits text

inductive Offends (source : Source) : String × Kind → SettingsError → Prop
  | zero {var text : String} (h : source.Sets var text) (hzero : Spells text 0) :
    Offends source (var, .positive) (.zero var)
  | notNumber {var text : String} (h : source.Sets var text) (hnone : ∀ n, ¬Spells text n) :
    Offends source (var, .positive) (.notNumber var text)
  | unknownChoice {var text : String} {names : List String} (h : source.Sets var text)
    (hunknown : text ∉ names) :
    Offends source (var, .oneOf names) (.unknownChoice var text (", ".intercalate names))

/-- The first of some variables with which something is wrong, and what it is. -/
def FirstOffence (source : Source) (vs : List (String × Kind)) (e : SettingsError) : Prop :=
  ∃ before v after, vs = before ++ v :: after ∧ (∀ w ∈ before, IsValid source w) ∧
    Offends source v e

section

variable {source : Source} {v : String × Kind} {vs : List (String × Kind)} {e : SettingsError}

theorem isValid_iff : IsValid source v ↔ ∀ e, ¬Offends source v e := by
  constructor
  · intro hvalid e hoffends
    cases hoffends with
    | zero h hzero =>
      obtain ⟨n, hn, hpos⟩ := hvalid _ h
      exact absurd (hn.unique hzero) (Nat.ne_of_gt hpos)
    | notNumber h hnone =>
      obtain ⟨n, hn, -⟩ := hvalid _ h
      exact hnone n hn
    | unknownChoice h hunknown => exact hunknown (hvalid _ h)
  · rintro hsound text h
    obtain ⟨var, kind⟩ := v
    cases kind with
    | positive =>
      by_cases hnone : ∀ n, ¬Spells text n
      · exact absurd (.notNumber h hnone) (hsound _)
      · obtain ⟨n, hn⟩ := not_forall_not.1 hnone
        refine ⟨n, hn, Nat.pos_of_ne_zero ?_⟩
        rintro rfl
        exact hsound _ (.zero h hn)
    | oneOf names =>
      by_contra hunknown
      exact hsound _ (.unknownChoice h hunknown)

theorem not_firstOffence_nil : ¬FirstOffence source [] e := by
  rintro ⟨before, v, after, heq, -⟩
  exact List.append_ne_nil_of_right_ne_nil _ (List.cons_ne_nil _ _) heq.symm

theorem firstOffence_cons : FirstOffence source (v :: vs) e ↔
    Offends source v e ∨ IsValid source v ∧ FirstOffence source vs e := by
  constructor
  · rintro ⟨before, w, after, heq, hbefore, hoffends⟩
    cases before with
    | nil =>
      obtain ⟨rfl, rfl⟩ := List.cons.inj heq
      exact .inl hoffends
    | cons _ before =>
      obtain ⟨rfl, rfl⟩ := List.cons.inj heq
      obtain ⟨hv, hbefore⟩ := List.forall_mem_cons.1 hbefore
      exact .inr ⟨hv, before, w, after, rfl, hbefore, hoffends⟩
  · rintro (hoffends | ⟨hv, before, w, after, rfl, hbefore, hoffends⟩)
    · exact ⟨[], v, vs, rfl, List.forall_mem_nil _, hoffends⟩
    · exact ⟨v :: before, w, after, rfl, List.forall_mem_cons.2 ⟨hv, hbefore⟩, hoffends⟩

theorem exists_firstOffence_iff :
    (∃ e, FirstOffence source vs e) ↔ ¬∀ v ∈ vs, IsValid source v := by
  induction vs with
  | nil =>
    refine iff_of_false ?_ (not_not_intro (List.forall_mem_nil _))
    rintro ⟨e, h⟩
    exact not_firstOffence_nil h
  | cons v vs ih =>
    have hinvalid : (∃ e, Offends source v e) ↔ ¬IsValid source v := by
      rw [isValid_iff, not_forall_not]
    simp only [firstOffence_cons, exists_or, exists_and_left, hinvalid, ih, List.forall_mem_cons]
    by_cases hv : IsValid source v <;> simp [hv]

end

/-! ## Reading variables -/

/-- A computation checks a variable: it fails with what is wrong with the variable. -/
def Checks {α : Type} (source : Source) (v : String × Kind) (x : Except SettingsError α) : Prop :=
  ∀ e, x = .error e ↔ Offends source v e

section

variable {α β : Type} {source : Source} {var text : String} {v : String × Kind}
  {vs : List (String × Kind)} {e : SettingsError}

theorem not_offends_of_unset {kind : Kind} (h : ∀ text, ¬source.Sets var text) :
    ¬Offends source (var, kind) e := fun hoffends => by
  cases hoffends with
  | zero htext => exact h _ htext
  | notNumber htext => exact h _ htext
  | unknownChoice htext => exact h _ htext

theorem offends_positive_iff (h : source.Sets var text) : Offends source (var, .positive) e ↔
    (Spells text 0 ∧ .zero var = e) ∨ ((∀ n, ¬Spells text n) ∧ .notNumber var text = e) := by
  constructor
  · intro hoffends
    cases hoffends with
    | zero h' hzero => exact .inl ⟨h.eq h' ▸ hzero, rfl⟩
    | notNumber h' hnone =>
      obtain rfl := h.eq h'
      exact .inr ⟨hnone, rfl⟩
  · rintro (⟨hzero, rfl⟩ | ⟨hnone, rfl⟩)
    · exact .zero h hzero
    · exact .notNumber h hnone

theorem offends_oneOf_iff {names : List String} (h : source.Sets var text) :
    Offends source (var, .oneOf names) e ↔
      text ∉ names ∧ .unknownChoice var text (", ".intercalate names) = e := by
  constructor
  · intro hoffends
    cases hoffends with
    | unknownChoice h' hunknown =>
      obtain rfl := h.eq h'
      exact ⟨hunknown, rfl⟩
  · rintro ⟨hunknown, rfl⟩
    exact .unknownChoice h hunknown

theorem positive_eq_ok_iff {default n : Nat} :
    positive source var default = .ok n ↔ source.Gives var SpellsPositive default n := by
  cases hget : source.get? var with
  | none =>
    rw [positive, hget, gives_iff_of_unset (get?_eq_none_iff.1 hget), Except.ok.injEq, eq_comm]
  | some text =>
    rw [(get?_eq_some_iff.1 hget).gives_iff, SpellsPositive, ← numeral?_trimmed_eq_some_iff,
      positive, hget]
    dsimp only
    split
    next hnone => simp [hnone]
    next hzero => simp [hzero]; omega
    next m hpos hread =>
      have hpos : 1 ≤ m := Nat.pos_of_ne_zero hpos
      simp only [hread, Except.ok.injEq, Option.some.injEq]
      omega

theorem checks_positive (source : Source) (var : String) (default : Nat) :
    Checks source (var, .positive) (positive source var default) := by
  intro e
  cases hget : source.get? var with
  | none =>
    rw [positive, hget]
    exact iff_of_false nofun (not_offends_of_unset (get?_eq_none_iff.1 hget))
  | some text =>
    simp only [offends_positive_iff (get?_eq_some_iff.1 hget), ← numeral?_trimmed_eq_some_iff,
      positive, hget]
    split
    next hnone => simp [hnone]
    next hzero => simp [hzero]
    next m hpos hread =>
      have hpos : m ≠ 0 := hpos
      simp [hread, hpos]

theorem Checks.bind_eq_error {x : Except SettingsError α} {f : α → Except SettingsError β}
    (hx : Checks source v x) (hf : ∀ a, f a = .error e ↔ FirstOffence source vs e) :
    x >>= f = .error e ↔ FirstOffence source (v :: vs) e := by
  rw [firstOffence_cons, ← hx e]
  cases x with
  | error e' =>
    have hinvalid : ¬IsValid source v := fun hvalid => isValid_iff.1 hvalid e' ((hx e').1 rfl)
    show Except.error e' = .error e ↔ _
    simp [hinvalid]
  | ok a =>
    have hvalid : IsValid source v := isValid_iff.2 fun e' h => nomatch (hx e').2 h
    show f a = .error e ↔ _
    simp [hvalid, hf a]

theorem lookup_eq_some_iff_mem {choices : List (String × α)} {a : α}
    (hnodup : (choices.map (·.1)).Nodup) : choices.lookup text = some a ↔ (text, a) ∈ choices := by
  induction choices with
  | nil => simp
  | cons c choices ih =>
    obtain ⟨name, b⟩ := c
    obtain ⟨hname, htail⟩ := List.nodup_cons.1 hnodup
    by_cases heq : text = name
    · subst heq
      have hother : (text, a) ∉ choices := fun h => hname (List.mem_map.2 ⟨(text, a), h, rfl⟩)
      simp [hother, eq_comm]
    · have hne : (text == name) = false := beq_eq_false_iff_ne.2 heq
      simp [List.lookup_cons, heq, hne, ih htail]

theorem choice_eq_ok_iff {default a : α} {choices : List (String × α)}
    (hnodup : (choices.map (·.1)).Nodup) : choice source var default choices = .ok a ↔
      source.Gives var (fun text a => (text, a) ∈ choices) default a := by
  cases hget : source.get? var with
  | none =>
    rw [choice, hget, gives_iff_of_unset (get?_eq_none_iff.1 hget), Except.ok.injEq, eq_comm]
  | some text =>
    rw [(get?_eq_some_iff.1 hget).gives_iff, ← lookup_eq_some_iff_mem hnodup, choice, hget]
    dsimp only
    split <;> simp [*]

theorem checks_choice (source : Source) (var : String) (default : α)
    (choices : List (String × α)) :
    Checks source (var, .oneOf (choices.map (·.1))) (choice source var default choices) := by
  intro e
  cases hget : source.get? var with
  | none =>
    rw [choice, hget]
    exact iff_of_false nofun (not_offends_of_unset (get?_eq_none_iff.1 hget))
  | some text =>
    have hunknown : text ∉ choices.map (·.1) ↔ choices.lookup text = none := by
      rw [List.lookup_eq_none_iff, List.mem_map]
      simp only [bne_iff_ne, not_exists, not_and, ne_comm (a := text), Ne]
    rw [offends_oneOf_iff (get?_eq_some_iff.1 hget), hunknown, choice, hget]
    dsimp only
    split <;> simp [*]

end

/-! ## Loading -/

/-- Settings are what the variables say, and the defaults where they say nothing. -/
structure Describes (source : Source) (s : Settings) : Prop where
  url : source.Gives "GPU_POOL_URL" (fun text url => url = text) ({} : Settings).url s.url
  refreshMillis :
    source.Gives "GPU_POOL_REFRESH_MS" SpellsPositive ({} : Settings).refreshMillis s.refreshMillis
  maxPoints :
    source.Gives "GPU_POOL_MAX_POINTS" SpellsPositive ({} : Settings).maxPoints s.maxPoints
  historyCapacity :
    source.Gives "GPU_POOL_HISTORY" SpellsPositive ({} : Settings).historyCapacity
      s.historyCapacity
  timeoutMillis :
    source.Gives "GPU_POOL_TIMEOUT_MS" SpellsPositive ({} : Settings).timeoutMillis s.timeoutMillis
  chartPath :
    source.Gives "GPU_POOL_CHART" (fun text path => path = some text) none s.chartPath
  overlap :
    source.Gives "GPU_POOL_OVERLAP" (fun text o => (text, o) ∈ overlapNames)
      ({} : Settings).overlap s.overlap
  refresh :
    source.Gives "GPU_POOL_REFRESH_STYLE" (fun text r => (text, r) ∈ refreshNames)
      ({} : Settings).refresh s.refresh

theorem load_eq_ok_iff {source : Source} {s : Settings} :
    load source = .ok s ↔ Describes source s := by
  have hoverlap : (overlapNames.map (·.1)).Nodup := by decide
  have hrefresh : (refreshNames.map (·.1)).Nodup := by decide
  simp only [load, bind_eq_ok_iff, positive_eq_ok_iff, choice_eq_ok_iff hoverlap,
    choice_eq_ok_iff hrefresh]
  constructor
  · rintro ⟨n, hn, m, hm, k, hk, t, ht, o, ho, r, hr, h⟩
    cases h
    exact ⟨getD_get?_eq_iff.1 rfl, hn, hm, hk, ht, get?_eq_iff.1 rfl, ho, hr⟩
  · rintro ⟨hurl, hn, hm, hk, ht, hchart, ho, hr⟩
    refine ⟨_, hn, _, hm, _, hk, _, ht, _, ho, _, hr, ?_⟩
    rw [getD_get?_eq_iff.2 hurl, get?_eq_iff.2 hchart]
    rfl

theorem load_eq_error_iff {source : Source} {e : SettingsError} :
    load source = .error e ↔ FirstOffence source checked e := by
  refine Checks.bind_eq_error (checks_positive _ _ _) fun _ => ?_
  refine Checks.bind_eq_error (checks_positive _ _ _) fun _ => ?_
  refine Checks.bind_eq_error (checks_positive _ _ _) fun _ => ?_
  refine Checks.bind_eq_error (checks_positive _ _ _) fun _ => ?_
  refine Checks.bind_eq_error (checks_choice _ _ _ overlapNames) fun _ => ?_
  refine Checks.bind_eq_error (checks_choice _ _ _ refreshNames) fun _ => ?_
  exact iff_of_false nofun not_firstOffence_nil

theorem exists_load_iff {source : Source} :
    (∃ s, load source = .ok s) ↔ ∀ v ∈ checked, IsValid source v := by
  rw [← not_iff_not, ← exists_firstOffence_iff]
  simp only [← load_eq_error_iff]
  cases load source <;> simp

/-! ## Writing settings -/

def overlapName : Overlap → String
  | .lastCompletion => "last-completion"
  | .lastIssued => "last-issued"

def refreshName : Refresh → String
  | .keepStale => "keep-stale"
  | .resetToLoading => "reset-to-loading"

def write (s : Settings) : Source
  | "GPU_POOL_URL" => some s.url
  | "GPU_POOL_REFRESH_MS" => some (toString s.refreshMillis)
  | "GPU_POOL_MAX_POINTS" => some (toString s.maxPoints)
  | "GPU_POOL_HISTORY" => some (toString s.historyCapacity)
  | "GPU_POOL_TIMEOUT_MS" => some (toString s.timeoutMillis)
  | "GPU_POOL_CHART" => s.chartPath
  | "GPU_POOL_OVERLAP" => some (overlapName s.overlap)
  | "GPU_POOL_REFRESH_STYLE" => some (refreshName s.refresh)
  | _ => none

/-- Settings whose texts are not blank and whose numbers are positive and have at most 64 bits. -/
structure IsWritable (s : Settings) : Prop where
  url : IsWritten s.url
  refreshMillis : 1 ≤ s.refreshMillis ∧ s.refreshMillis ≤ unsignedMax
  maxPoints : 1 ≤ s.maxPoints ∧ s.maxPoints ≤ unsignedMax
  historyCapacity : 1 ≤ s.historyCapacity ∧ s.historyCapacity ≤ unsignedMax
  timeoutMillis : 1 ≤ s.timeoutMillis ∧ s.timeoutMillis ≤ unsignedMax
  chartPath : ∀ path ∈ s.chartPath, IsWritten path

theorem isWritten_of_spells {text : String} {n : Nat} (h : Spells text n) : IsWritten text := by
  obtain ⟨x, ⟨before, after, -, -, htext⟩, -⟩ := h
  obtain ⟨c, hc⟩ := List.exists_mem_of_ne_nil _ x.chars_ne_nil
  refine ⟨c, ?_, x.isBlank_of_mem_chars c hc⟩
  rw [htext]
  exact List.mem_append_left _ (List.mem_append_right _ hc)

theorem gives_of_toString {source : Source} {var : String} {default n : Nat}
    (hset : source var = some (toString n)) (hn : 1 ≤ n ∧ n ≤ unsignedMax) :
    source.Gives var SpellsPositive default n :=
  have hspells := spells_toString hn.2
  .inl ⟨_, ⟨hset, isWritten_of_spells hspells⟩, hspells, hn.1⟩

theorem isWritten_overlapName (o : Overlap) : IsWritten (overlapName o) := by
  cases o <;> exact ⟨'l', by decide, by decide⟩

theorem isWritten_refreshName (r : Refresh) : IsWritten (refreshName r) := by
  cases r <;> exact ⟨'e', by decide, by decide⟩

theorem describes_write {s : Settings} (h : IsWritable s) : Describes (write s) s where
  url := .inl ⟨s.url, ⟨rfl, h.url⟩, rfl⟩
  refreshMillis := gives_of_toString rfl h.refreshMillis
  maxPoints := gives_of_toString rfl h.maxPoints
  historyCapacity := gives_of_toString rfl h.historyCapacity
  timeoutMillis := gives_of_toString rfl h.timeoutMillis
  chartPath := by
    cases hpath : s.chartPath with
    | none => exact .inr ⟨fun _ h => Option.some_ne_none _ (h.1.symm.trans hpath), rfl⟩
    | some path => exact .inl ⟨path, ⟨hpath, h.chartPath path hpath⟩, rfl⟩
  overlap :=
    .inl ⟨overlapName s.overlap, ⟨rfl, isWritten_overlapName _⟩, by cases s.overlap <;> decide⟩
  refresh :=
    .inl ⟨refreshName s.refresh, ⟨rfl, isWritten_refreshName _⟩, by cases s.refresh <;> decide⟩

/-- Settings are loaded exactly when every variable that is checked is unset or has a value of its
kind, and then they are what the variables say.  What is reported else is what is wrong with the
first variable that has no such value.  Settings that are written are loaded as they were. -/
theorem loads_exactly_valid (source : Source) :
    ((∃ s, load source = .ok s) ↔ ∀ v ∈ checked, IsValid source v) ∧
      (∀ s, load source = .ok s ↔ Describes source s) ∧
      (∀ e, load source = .error e ↔ FirstOffence source checked e) ∧
      ∀ s, IsWritable s → load (write s) = .ok s :=
  ⟨exists_load_iff, fun _ => load_eq_ok_iff, fun _ => load_eq_error_iff,
    fun _ h => load_eq_ok_iff.2 (describes_write h)⟩

def largest : Settings where
  url := "http://[::1]/"
  refreshMillis := unsignedMax
  maxPoints := unsignedMax
  historyCapacity := unsignedMax
  timeoutMillis := unsignedMax
  chartPath := some "\u00a0."
  overlap := .lastIssued
  refresh := .resetToLoading

theorem loads_largest : IsWritable largest ∧ load (write largest) = .ok largest :=
  have hfits : 1 ≤ unsignedMax ∧ unsignedMax ≤ unsignedMax := by decide
  have hwritable : IsWritable largest :=
    { url := ⟨'h', by decide, by decide⟩
      refreshMillis := hfits
      maxPoints := hfits
      historyCapacity := hfits
      timeoutMillis := hfits
      chartPath := by rintro _ ⟨⟩; exact ⟨'.', by decide, by decide⟩ }
  ⟨hwritable, (loads_exactly_valid (write largest)).2.2.2 largest hwritable⟩

end PoolWatch.Settings
