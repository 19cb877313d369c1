import PoolWatch.Proofs.Poller.Account
/-!
# What a poller shows

The display of a poller is a register.  Applied results write to it under both refresh styles, and
a poller that resets also writes when it issues a fetch.  Nothing else does, so the display is
always the last write of the log.  It cannot stay at loading: the newest fetch of the live run
never comes too late.
-/

namespace PoolWatch

variable {α σ : Type}

def Event.write? (refresh : Refresh) : Event α σ → Option (Shown α)
  | .applied _ _ result => some result.shown
  | .issued .. => if refresh = .resetToLoading then some .loading else none
  | _ => none

/-- The last write of a log. -/
def display (refresh : Refresh) (log : List (Event α σ)) : Shown α :=
  ((log.filterMap (Event.write? refresh)).getLast?).getD .loading

def Event.isIssueOrApplication : Event α σ → Bool
  | .issued .. | .applied .. => true
  | _ => false

/-- The most recent issue or application. -/
def latest? (log : List (Event α σ)) : Option (Event α σ) :=
  (log.filter Event.isIssueOrApplication).getLast?

@[simp] theorem Outcome.shown_ne_loading (result : Outcome α) : result.shown ≠ .loading := by
  cases result <;> simp [shown]

/-! ## Issues and applications in the log -/

theorem issues_filter (log : List (Event α σ)) :
    issues (log.filter Event.isIssueOrApplication) = issues log := by
  rw [issues, List.filterMap_filter, issues]
  congr 1
  ext e : 1
  cases e <;> rfl

theorem applications_filter (log : List (Event α σ)) :
    applications (log.filter Event.isIssueOrApplication) = applications log := by
  rw [applications, List.filterMap_filter, applications]
  congr 1
  ext e : 1
  cases e <;> rfl

theorem issues_of_latest?_eq_none {log : List (Event α σ)} (h : latest? log = none) :
    issues log = [] := by
  rw [latest?, List.getLast?_eq_none_iff] at h
  rw [← issues_filter, h, issues_nil]

theorem latest?_concat (log : List (Event α σ)) (e : Event α σ) :
    latest? (log ++ [e]) = if e.isIssueOrApplication then some e else latest? log := by
  rw [latest?, List.filter_append, List.getLast?_append]
  cases hkind : e.isIssueOrApplication <;> simp [hkind, latest?]

theorem latest?_append_of_isQuiet (log : List (Event α σ)) {events : List (Event α σ)}
    (h : ∀ e ∈ events, e.IsQuiet) : latest? (log ++ events) = latest? log := by
  have hnone : events.filter Event.isIssueOrApplication = [] := by
    rw [List.filter_eq_nil_iff]
    intro e he
    have hquiet := h e he
    cases e <;> simp_all [Event.IsQuiet, Event.isIssueOrApplication]
  rw [latest?, List.filter_append, hnone, List.append_nil, latest?]

theorem isIssueOrApplication_of_latest? {log : List (Event α σ)} {e : Event α σ}
    (h : latest? log = some e) : e.isIssueOrApplication = true :=
  (List.mem_filter.1 (List.mem_of_getLast? h)).2

theorem applications_of_latest? {log : List (Event α σ)} {run seq : Nat} {result : Outcome α}
    (h : latest? log = some (.applied run seq result)) :
    (applications log).getLast? = some (⟨run, seq⟩, result) := by
  obtain ⟨earlier, hsplit⟩ := List.getLast?_eq_some_iff.1 h
  rw [← applications_filter, hsplit, applications_append]
  exact List.getLast?_concat

/-! ## The last write -/

theorem display_concat (refresh : Refresh) (log : List (Event α σ)) (e : Event α σ) :
    display refresh (log ++ [e]) = (e.write? refresh).getD (display refresh log) := by
  rw [display, List.filterMap_append, List.getLast?_append]
  cases hwrite : e.write? refresh <;> simp [hwrite, display]

theorem display_append_of_isQuiet (refresh : Refresh) (log : List (Event α σ))
    {events : List (Event α σ)} (h : ∀ e ∈ events, e.IsQuiet) :
    display refresh (log ++ events) = display refresh log := by
  have hwrites : events.filterMap (Event.write? refresh) = [] := by
    refine filterMap_eq_nil_of_forall (fun e hquiet => ?_) h
    cases e <;> simp_all [Event.IsQuiet, Event.write?]
  rw [display, List.filterMap_append, hwrites, List.append_nil, display]

theorem display_keepStale (log : List (Event α σ)) :
    display .keepStale log =
      ((applications log).getLast?.map fun applied => applied.2.shown).getD .loading := by
  have hwrites : log.filterMap (Event.write? .keepStale) =
      (applications log).map fun applied => applied.2.shown := by
    rw [applications, List.map_filterMap]
    congr 1
    ext e : 1
    cases e <;> rfl
  rw [display, hwrites, List.getLast?_map]

theorem display_resetToLoading (log : List (Event α σ)) :
    display .resetToLoading log =
      match latest? log with
      | some (.applied _ _ result) => result.shown
      | _ => .loading := by
  induction log using List.reverseRecOn with
  | nil => rfl
  | append_singleton log e ih =>
    rw [display_concat, ih, latest?_concat]
    cases e <;> rfl

namespace Course

theorem current_change {c c' : Course α σ} (h : Change c c')
    (hcurrent : c.poller.current = display c.poller.policy.refresh c.log) :
    c'.poller.current = display c'.poller.policy.refresh c'.log := by
  cases h with
  | adjust shouldFetch closed subscribers nextTicket events hclosed hquiet =>
    rw [display_append_of_isQuiet _ _ hquiet]
    exact hcurrent
  | halt => exact hcurrent
  | begin => exact hcurrent
  | issue hrunning =>
    rw [display_concat, ← hcurrent, Event.write?]
    split <;> rfl
  | _ =>
    rw [display_concat]
    first | rfl | exact hcurrent

theorem current_run (policy : Policy) (pieces : List (Piece α σ)) :
    ((fresh policy).run pieces).poller.current =
      display policy.refresh ((fresh policy).run pieces).log := by
  have h := (changes_run (fresh policy : Course α σ) pieces).keep
    (P := fun c => c.poller.current = display c.poller.policy.refresh c.log)
    (fun hcurrent hchange => current_change hchange hcurrent) rfl
  rwa [policy_run] at h

/-! ## The newest fetch -/

/-- A fetch has landed, and a result was applied after the last issue.  Under the policy that keeps
the newest fetch it is the result of this one. -/
structure Settled (c : Course α σ) (fetch : Issue) : Prop where
  latest : ∃ run seq result, latest? c.log = some (.applied run seq result)
  wins : c.poller.policy.overlap = .lastIssued →
    ∃ result, (applications c.log).getLast? = some (fetch, result)

/-- The newest fetch of the live run is in flight or settled. -/
def NewestInFlightOrSettled (c : Course α σ) : Prop :=
  ∀ newest, (issues c.log).getLast? = some newest → c.poller.running = true →
    newest.run = c.poller.run → newest ∈ c.flights ∨ c.Settled newest

theorem Settled.apply {c : Course α σ} (haccount : c.Accounted) {newest fetch : Issue}
    (hnewest : (issues c.log).getLast? = some newest) (hflight : fetch ∈ c.flights)
    (hfresh : c.poller.isStale fetch.run fetch.seq = false) (h : c.Settled newest)
    (hoverlap : c.poller.policy.overlap = .lastIssued) : newest = fetch := by
  obtain ⟨result, hlast⟩ := h.wins hoverlap
  have hissued := haccount.mem_issues_of_mem_flights hflight
  -- The newest fetch was applied last, so an older one would come too late.
  have hseq : c.poller.appliedSeq = some newest.seq := by
    rw [haccount.appliedSeq, hlast, Option.map_some]
  have hle : newest.seq ≤ fetch.seq := by
    by_contra hlt
    rw [← Bool.not_eq_true, Poller.isStale_iff] at hfresh
    exact hfresh (Or.inr ⟨hoverlap, newest.seq, hseq, by omega⟩)
  have := haccount.seq_le_newest hnewest hissued
  exact haccount.eq_of_seq_eq (List.mem_of_getLast? hnewest) hissued (by omega)

theorem newestInFlightOrSettled_change {c c' : Course α σ} (haccount : c.Accounted)
    (hchange : Change c c') (h : c.NewestInFlightOrSettled) : c'.NewestInFlightOrSettled := by
  intro newest hnewest hrunning' hlive
  cases hchange with
  | adjust shouldFetch closed subscribers nextTicket events hclosed hquiet =>
    rw [issues_append, issues_of_isQuiet hquiet, List.append_nil] at hnewest
    refine (h newest hnewest hrunning' hlive).imp_right fun hsettled => ⟨?_, ?_⟩
    · rw [latest?_append_of_isQuiet _ hquiet]
      exact hsettled.latest
    · rw [applications_append, applications_of_isQuiet hquiet, List.append_nil]
      exact hsettled.wins
  | halt => cases hrunning'
  | begin hidle hopen =>
    have hle := haccount.run_le (List.mem_of_getLast? hnewest)
    rw [hlive] at hle
    exact absurd hle (Nat.not_succ_le_self _)
  | issue hrunning =>
    simp only [issues_append, issues_singleton, Event.issue?, Option.toList_some,
      List.getLast?_concat, Option.some.injEq] at hnewest
    subst hnewest
    exact Or.inl (List.mem_append_right _ List.mem_cons_self)
  | skip hrunning =>
    rw [issues_concat_of_none rfl] at hnewest
    refine (h newest hnewest hrunning' hlive).imp_right fun hsettled => ⟨?_, ?_⟩
    · rw [latest?_concat]
      exact hsettled.latest
    · simpa using hsettled.wins
  | apply fetch result hflight hfresh =>
    rw [issues_concat_of_none rfl] at hnewest
    have hlatest : ∃ run seq result', latest? (c.log ++ [.applied fetch.run fetch.seq result]) =
        some (.applied run seq result') := ⟨_, _, _, by rw [latest?_concat]; rfl⟩
    by_cases heq : newest = fetch
    · subst heq
      exact Or.inr ⟨hlatest, fun _ => ⟨result, by simp⟩⟩
    · refine (h newest hnewest hrunning' hlive).imp ?_ fun hsettled => ⟨hlatest, ?_⟩
      · exact (List.mem_erase_of_ne heq).2
      · exact fun hoverlap =>
          absurd (hsettled.apply haccount hnewest hflight hfresh hoverlap) heq
  | discard fetch result hflight hstale =>
    rw [issues_concat_of_none rfl] at hnewest
    have hne : newest ≠ fetch := by
      rintro rfl
      have := haccount.not_isStale_newest hnewest hrunning' hlive
      simp [this] at hstale
    refine (h newest hnewest hrunning' hlive).imp ?_ fun hsettled => ⟨?_, ?_⟩
    · exact (List.mem_erase_of_ne hne).2
    · rw [latest?_concat]
      exact hsettled.latest
    · simpa using hsettled.wins

theorem newestInFlightOrSettled_run (policy : Policy) (pieces : List (Piece α σ)) :
    ((fresh policy).run pieces).NewestInFlightOrSettled := by
  refine ((changes_run (fresh policy : Course α σ) pieces).keep
    (P := fun c => c.Accounted ∧ c.NewestInFlightOrSettled) ?_ ⟨accounted_fresh policy, ?_⟩).2
  · rintro c c' ⟨haccount, hnewest⟩ hchange
    exact ⟨haccount.change hchange, newestInFlightOrSettled_change haccount hchange hnewest⟩
  · intro newest hnewest
    simp [fresh] at hnewest

/-! ## When a poller shows loading -/

section

variable {policy : Policy} (pieces : List (Piece α σ))

theorem current_of_keepStale (hrefresh : policy.refresh = .keepStale) {fetch : Issue}
    {result : Outcome α}
    (hlast : (applications ((fresh policy).run pieces).log).getLast? = some (fetch, result)) :
    ((fresh policy).run pieces).poller.current = result.shown := by
  rw [current_run, hrefresh, display_keepStale, hlast]
  rfl

theorem loading_iff_of_keepStale (hrefresh : policy.refresh = .keepStale) :
    ((fresh policy).run pieces).poller.current = .loading ↔
      applications ((fresh policy).run pieces).log = [] := by
  cases hlast : (applications ((fresh policy).run pieces).log).getLast? with
  | none =>
    rw [current_run, hrefresh, display_keepStale, hlast]
    simpa using hlast
  | some applied =>
    obtain ⟨fetch, result⟩ := applied
    rw [current_of_keepStale pieces hrefresh hlast]
    simp [List.ne_nil_of_mem (List.mem_of_getLast? hlast)]

theorem current_of_resetToLoading (hrefresh : policy.refresh = .resetToLoading) {run seq : Nat}
    {result : Outcome α}
    (hlatest : latest? ((fresh policy).run pieces).log = some (.applied run seq result)) :
    ((fresh policy).run pieces).poller.current = result.shown := by
  rw [current_run, hrefresh, display_resetToLoading, hlatest]

theorem current_of_latest? {run seq : Nat} {result : Outcome α}
    (hlatest : latest? ((fresh policy).run pieces).log = some (.applied run seq result)) :
    ((fresh policy).run pieces).poller.current = result.shown := by
  cases hrefresh : policy.refresh with
  | keepStale => exact current_of_keepStale pieces hrefresh (applications_of_latest? hlatest)
  | resetToLoading => exact current_of_resetToLoading pieces hrefresh hlatest

theorem loading_of_resetToLoading (hrefresh : policy.refresh = .resetToLoading)
    (hlatest : ∀ run seq result,
      latest? ((fresh policy).run pieces).log ≠ some (.applied run seq result)) :
    ((fresh policy).run pieces).poller.current = .loading := by
  rw [current_run, hrefresh, display_resetToLoading]
  split
  · next run seq result h => exact absurd h (hlatest run seq result)
  · rfl

theorem loading_iff_of_resetToLoading (hrefresh : policy.refresh = .resetToLoading) :
    ((fresh policy).run pieces).poller.current = .loading ↔
      issues ((fresh policy).run pieces).log = [] ∨
        ∃ run seq, latest? ((fresh policy).run pieces).log = some (.issued run seq) := by
  constructor
  · intro hloading
    cases hlatest : latest? ((fresh policy).run pieces).log with
    | none => exact Or.inl (issues_of_latest?_eq_none hlatest)
    | some e =>
      have hkind := isIssueOrApplication_of_latest? hlatest
      cases e with
      | issued run seq => exact Or.inr ⟨run, seq, rfl⟩
      | applied run seq result =>
        rw [current_of_resetToLoading pieces hrefresh hlatest] at hloading
        exact absurd hloading result.shown_ne_loading
      | _ => cases hkind
  · intro h
    refine loading_of_resetToLoading pieces hrefresh fun run seq result hlatest => ?_
    rcases h with hnone | ⟨run', seq', hissued⟩
    · have hmem := List.mem_of_getLast? (applications_of_latest? hlatest)
      have := (accounted_run policy pieces).mem_issues_of_mem_applications hmem
      simp [hnone] at this
    · rw [hissued] at hlatest
      cases hlatest

theorem exists_applied_of_resetToLoading (hrefresh : policy.refresh = .resetToLoading)
    (hcurrent : ((fresh policy).run pieces).poller.current ≠ .loading) :
    ∃ fetch result,
      (applications ((fresh policy).run pieces).log).getLast? = some (fetch, result) ∧
      ((fresh policy).run pieces).poller.current = result.shown := by
  by_contra hnone
  refine hcurrent (loading_of_resetToLoading pieces hrefresh fun run seq result hlatest => ?_)
  exact hnone ⟨_, _, applications_of_latest? hlatest,
    current_of_resetToLoading pieces hrefresh hlatest⟩

end

/-! ## The main statement -/

/-- Whatever a poller has been through, one that keeps stale results shows loading until the first
result is applied and from then on the last one applied.  One that resets shows loading if a fetch
was issued after the last result was applied, or if there is none, and that result otherwise; while
it runs and shows loading, the newest fetch of its run is in flight. -/
theorem shows_last_write (policy : Policy) (pieces : List (Piece α σ)) :
    let c := (fresh policy).run pieces
    (policy.refresh = .keepStale →
      (c.poller.current = .loading ↔ applications c.log = []) ∧
      (∀ fetch result, (applications c.log).getLast? = some (fetch, result) →
        c.poller.current = result.shown) ∧
      ∀ more, c.poller.current ≠ .loading → (c.run more).poller.current ≠ .loading) ∧
    (policy.refresh = .resetToLoading →
      (c.poller.current = .loading ↔
        issues c.log = [] ∨ ∃ run seq, latest? c.log = some (.issued run seq)) ∧
      (c.poller.current ≠ .loading → ∃ fetch result,
        (applications c.log).getLast? = some (fetch, result) ∧
        c.poller.current = result.shown) ∧
      (c.poller.running = true → (∃ fetch ∈ issues c.log, fetch.run = c.poller.run) →
        c.poller.current = .loading →
        ∃ newest, (issues c.log).getLast? = some newest ∧ newest.run = c.poller.run ∧
          newest ∈ c.flights)) := by
  intro c
  constructor
  · intro hrefresh
    refine ⟨loading_iff_of_keepStale pieces hrefresh,
      fun fetch result => current_of_keepStale pieces hrefresh, fun more hcurrent => ?_⟩
    rw [Ne, loading_iff_of_keepStale pieces hrefresh] at hcurrent
    rw [← run_append, Ne, loading_iff_of_keepStale (pieces ++ more) hrefresh, run_append]
    intro hnone
    have hprefix := (changes_run c more).log_grows.filterMap Event.application?
    rw [← applications, ← applications, hnone] at hprefix
    exact hcurrent (List.prefix_nil.1 hprefix)
  · intro hrefresh
    refine ⟨loading_iff_of_resetToLoading pieces hrefresh,
      exists_applied_of_resetToLoading pieces hrefresh, ?_⟩
    rintro hrunning ⟨fetch, hissued, hlive⟩ hloading
    obtain ⟨newest, hnewest, hrun⟩ :=
      (accounted_run policy pieces).exists_newest_live hissued hlive
    refine ⟨newest, hnewest, hrun, ?_⟩
    refine (newestInFlightOrSettled_run policy pieces newest hnewest hrunning hrun).resolve_right ?_
    rintro ⟨⟨run, seq, result, hlatest⟩, -⟩
    rw [current_of_resetToLoading pieces hrefresh hlatest] at hloading
    exact result.shown_ne_loading hloading

/-- Three fetches of one run, of which the first has landed before the third was issued. -/
theorem shows_last_write_of_three :
    let pieces : List (Piece Nat Nat) := [.move .start, .move (.tick 1), .move (.tick 1),
      .land ⟨1, 0⟩ (.success 3), .move (.tick 1)]
    let stale := (fresh {}).run pieces
    let reset := (fresh { refresh := .resetToLoading }).run pieces
    stale.poller.current = .success 3 ∧ reset.poller.current = .loading ∧
      ∃ newest, (issues reset.log).getLast? = some newest ∧ newest.run = reset.poller.run ∧
        newest ∈ reset.flights := by
  intro pieces stale reset
  have hstale := (shows_last_write {} pieces).1 rfl
  have hreset := (shows_last_write { refresh := .resetToLoading } pieces).2 rfl
  have hloading : reset.poller.current = .loading := hreset.1.2 (Or.inr ⟨1, 2, by decide⟩)
  refine ⟨hstale.2.1 ⟨1, 0⟩ (.success 3) (by decide), hloading, ?_⟩
  exact hreset.2.2 (by decide) ⟨⟨1, 2⟩, by decide, by decide⟩ hloading

end Course

end PoolWatch
