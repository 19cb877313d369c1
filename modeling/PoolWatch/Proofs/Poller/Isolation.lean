import PoolWatch.Proofs.Poller.Account
/-!
# Runs do not disturb one another

Every start, stop and drop leaves the fetches issued so far behind in runs that are over.  Runs
are numbered upwards, so these fetches stay behind, and a poller only counts their results.
Between a stop and the next start nothing but those counts can change.
-/

namespace PoolWatch

variable {α σ : Type}

/-- The moves that end a run. -/
def Move.EndsRun (m : Move α σ) : Prop := m = .start ∨ m = .stop ∨ m = .drop

namespace Course

/-! ## Fetches are left behind -/

theorem run_lt_stop {c : Course α σ} (h : c.Accounted) {fetch : Issue}
    (hissued : fetch ∈ issues c.log) : fetch.run < c.poller.stop.run := by
  have hlive := h.live_or_over fetch hissued
  unfold Poller.stop
  by_cases hrunning : c.poller.running = true
  · rw [if_pos hrunning]
    show fetch.run < c.poller.run + 1
    omega
  · rw [if_neg hrunning]
    simpa [hrunning] using hlive

theorem run_lt_of_endsRun {c : Course α σ} (h : c.Accounted)
    (hclosed : c.poller.closed = true → c.poller.running = false) {m : Move α σ}
    (hm : m.EndsRun) {fetch : Issue} (hissued : fetch ∈ issues c.log) :
    fetch.run < (c.step (.move m)).poller.run := by
  have hstop := run_lt_stop h hissued
  rcases hm with rfl | rfl | rfl
  · show fetch.run < c.poller.start.run
    unfold Poller.start
    by_cases hc : c.poller.closed = true
    · rw [if_pos hc]
      simpa [hclosed hc] using h.live_or_over fetch hissued
    · rw [if_neg hc]
      exact Nat.lt_succ_of_lt hstop
  · exact hstop
  · exact hstop

theorem complete_of_run_lt {p : Poller α σ} {run : Nat} (h : run < p.run) (b : Behaviour α σ)
    (seq : Nat) (result : Outcome α) :
    p.complete b run seq result = (p.discard, [.discarded run seq result]) := by
  refine Poller.complete_of_isStale b (Poller.isStale_of_over ?_ seq) result
  rintro ⟨-, rfl⟩
  exact Nat.lt_irrefl _ h

/-! ## Between a stop and the next start -/

/-- Nothing was issued, applied or skipped on the way. -/
structure Undisturbed (c c' : Course α σ) : Prop where
  running : c'.poller.running = false
  issues : issues c'.log = issues c.log
  current : c'.poller.current = c.poller.current
  issued : c'.poller.stats.issued = c.poller.stats.issued
  completed : c'.poller.stats.completed = c.poller.stats.completed
  skipped : c'.poller.stats.skipped = c.poller.stats.skipped

theorem Undisturbed.trans {a b c : Course α σ} (hab : Undisturbed a b) (hbc : Undisturbed b c) :
    Undisturbed a c :=
  ⟨hbc.running, hbc.issues.trans hab.issues, hbc.current.trans hab.current,
    hbc.issued.trans hab.issued, hbc.completed.trans hab.completed,
    hbc.skipped.trans hab.skipped⟩

theorem undisturbed_of_isAdjustment {c : Course α σ} {next : Poller α σ × List (Event α σ)}
    (hidle : c.poller.running = false) (h : IsAdjustment c.poller next) :
    Undisturbed c (c.become next) := by
  have hquiet := issues_of_isQuiet h.isQuiet
  have hpoller := h.poller_eq
  constructor <;> simp only [become, issues_append, hquiet, List.append_nil] <;>
    rw [hpoller]
  exact hidle

theorem undisturbed_step {c : Course α σ} (hidle : c.poller.running = false)
    {piece : Piece α σ} (hpiece : piece ≠ .move .start) : Undisturbed c (c.step piece) := by
  have hstop : c.poller.stop = c.poller := by
    rw [Poller.stop, if_neg (by simp [hidle])]
  cases piece with
  | move m =>
    cases m with
    | start => exact absurd rfl hpiece
    | stop =>
      simp only [step, Poller.move, hstop]
      exact undisturbed_of_isAdjustment hidle ⟨rfl, fun _ => rfl, by simp⟩
    | drop =>
      have hdrop := c.poller.isAdjustment_drop
      rw [hstop] at hdrop
      exact undisturbed_of_isAdjustment hidle hdrop
    | setShouldFetch enabled =>
      exact undisturbed_of_isAdjustment hidle (c.poller.isAdjustment_setShouldFetch enabled)
    | subscribe role =>
      exact undisturbed_of_isAdjustment hidle (c.poller.isAdjustment_subscribe role)
    | cancel ticket =>
      exact undisturbed_of_isAdjustment hidle (c.poller.isAdjustment_cancel ticket)
    | tick run =>
      have htick : c.poller.tick run = (c.poller, none, []) :=
        Poller.tick_of_not_live (by simp [hidle])
      simp only [step, Poller.move, htick]
      exact undisturbed_of_isAdjustment hidle ⟨rfl, fun _ => rfl, by simp⟩
  | land fetch result =>
    rw [step]
    split
    · have hstale : c.poller.isStale fetch.run fetch.seq = true :=
        Poller.isStale_of_over (by simp [hidle]) fetch.seq
      rw [land, Poller.accept?_of_isStale hstale]
      exact ⟨hidle, by simp, rfl, rfl, rfl, rfl⟩
    · exact ⟨hidle, rfl, rfl, rfl, rfl, rfl⟩
  | putBack kept =>
    exact undisturbed_of_isAdjustment hidle (c.poller.isAdjustment_putBack kept)
  | complete b fetch result =>
    rw [step]
    split
    · rw [Poller.complete_of_isStale b (Poller.isStale_of_over (by simp [hidle]) fetch.seq)]
      exact ⟨hidle, by simp [become], rfl, rfl, rfl, rfl⟩
    · exact ⟨hidle, rfl, rfl, rfl, rfl, rfl⟩

theorem undisturbed_run {c : Course α σ} (hidle : c.poller.running = false)
    {pieces : List (Piece α σ)} (hpieces : .move .start ∉ pieces) :
    Undisturbed c (c.run pieces) := by
  induction pieces generalizing c with
  | nil => exact ⟨hidle, rfl, rfl, rfl, rfl, rfl⟩
  | cons piece pieces ih =>
    rw [List.mem_cons, not_or] at hpieces
    have hstep := undisturbed_step hidle (Ne.symm hpieces.1)
    exact hstep.trans (ih hstep.running hpieces.2)

theorem running_of_endsRun {c : Course α σ} {m : Move α σ} (hm : m.EndsRun)
    (hstart : m ≠ .start) : (c.step (.move m)).poller.running = false := by
  rcases hm with rfl | rfl | rfl
  · exact absurd rfl hstart
  · exact c.poller.running_stop
  · exact c.poller.running_stop

/-! ## The main statement -/

/-- Whatever a poller has been through and whatever happens after its run was ended by a stop,
another start or a drop, the result of a fetch issued before is counted as discarded and changes
nothing else, and nobody is told.  Until the next start nothing is issued, shown, applied or
skipped. -/
theorem ended_run_disturbs_nothing (policy : Policy) (before after : List (Piece α σ))
    (ending : Move α σ) (hending : ending.EndsRun) :
    let running := (fresh policy).run before
    let ended := running.step (.move ending)
    let c := ended.run after
    (∀ fetch ∈ issues running.log, ∀ (b : Behaviour α σ) (result : Outcome α),
      c.poller.complete b fetch.run fetch.seq result =
        ({ c.poller with
            stats := { c.poller.stats with discarded := c.poller.stats.discarded + 1 } },
          [.discarded fetch.run fetch.seq result])) ∧
    (ending ≠ .start → .move .start ∉ after →
      issues c.log = issues ended.log ∧ c.poller.current = ended.poller.current ∧
      c.poller.stats.issued = ended.poller.stats.issued ∧
      c.poller.stats.completed = ended.poller.stats.completed ∧
      c.poller.stats.skipped = ended.poller.stats.skipped) := by
  intro running ended c
  constructor
  · intro fetch hissued b result
    have hended : fetch.run < ended.poller.run :=
      run_lt_of_endsRun (accounted_run policy before) (running_of_closed policy before) hending
        hissued
    have hlater : ended.poller.run ≤ c.poller.run := (changes_run ended after).run_le
    exact complete_of_run_lt (Nat.lt_of_lt_of_le hended hlater) b fetch.seq result
  · intro hstart hafter
    have h := undisturbed_run (running_of_endsRun (c := running) hending hstart) hafter
    exact ⟨h.issues, h.current, h.issued, h.completed, h.skipped⟩

/-- A fetch of the first run lands while the second one has a fetch in flight, and ticks of both
runs come after the second one was stopped. -/
theorem first_run_ended :
    let running : Course Nat Nat := (fresh {}).run [.move .start, .move (.tick 1)]
    let restarted := (running.step (.move .start)).run [.move (.tick 3)]
    let again : Course Nat Nat :=
      (fresh {}).run [.move .start, .move (.tick 1), .move .start, .move (.tick 3)]
    let stopped := (again.step (.move .stop)).run [.land ⟨1, 0⟩ (.success 7), .move (.tick 3)]
    Move.EndsRun (.start : Move Nat Nat) ∧ ⟨1, 0⟩ ∈ issues running.log ∧
    restarted.poller.complete ⟨fun o _ => ⟨true, o, []⟩⟩ 1 0 (.success 7) =
      ({ restarted.poller with stats := ⟨2, 0, 1, 0⟩ }, [.discarded 1 0 (.success 7)]) ∧
    Move.EndsRun (.stop : Move Nat Nat) ∧
    issues stopped.log = [⟨1, 0⟩, ⟨3, 1⟩] := by
  have hstart := ended_run_disturbs_nothing {} [.move .start, .move (.tick 1)]
    [.move (.tick 3)] (.start : Move Nat Nat) (Or.inl rfl)
  have hstop := ended_run_disturbs_nothing {}
    [.move .start, .move (.tick 1), .move .start, .move (.tick 3)]
    [.land ⟨1, 0⟩ (.success 7), .move (.tick 3)] (.stop : Move Nat Nat) (Or.inr (Or.inl rfl))
  have hissued : ⟨1, 0⟩ ∈ issues
      ((fresh {}).run [.move .start, .move (.tick 1)] : Course Nat Nat).log := by decide
  refine ⟨Or.inl rfl, hissued, hstart.1 ⟨1, 0⟩ hissued _ _, Or.inr (Or.inl rfl), ?_⟩
  exact (hstop.2 (by simp) (by simp)).1

end Course

end PoolWatch
