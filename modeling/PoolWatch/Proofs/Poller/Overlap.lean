import PoolWatch.Proofs.Poller.Display
/-!
# The newest fetch wins

Under the policy that keeps the newest fetch, results are applied in the order in which their
fetches were issued, over the whole life of a poller.  The number applied last is kept when a run
ends, yet it never stands in the way of a later run: the fetches of that run have greater numbers.
So within the live run a result is dropped for one reason only, that a later fetch of the run has
been applied, and when all its fetches have landed the newest one has been applied last.
-/

namespace PoolWatch

variable {α σ : Type}

/-- The result of a fetch issued later in the same run has been applied. -/
def IsSuperseded (log : List (Event α σ)) (fetch : Issue) : Prop :=
  ∃ later result, (later, result) ∈ applications log ∧ later.run = fetch.run ∧
    IssuedBefore log fetch later

theorem le_of_getElem?_eq_some {l : List Nat} (h : l.Pairwise (· < ·)) {n k : Nat}
    (hk : l[n]? = some k) : n ≤ k := by
  induction n generalizing k with
  | zero => exact Nat.zero_le k
  | succ n ih =>
    obtain ⟨hn, rfl⟩ := List.getElem?_eq_some_iff.1 hk
    have hle : n ≤ l[n] := ih (List.getElem?_eq_getElem _)
    have hlt : l[n] < l[n + 1] := List.pairwise_iff_getElem.1 h n (n + 1) _ hn (Nat.lt_succ_self n)
    omega

namespace Course

/-! ## The order of applications -/

/-- Results are applied in the order of issue. -/
def AppliesInOrder (c : Course α σ) : Prop :=
  (applications c.log).Pairwise fun a b => a.1.seq < b.1.seq

theorem AppliesInOrder.seq_le {c : Course α σ} (h : c.AppliesInOrder) {last fetch : Issue}
    {lastResult result : Outcome α}
    (hlast : (applications c.log).getLast? = some (last, lastResult))
    (hfetch : (fetch, result) ∈ applications c.log) : fetch.seq ≤ last.seq := by
  obtain ⟨earlier, hsplit⟩ := List.getLast?_eq_some_iff.1 hlast
  rw [AppliesInOrder, hsplit] at h
  rw [hsplit, List.mem_append, List.mem_singleton] at hfetch
  rcases hfetch with hearlier | heq
  · exact Nat.le_of_lt (h.rel_of_mem_append hearlier List.mem_cons_self)
  · cases heq
    exact Nat.le_refl _

theorem seq_lt_of_not_isStale {c : Course α σ} (haccount : c.Accounted) (h : c.AppliesInOrder)
    (hoverlap : c.poller.policy.overlap = .lastIssued) {fetch : Issue}
    (hflight : fetch ∈ c.flights) (hfresh : c.poller.isStale fetch.run fetch.seq = false)
    {earlier : Issue} {result : Outcome α} (hearlier : (earlier, result) ∈ applications c.log) :
    earlier.seq < fetch.seq := by
  have hne : (applications c.log).getLast? ≠ none := by
    rw [Ne, List.getLast?_eq_none_iff]
    exact List.ne_nil_of_mem hearlier
  obtain ⟨⟨last, lastResult⟩, hlast⟩ := Option.ne_none_iff_exists'.1 hne
  have hle : last.seq ≤ fetch.seq := by
    by_contra hlt
    rw [← Bool.not_eq_true, Poller.isStale_iff] at hfresh
    refine hfresh (Or.inr ⟨hoverlap, last.seq, ?_, by omega⟩)
    rw [haccount.appliedSeq, hlast, Option.map_some]
  have hearlier_le := h.seq_le hlast hearlier
  have hne_seq : earlier.seq ≠ fetch.seq := by
    intro heq
    have hsame := haccount.eq_of_seq_eq (haccount.mem_issues_of_mem_applications hearlier)
      (haccount.mem_issues_of_mem_flights hflight) heq
    subst hsame
    exact haccount.not_mem_landings hflight (mem_landings_of_mem_applications hearlier)
  omega

theorem appliesInOrder_change {c c' : Course α σ} (haccount : c.Accounted)
    (hoverlap : c.poller.policy.overlap = .lastIssued) (hchange : Change c c')
    (h : c.AppliesInOrder) : c'.AppliesInOrder := by
  cases hchange with
  | adjust shouldFetch closed subscribers nextTicket events hclosed hquiet =>
    simpa [AppliesInOrder, applications_of_isQuiet hquiet] using h
  | apply fetch result hflight hfresh =>
    simp only [AppliesInOrder, applications_append, applications_singleton, Event.application?,
      Option.toList_some]
    refine List.pairwise_append.2 ⟨h, List.pairwise_singleton _ _, ?_⟩
    rintro ⟨earlier, earlierResult⟩ hearlier applied happlied
    rw [List.mem_singleton] at happlied
    subst happlied
    exact seq_lt_of_not_isStale haccount h hoverlap hflight hfresh hearlier
  | _ => simpa [AppliesInOrder] using h

theorem appliesInOrder_run {policy : Policy} (hoverlap : policy.overlap = .lastIssued)
    (pieces : List (Piece α σ)) : ((fresh policy).run pieces).AppliesInOrder := by
  refine ((changes_run (fresh policy : Course α σ) pieces).keep
    (P := fun c => c.Accounted ∧ c.poller.policy = policy ∧ c.AppliesInOrder) ?_
    ⟨accounted_fresh policy, rfl, .nil⟩).2.2
  rintro c c' ⟨haccount, rfl, horder⟩ hchange
  exact ⟨haccount.change hchange, (Changes.policy_eq (.single hchange)),
    appliesInOrder_change haccount hoverlap hchange horder⟩

theorem exists_issue_of_application {c : Course α σ} (haccount : c.Accounted)
    (h : c.AppliesInOrder) {n : Nat} {fetch : Issue} {result : Outcome α}
    (hn : (applications c.log)[n]? = some (fetch, result)) :
    ∃ k, n ≤ k ∧ (issues c.log)[k]? = some fetch := by
  have hseqs : ((applications c.log).map fun a => a.1.seq).Pairwise (· < ·) :=
    List.pairwise_map.2 h
  refine ⟨fetch.seq, le_of_getElem?_eq_some hseqs (by simp [hn]), ?_⟩
  exact haccount.getElem?_issues
    (haccount.mem_issues_of_mem_applications (List.mem_of_getElem? hn))

/-! ## Superseded fetches -/

theorem isStale_iff_isSuperseded {c : Course α σ} (haccount : c.Accounted)
    (h : c.AppliesInOrder) (hoverlap : c.poller.policy.overlap = .lastIssued)
    (hrunning : c.poller.running = true) {fetch : Issue} (hflight : fetch ∈ c.flights)
    (hlive : fetch.run = c.poller.run) :
    c.poller.isStale fetch.run fetch.seq = true ↔ IsSuperseded c.log fetch := by
  have hissued := haccount.mem_issues_of_mem_flights hflight
  rw [Poller.isStale_iff]
  constructor
  · rintro (hover | ⟨-, seq, hseq, hlt⟩)
    · exact absurd ⟨hrunning, hlive.symm⟩ hover
    · obtain ⟨later, result, hlast, rfl⟩ := haccount.exists_applied hseq
      have happlied := List.mem_of_getLast? hlast
      have hlater := haccount.mem_issues_of_mem_applications happlied
      have hrun := haccount.run_le_of_seq_lt hissued hlater hlt
      have hrun_le := haccount.run_le hlater
      exact ⟨later, result, happlied, by omega,
        haccount.issuedBefore_iff.2 ⟨hissued, hlater, hlt⟩⟩
  · rintro ⟨later, result, happlied, -, hbefore⟩
    obtain ⟨-, -, hlt⟩ := haccount.issuedBefore_iff.1 hbefore
    by_contra hfresh
    rw [← Poller.isStale_iff, Bool.not_eq_true] at hfresh
    have := seq_lt_of_not_isStale haccount h hoverlap hflight hfresh happlied
    omega

/-! ## The main statement -/

/-- Under the policy that keeps the newest fetch, whatever a poller has been through and in
whatever order its fetches land: the numbers of the applied fetches increase, and the result
applied at an index belongs to a fetch issued at that index or later.  In the live run a result is
dropped exactly when that of a fetch issued later in the run has been applied, and once all fetches
of the run have landed, the newest one has been applied last and is shown. -/
theorem newest_issue_wins (policy : Policy) (hoverlap : policy.overlap = .lastIssued)
    (pieces : List (Piece α σ)) :
    let c := (fresh policy).run pieces
    ((applications c.log).map fun applied => applied.1.seq).Pairwise (· < ·) ∧
    (∀ (n : Nat) fetch result, (applications c.log)[n]? = some (fetch, result) →
      ∃ k, n ≤ k ∧ (issues c.log)[k]? = some fetch) ∧
    (c.poller.running = true →
      (∀ fetch ∈ c.flights, fetch.run = c.poller.run → ∀ (b : Behaviour α σ) result,
        let events := (c.poller.complete b fetch.run fetch.seq result).2
        (events = [.discarded fetch.run fetch.seq result] ↔ IsSuperseded c.log fetch) ∧
        ((∃ told, events = .applied fetch.run fetch.seq result :: told) ↔
          ¬IsSuperseded c.log fetch)) ∧
      ((∃ fetch ∈ issues c.log, fetch.run = c.poller.run) →
        (∀ fetch ∈ c.flights, fetch.run ≠ c.poller.run) →
        ∃ newest result, (issues c.log).getLast? = some newest ∧ newest.run = c.poller.run ∧
          (applications c.log).getLast? = some (newest, result) ∧
          c.poller.current = result.shown)) := by
  intro c
  have haccount : c.Accounted := accounted_run policy pieces
  have horder : c.AppliesInOrder := appliesInOrder_run hoverlap pieces
  have hpolicy : c.poller.policy.overlap = .lastIssued := by
    rw [policy_run]
    exact hoverlap
  refine ⟨List.pairwise_map.2 horder, fun n fetch result => ?_, fun hrunning => ⟨?_, ?_⟩⟩
  · exact exists_issue_of_application haccount horder
  · intro fetch hflight hlive b result events
    rw [← isStale_iff_isSuperseded haccount horder hpolicy hrunning hflight hlive]
    cases hstale : c.poller.isStale fetch.run fetch.seq with
    | true =>
      have hevents : events = [.discarded fetch.run fetch.seq result] :=
        congrArg Prod.snd (Poller.complete_of_isStale b hstale result)
      simp [hevents]
    | false =>
      obtain ⟨told, hevents⟩ := Poller.exists_complete_of_fresh b hstale result
      have hevents : events = .applied fetch.run fetch.seq result :: told := hevents
      simp [hevents]
  · rintro ⟨fetch, hissued, hlive⟩ hlanded
    obtain ⟨newest, hnewest, hrun⟩ := haccount.exists_newest_live hissued hlive
    have hsettled : c.Settled newest :=
      (newestInFlightOrSettled_run policy pieces newest hnewest hrunning hrun).resolve_left
        fun hflight => hlanded newest hflight hrun
    obtain ⟨run, seq, result, hlatest⟩ := hsettled.latest
    obtain ⟨result', hlast⟩ := hsettled.wins hpolicy
    have hsame := (applications_of_latest? hlatest).symm.trans hlast
    simp only [Option.some.injEq, Prod.mk.injEq] at hsame
    refine ⟨newest, result', hnewest, hrun, hlast, ?_⟩
    rw [← hsame.2]
    exact current_of_latest? pieces hlatest

/-- The later of two fetches lands first, so the earlier one is superseded. -/
theorem newest_issue_wins_reordered :
    let policy : Policy := { overlap := .lastIssued }
    let pieces : List (Piece Nat Nat) :=
      [.move .start, .move (.tick 1), .move (.tick 1), .land ⟨1, 1⟩ (.success 5)]
    let more := pieces ++ [.land ⟨1, 0⟩ (.success 4)]
    let c := (fresh policy).run pieces
    let landed := (fresh policy).run more
    policy.overlap = .lastIssued ∧ c.poller.running = true ∧ ⟨1, 0⟩ ∈ c.flights ∧
      (c.poller.complete ⟨fun o _ => ⟨true, o, []⟩⟩ 1 0 (.success 4)).2 =
        [.discarded 1 0 (.success 4)] ∧
      ∃ newest result, (issues landed.log).getLast? = some newest ∧
        newest.run = landed.poller.run ∧
        (applications landed.log).getLast? = some (newest, result) ∧
        landed.poller.current = result.shown := by
  intro policy pieces more
  have hc := (newest_issue_wins policy rfl pieces).2.2 (by decide)
  have hlanded := (newest_issue_wins policy rfl more).2.2 (by decide)
  have hflight : ⟨1, 0⟩ ∈ ((fresh policy).run pieces).flights := by decide
  have hsuperseded : IsSuperseded ((fresh policy).run pieces).log ⟨1, 0⟩ :=
    ⟨⟨1, 1⟩, .success 5, by decide, rfl, by unfold IssuedBefore; decide⟩
  refine ⟨rfl, by decide, hflight, (hc.1 ⟨1, 0⟩ hflight rfl _ _).1.2 hsuperseded, ?_⟩
  exact hlanded.2 ⟨⟨1, 1⟩, by decide, rfl⟩ (by decide)

end Course

end PoolWatch
