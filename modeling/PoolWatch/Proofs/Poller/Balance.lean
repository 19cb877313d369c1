import PoolWatch.Proofs.Poller.Account
/-!
# The counters add up

A poller counts the fetches it has issued, the results it has applied and those it has dropped.
In every course these counters are the numbers of the corresponding events, and what has been
issued but neither applied nor dropped is in flight.  A tick of the live run is counted once, as
issued or as skipped, and a tick of any other run is not counted.
-/

namespace PoolWatch

variable {α σ : Type}

@[simp] def Event.discard? : Event α σ → Option Issue
  | .discarded run seq _ => some ⟨run, seq⟩
  | _ => none

/-- The fetches whose results were dropped in a log, in the order of landing. -/
def discards (log : List (Event α σ)) : List Issue := log.filterMap Event.discard?

/-- The fetches whose results were applied in a log, in the order of application. -/
def appliedFetches (log : List (Event α σ)) : List Issue := (applications log).map Prod.fst

@[simp] theorem discards_append (a b : List (Event α σ)) :
    discards (a ++ b) = discards a ++ discards b :=
  List.filterMap_append

@[simp] theorem discards_singleton (e : Event α σ) : discards [e] = e.discard?.toList := by
  cases e <;> rfl

@[simp] theorem appliedFetches_append (a b : List (Event α σ)) :
    appliedFetches (a ++ b) = appliedFetches a ++ appliedFetches b := by
  simp [appliedFetches]

@[simp] theorem appliedFetches_singleton (e : Event α σ) :
    appliedFetches [e] = (e.application?.map Prod.fst).toList := by
  cases e <;> rfl

theorem discards_of_isQuiet {events : List (Event α σ)} (h : ∀ e ∈ events, e.IsQuiet) :
    discards events = [] := by
  refine filterMap_eq_nil_of_forall (fun e he => ?_) h
  cases e <;> simp_all [Event.IsQuiet]

theorem appliedFetches_of_isQuiet {events : List (Event α σ)} (h : ∀ e ∈ events, e.IsQuiet) :
    appliedFetches events = [] := by
  rw [appliedFetches, applications_of_isQuiet h, List.map_nil]

theorem perm_landings (log : List (Event α σ)) :
    (appliedFetches log ++ discards log).Perm (landings log) := by
  induction log using List.reverseRecOn with
  | nil => exact .nil
  | append_singleton log e ih =>
    rw [appliedFetches_append, discards_append, landings_append]
    cases e with
    | applied run seq result =>
      let fetch : Issue := ⟨run, seq⟩
      have hlast : (appliedFetches log ++ [fetch] ++ discards log).Perm
          (appliedFetches log ++ discards log ++ [fetch]) := by
        rw [List.append_assoc, List.append_assoc]
        exact List.perm_append_comm.append_left _
      simpa using hlast.trans (ih.append_right [fetch])
    | discarded run seq result => simpa using ih.append_right [⟨run, seq⟩]
    | _ => simpa using ih

namespace Course

/-- Each counter is the number of its events in the log. -/
structure Balanced (c : Course α σ) : Prop where
  issued : c.poller.stats.issued = (issues c.log).length
  completed : c.poller.stats.completed = (appliedFetches c.log).length
  discarded : c.poller.stats.discarded = (discards c.log).length

theorem balanced_fresh (policy : Policy) : (fresh policy : Course α σ).Balanced :=
  ⟨rfl, rfl, rfl⟩

theorem Balanced.change {c c' : Course α σ} (h : c.Balanced) (hc : Change c c') :
    c'.Balanced := by
  obtain ⟨hissued, hcompleted, hdiscarded⟩ := h
  cases hc with
  | adjust shouldFetch closed subscribers nextTicket events hclosed hquiet =>
    have hissues := issues_of_isQuiet hquiet
    have happlied := appliedFetches_of_isQuiet hquiet
    have hdiscards := discards_of_isQuiet hquiet
    constructor <;> simp_all
  | halt hrunning => exact ⟨hissued, hcompleted, hdiscarded⟩
  | begin hidle hopen => exact ⟨hissued, hcompleted, hdiscarded⟩
  | _ => constructor <;> simp_all

theorem balanced_run (policy : Policy) (pieces : List (Piece α σ)) :
    ((fresh policy).run pieces).Balanced :=
  (changes_run _ pieces).keep Balanced.change (balanced_fresh policy)

/-! ## Where an issued fetch is -/

namespace Accounted

variable {c : Course α σ}

theorem perm_issues (h : c.Accounted) :
    (appliedFetches c.log ++ discards c.log ++ c.flights).Perm (issues c.log) := by
  have hlandings := (perm_landings c.log).append_right c.flights
  exact (hlandings.trans List.perm_append_comm).trans h.flights

theorem count_seq (h : c.Accounted) {seq : Nat} (hseq : seq < c.poller.nextSeq) :
    ((appliedFetches c.log).map Issue.seq).count seq + ((discards c.log).map Issue.seq).count seq +
      (c.flights.map Issue.seq).count seq = 1 := by
  have hperm := h.perm_issues.map Issue.seq
  rw [h.seqs, List.map_append, List.map_append] at hperm
  have hcount := hperm.count_eq seq
  rw [List.count_append, List.count_append] at hcount
  rw [hcount]
  exact List.count_eq_one_of_mem List.nodup_range (List.mem_range.2 hseq)

end Accounted

theorem Balanced.issued_eq_nextSeq {c : Course α σ} (h : c.Balanced) (haccount : c.Accounted) :
    c.poller.stats.issued = c.poller.nextSeq := by
  have hlength := congrArg List.length haccount.seqs
  rw [List.length_map, List.length_range] at hlength
  rw [h.issued, hlength]

theorem Balanced.issued_eq_sum {c : Course α σ} (h : c.Balanced) (haccount : c.Accounted) :
    c.poller.stats.issued =
      c.poller.stats.completed + c.poller.stats.discarded + c.flights.length := by
  have hlength := haccount.perm_issues.length_eq
  rw [List.length_append, List.length_append] at hlength
  rw [h.issued, h.completed, h.discarded, hlength]

/-! ## Ticks -/

theorem stats_tick_of_live {p : Poller α σ} {run : Nat}
    (hlive : p.running = true ∧ p.run = run) :
    (p.tick run).1.stats = { p.stats with issued := p.stats.issued + 1 } ∨
      (p.tick run).1.stats = { p.stats with skipped := p.stats.skipped + 1 } := by
  obtain ⟨hrunning, rfl⟩ := hlive
  cases hfetch : p.shouldFetch with
  | true =>
    left
    rw [Poller.tick_of_shouldFetch hrunning hfetch]
  | false =>
    right
    rw [Poller.tick_of_not_shouldFetch hrunning hfetch]

/-! ## The main statement -/

/-- Whatever a poller has been through, as many fetches have been issued as numbers given out, and
they are the applied ones, the dropped ones and those in flight: the numbers are those below the
count of issued fetches, and each of them is found once among the three.  A tick of the live run
adds one to the issued or to the skipped ones, and a tick of another run changes no counter. -/
theorem fetches_add_up (policy : Policy) (pieces : List (Piece α σ)) :
    let c := (fresh policy).run pieces
    let stats := c.poller.stats
    (stats.issued = c.poller.nextSeq ∧
      stats.issued = stats.completed + stats.discarded + c.flights.length) ∧
    ((issues c.log).map Issue.seq = List.range stats.issued ∧
      stats.completed = (appliedFetches c.log).length ∧
      stats.discarded = (discards c.log).length ∧
      ∀ seq < stats.issued,
        ((appliedFetches c.log).map Issue.seq).count seq +
          ((discards c.log).map Issue.seq).count seq +
          (c.flights.map Issue.seq).count seq = 1) ∧
    ∀ run,
      let after := (c.step (.move (.tick run))).poller.stats
      (c.poller.running = true ∧ c.poller.run = run →
        after = { stats with issued := stats.issued + 1 } ∨
        after = { stats with skipped := stats.skipped + 1 }) ∧
      (¬(c.poller.running = true ∧ c.poller.run = run) → after = stats) := by
  intro c stats
  have haccount : c.Accounted := accounted_run policy pieces
  have hbalanced : c.Balanced := balanced_run policy pieces
  have hnext : stats.issued = c.poller.nextSeq := hbalanced.issued_eq_nextSeq haccount
  refine ⟨⟨hnext, hbalanced.issued_eq_sum haccount⟩, ⟨?_, ?_, ?_, ?_⟩, ?_⟩
  · rw [hnext]
    exact haccount.seqs
  · exact hbalanced.completed
  · exact hbalanced.discarded
  · intro seq hseq
    rw [hnext] at hseq
    exact haccount.count_seq hseq
  · intro run after
    refine ⟨stats_tick_of_live, fun hover => ?_⟩
    show (c.poller.tick run).1.stats = stats
    rw [Poller.tick_of_not_live hover]

/-- Of three fetches the first is dropped in the second run, where fetching is paused in the end:
a tick of this run is skipped, and one of the first run is not counted. -/
theorem fetches_add_up_over_two_runs :
    let pieces : List (Piece Nat Nat) := [.move .start, .move (.tick 1), .move .start,
      .move (.tick 3), .move (.tick 3), .land ⟨1, 0⟩ (.success 4), .land ⟨3, 2⟩ (.success 5),
      .move (.setShouldFetch false)]
    let c := (fresh {}).run pieces
    (c.poller.stats = ⟨3, 1, 1, 0⟩ ∧ c.poller.stats.issued = 1 + 1 + c.flights.length) ∧
    ((appliedFetches c.log).map Issue.seq).count 0 + ((discards c.log).map Issue.seq).count 0 +
      (c.flights.map Issue.seq).count 0 = 1 ∧
    ((c.poller.running = true ∧ c.poller.run = 3) ∧
      (c.step (.move (.tick 3))).poller.stats = ⟨3, 1, 1, 1⟩) ∧
    ¬(c.poller.running = true ∧ c.poller.run = 1) ∧
      (c.step (.move (.tick 1))).poller.stats = ⟨3, 1, 1, 0⟩ := by
  intro pieces c
  obtain ⟨⟨-, hsum⟩, ⟨-, -, -, hcount⟩, htick⟩ := fetches_add_up {} pieces
  have hstats : c.poller.stats = ⟨3, 1, 1, 0⟩ := by decide
  have hlive : c.poller.running = true ∧ c.poller.run = 3 := by decide
  have hover : ¬(c.poller.running = true ∧ c.poller.run = 1) := by decide
  refine ⟨⟨hstats, hsum⟩, ?_, ⟨hlive, ?_⟩, hover, ?_⟩
  · exact hcount 0 (by decide)
  · exact ((htick 3).1 hlive).resolve_left (by decide)
  · rw [(htick 1).2 hover]
    exact hstats

end Course

end PoolWatch
