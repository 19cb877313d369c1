import PoolWatch.Proofs.Poller.Course
import Mathlib.Data.List.Nodup
/-!
# The account of fetches

Throughout every course the fetches are numbered in the order of their issue and their runs never
go back.  Each of them is in flight or has landed, never both, and the poller remembers the number
of the one applied last.
-/

namespace PoolWatch

variable {α σ : Type}

/-- One fetch was issued after another one. -/
def IssuedBefore (log : List (Event α σ)) (a b : Issue) : Prop := [a, b].Sublist (issues log)

namespace Course

/-- What the log says agrees with the poller and with the flights. -/
structure Accounted (c : Course α σ) : Prop where
  seqs : (issues c.log).map Issue.seq = List.range c.poller.nextSeq
  runs : (issues c.log).Pairwise fun a b => a.run ≤ b.run
  /-- A fetch belongs to the live run or to one that is over. -/
  live_or_over : ∀ i ∈ issues c.log,
    i.run < c.poller.run ∨ i.run = c.poller.run ∧ c.poller.running = true
  flights : (c.flights ++ landings c.log).Perm (issues c.log)
  appliedSeq : c.poller.appliedSeq = (applications c.log).getLast?.map (·.1.seq)

theorem accounted_fresh (policy : Policy) : (fresh policy : Course α σ).Accounted where
  seqs := rfl
  runs := .nil
  live_or_over := by simp [fresh]
  flights := .nil
  appliedSeq := rfl

theorem perm_land {flights landed all : List Issue} {fetch : Issue} (hflight : fetch ∈ flights)
    (h : (flights ++ landed).Perm all) :
    (flights.erase fetch ++ (landed ++ [fetch])).Perm all := by
  refine List.Perm.trans ?_ h
  rw [← List.append_assoc]
  refine (List.perm_append_singleton _ _).trans ?_
  exact (List.perm_cons_erase hflight).symm.append_right landed

theorem Accounted.change {c c' : Course α σ} (h : c.Accounted) (hc : Change c c') :
    c'.Accounted := by
  obtain ⟨hseqs, hruns, hlive, hflights, happlied⟩ := h
  cases hc with
  | adjust shouldFetch closed subscribers nextTicket events hclosed hquiet =>
    have hissues := issues_of_isQuiet hquiet
    have hlandings := landings_of_isQuiet hquiet
    have happlications := applications_of_isQuiet hquiet
    constructor <;> simp_all
  | halt hrunning =>
    refine ⟨hseqs, hruns, ?_, hflights, happlied⟩
    intro i hi
    have := hlive i hi
    left
    show i.run < c.poller.run + 1
    omega
  | begin hidle hopen =>
    refine ⟨hseqs, hruns, ?_, hflights, happlied⟩
    intro i hi
    have := hlive i hi
    left
    show i.run < c.poller.run + 1
    omega
  | issue hrunning =>
    refine ⟨?_, ?_, ?_, ?_, by simpa using happlied⟩
    · simp [hseqs, List.range_succ]
    · simp only [issues_append, issues_singleton, Event.issue?, Option.toList_some]
      refine List.pairwise_append.2 ⟨hruns, List.pairwise_singleton _ _, ?_⟩
      intro i hi j hj
      rw [List.mem_singleton] at hj
      subst hj
      have := hlive i hi
      show i.run ≤ c.poller.run
      omega
    · intro i hi
      simp only [issues_append, issues_singleton, Event.issue?, Option.toList_some,
        List.mem_append, List.mem_singleton] at hi
      rcases hi with hi | rfl
      · exact hlive i hi
      · exact Or.inr ⟨rfl, hrunning⟩
    · simp only [issues_append, landings_append, issues_singleton, landings_singleton,
        Event.issue?, Event.landing?, Option.toList_some, Option.toList_none, List.append_nil]
      rw [List.append_assoc]
      refine List.Perm.trans ?_ (hflights.append_right _)
      rw [List.append_assoc]
      exact List.perm_append_comm.append_left _
  | skip hrunning => constructor <;> simp_all
  | apply fetch result hflight hfresh =>
    refine ⟨by simpa using hseqs, by simpa using hruns, by simpa using hlive, ?_, by simp⟩
    simpa using perm_land hflight hflights
  | discard fetch result hflight hstale =>
    refine ⟨by simpa using hseqs, by simpa using hruns, by simpa using hlive, ?_, ?_⟩
    · simpa using perm_land hflight hflights
    · simpa using happlied

theorem accounted_run (policy : Policy) (pieces : List (Piece α σ)) :
    ((fresh policy).run pieces).Accounted :=
  (changes_run _ pieces).keep Accounted.change (accounted_fresh policy)

/-! ## Numbers and runs of issued fetches -/

namespace Accounted

variable {c : Course α σ} {a b : Issue}

theorem seq_lt (h : c.Accounted) (ha : a ∈ issues c.log) : a.seq < c.poller.nextSeq := by
  have hmem := List.mem_map_of_mem (f := Issue.seq) ha
  rwa [h.seqs, List.mem_range] at hmem

theorem pairwise_seq_lt (h : c.Accounted) :
    (issues c.log).Pairwise fun a b => a.seq < b.seq := by
  rw [← List.pairwise_map, h.seqs]
  exact List.pairwise_lt_range

theorem nodup_issues (h : c.Accounted) : (issues c.log).Nodup :=
  h.pairwise_seq_lt.imp fun hlt heq => by rw [heq] at hlt; exact Nat.lt_irrefl _ hlt

theorem eq_of_seq_eq (h : c.Accounted) (ha : a ∈ issues c.log) (hb : b ∈ issues c.log)
    (heq : a.seq = b.seq) : a = b := by
  refine List.inj_on_of_nodup_map ?_ ha hb heq
  rw [h.seqs]
  exact List.nodup_range

theorem getElem?_issues (h : c.Accounted) (ha : a ∈ issues c.log) :
    (issues c.log)[a.seq]? = some a := by
  obtain ⟨i, hi⟩ := List.mem_iff_getElem?.1 ha
  have hseq : ((issues c.log).map Issue.seq)[i]? = some a.seq := by
    rw [List.getElem?_map, hi, Option.map_some]
  rw [h.seqs] at hseq
  obtain ⟨hlt, hget⟩ := List.getElem?_eq_some_iff.1 hseq
  rw [List.getElem_range] at hget
  rwa [← hget]

theorem issuedBefore_iff (h : c.Accounted) :
    IssuedBefore c.log a b ↔ a ∈ issues c.log ∧ b ∈ issues c.log ∧ a.seq < b.seq := by
  constructor
  · intro hab
    refine ⟨hab.subset (by simp), hab.subset (by simp), ?_⟩
    exact List.pairwise_iff_forall_sublist.1 h.pairwise_seq_lt hab
  · rintro ⟨ha, hb, hlt⟩
    obtain ⟨before, after, hsplit⟩ := List.append_of_mem ha
    have hpairwise := h.pairwise_seq_lt
    rw [hsplit] at hb hpairwise
    rw [IssuedBefore, hsplit]
    -- `b` stands neither before `a` nor in its place, for its number is greater.
    have hafter : b ∈ after := by
      rcases List.mem_append.1 hb with hbefore | hb
      · have := hpairwise.rel_of_mem_append hbefore List.mem_cons_self
        omega
      · rcases List.mem_cons.1 hb with rfl | hb
        · omega
        · exact hb
    exact List.Sublist.trans ((List.singleton_sublist.2 hafter).cons_cons a)
      (List.sublist_append_right before _)

theorem run_le_of_seq_lt (h : c.Accounted) (ha : a ∈ issues c.log) (hb : b ∈ issues c.log)
    (hlt : a.seq < b.seq) : a.run ≤ b.run :=
  List.pairwise_iff_forall_sublist.1 h.runs (h.issuedBefore_iff.2 ⟨ha, hb, hlt⟩)

theorem run_le (h : c.Accounted) (ha : a ∈ issues c.log) : a.run ≤ c.poller.run := by
  have := h.live_or_over a ha
  omega

/-! ## Flights and landings -/

theorem nodup_flights_landings (h : c.Accounted) : (c.flights ++ landings c.log).Nodup :=
  h.flights.nodup_iff.2 h.nodup_issues

theorem mem_issues_of_mem_flights (h : c.Accounted) (ha : a ∈ c.flights) : a ∈ issues c.log :=
  h.flights.subset (List.mem_append_left _ ha)

theorem mem_issues_of_mem_landings (h : c.Accounted) (ha : a ∈ landings c.log) :
    a ∈ issues c.log :=
  h.flights.subset (List.mem_append_right _ ha)

theorem not_mem_landings (h : c.Accounted) (ha : a ∈ c.flights) : a ∉ landings c.log := by
  intro hlanded
  exact (List.nodup_append.1 h.nodup_flights_landings).2.2 a ha a hlanded rfl

theorem mem_issues_of_mem_applications (h : c.Accounted) {result : Outcome α}
    (ha : (a, result) ∈ applications c.log) : a ∈ issues c.log :=
  h.mem_issues_of_mem_landings (mem_landings_of_mem_applications ha)

theorem exists_applied (h : c.Accounted) {seq : Nat} (hseq : c.poller.appliedSeq = some seq) :
    ∃ fetch result, (applications c.log).getLast? = some (fetch, result) ∧ fetch.seq = seq := by
  rw [h.appliedSeq, Option.map_eq_some_iff] at hseq
  obtain ⟨⟨fetch, result⟩, hlast, rfl⟩ := hseq
  exact ⟨fetch, result, hlast, rfl⟩

/-! ## The newest fetch -/

theorem newest_seq (h : c.Accounted) (hnewest : (issues c.log).getLast? = some a) :
    a.seq + 1 = c.poller.nextSeq := by
  have hlast := congrArg List.getLast? h.seqs
  rw [List.getLast?_map, hnewest] at hlast
  cases hnext : c.poller.nextSeq with
  | zero => simp [hnext] at hlast
  | succ n =>
    rw [hnext, List.range_succ, List.getLast?_concat] at hlast
    simpa using hlast

theorem seq_le_newest (h : c.Accounted) (hnewest : (issues c.log).getLast? = some b)
    (ha : a ∈ issues c.log) : a.seq ≤ b.seq := by
  have := h.newest_seq hnewest
  have := h.seq_lt ha
  omega

theorem exists_newest_live (h : c.Accounted) (ha : a ∈ issues c.log)
    (hlive : a.run = c.poller.run) :
    ∃ newest, (issues c.log).getLast? = some newest ∧ newest.run = c.poller.run := by
  have hne : (issues c.log).getLast? ≠ none := by
    rw [Ne, List.getLast?_eq_none_iff]
    exact List.ne_nil_of_mem ha
  obtain ⟨newest, hnewest⟩ := Option.ne_none_iff_exists'.1 hne
  have hmem := List.mem_of_getLast? hnewest
  refine ⟨newest, hnewest, ?_⟩
  have hle := h.run_le hmem
  rcases Nat.lt_or_eq_of_le (h.seq_le_newest hnewest ha) with hlt | heq
  · have := h.run_le_of_seq_lt ha hmem hlt
    omega
  · rw [← h.eq_of_seq_eq ha hmem heq]
    exact hlive

theorem not_isStale_newest (h : c.Accounted) (hnewest : (issues c.log).getLast? = some a)
    (hrunning : c.poller.running = true) (hlive : a.run = c.poller.run) :
    c.poller.isStale a.run a.seq = false := by
  rw [← Bool.not_eq_true, Poller.isStale_iff]
  rintro (hover | ⟨-, seq, hseq, hlt⟩)
  · exact hover ⟨hrunning, hlive.symm⟩
  · obtain ⟨fetch, result, hlast, rfl⟩ := h.exists_applied hseq
    have hissued := h.mem_issues_of_mem_applications (List.mem_of_getLast? hlast)
    have := h.seq_le_newest hnewest hissued
    omega

end Accounted

end Course

end PoolWatch
