import PoolWatch.Console
import PoolWatch.Proofs.Fetch.Sessions
import PoolWatch.Proofs.History.NaiveLog
import PoolWatch.Proofs.Report.Strictness
import PoolWatch.Proofs.Series.Timelines
/-!
# Charts of recorded pools

The times of a report fit 64 bits, and so every sample that a program records has a clock time.
The samples of a series go forward in time, so its chart can always be drawn.
-/

namespace PoolWatch

open PoolWatch.Numeric

/-- All readings of a pool have clock times. -/
def IsClocked (groups : List Group) : Prop :=
  ∀ g ∈ groups, ∀ w ∈ g.workstations, IsClockTime w.lastSeenSeconds

namespace Pool

theorem mem_freeFirst {w : Workstation} {ws : List Workstation} (h : w ∈ freeFirst ws) :
    w ∈ ws := by
  obtain h | h := List.mem_append.1 h
  · exact List.mem_of_mem_filter h
  · exact List.mem_of_mem_filter h

theorem isClocked_arrange {amount : Float → Prop} {groups : List Report.Group}
    (h : Report.Fits amount groups) : IsClocked (arrange groups) := by
  intro g hg w hw
  obtain ⟨group, hgroup, rfl⟩ := List.mem_map.1 (List.mem_mergeSort.1 hg)
  obtain ⟨workstation, hworkstation, rfl⟩ :=
    List.mem_map.1 (List.mem_mergeSort.1 (mem_freeFirst hw))
  exact isClockTime_nanos (h group hgroup workstation hworkstation).1

end Pool

theorem Attempt.isClocked {a : Attempt} {groups : List Report.Group}
    (h : a.outcome = .success groups) : IsClocked (Pool.arrange groups) := by
  cases a with
  | panicked words => cases h
  | ended e =>
    obtain ⟨code, body, -, -, hparse⟩ := e.outcome_eq_success_iff.1 h
    exact Pool.isClocked_arrange (Report.parse_eq_ok_iff.1 hparse).fits

namespace History

theorem isClockTime_of_observations {groups : List Group} (h : IsClocked groups) :
    ∀ entry ∈ observations groups, IsClockTime entry.2.time := by
  intro entry hentry
  obtain ⟨g, hg, hentry⟩ := List.mem_flatMap.1 hentry
  obtain ⟨w, hw, hentry⟩ := List.mem_flatMap.1 hentry
  obtain ⟨gpu, -, rfl⟩ := List.mem_map.1 hentry
  exact h g hg w hw

theorem isTimeline_of_recordAll {snapshots : List (List Group)}
    (h : ∀ groups ∈ snapshots, IsClocked groups) (capacity : Nat) (m : Metric) :
    ∀ s ∈ (recordAll capacity snapshots).series m, s.offset = 0 ∧ Series.IsTimeline s.points := by
  have htimes : ∀ seen ∈ snapshots.map observations, ∀ entry ∈ seen, IsClockTime entry.2.time := by
    intro seen hseen
    obtain ⟨groups, hgroups, rfl⟩ := List.mem_map.1 hseen
    exact isClockTime_of_observations (h groups hgroups)
  intro s hs
  rw [series_recordAll] at hs
  obtain ⟨key, -, rfl⟩ := List.mem_map.1 hs
  have hclock : ∀ r ∈ (keptOf key (snapshots.map observations)).rtake (max capacity 1),
      IsClockTime r.time := by
    intro r hr
    have hlog := (keptAfter_sublist _ _).mem (List.mem_of_mem_drop hr)
    obtain ⟨seen, hseen, hmem⟩ := mem_rounds_of_mem_logOf hlog
    exact htimes seen hseen (key, r) hmem
  refine ⟨rfl, ?_, ?_⟩
  · intro p hp
    obtain ⟨r, hr, rfl⟩ := List.mem_map.1 hp
    exact hclock r hr
  · have hpairwise := pairwise_time_rtake_keptOf
      (fun seen hseen entry hentry => (htimes seen hseen entry hentry).lies.isNaN) key
      (max capacity 1)
    rw [List.pairwise_map] at hpairwise ⊢
    exact hpairwise.imp_of_mem fun ha hb hlt =>
      number_lt_number (hclock _ ha).lies.isFinite (hclock _ hb).lies.isFinite hlt

end History

/-- The chart of the pools that a program records can be drawn. -/
theorem Console.exists_chartDocument {snapshots : List (List Group)}
    (h : ∀ groups ∈ snapshots, IsClocked groups) (capacity maxPoints : Nat) :
    ∃ document, chartDocument (History.recordAll capacity snapshots) maxPoints = .ok document := by
  have hseries := History.isTimeline_of_recordAll h capacity .gpuUtilization
  obtain ⟨p, hp⟩ := Chart.exists_picture
    (c := { Chart.ofSize ⟨960, 320⟩ with valueRange := Metric.gpuUtilization.fixedRange? })
    (by decide) rfl (fun s hs => (hseries s hs).1) (fun s hs => (hseries s hs).2) maxPoints
    Metric.gpuUtilization.label
  unfold chartDocument
  dsimp only
  rw [hp]
  exact ⟨_, rfl⟩

end PoolWatch
