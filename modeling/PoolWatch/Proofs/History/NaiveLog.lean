import Mathlib.Data.Finset.Lattice.Fold
import Mathlib.Order.Lattice.Nat
import PoolWatch.Proofs.History.Recording
/-!
# The history equals the naive log

The series of a history are the logs of the GPUs of the last snapshot, one for each key and in the
order of the keys, each bounded to its newest readings.
-/

namespace PoolWatch

namespace History

variable {h : History} {logs : String → List Reading}

/-! ## Reading a history -/

theorem Holds.mem_keys (hh : h.Holds logs) {key : String} :
    key ∈ h.samples.keys ↔ logs key ≠ [] := by
  rw [Std.ExtTreeMap.mem_keys, Std.ExtTreeMap.mem_iff_isSome_getElem?, hh key, stored]
  split
  next hnil => simp [hnil]
  next hlog => simp [hlog]

theorem Holds.toList_eq (hh : h.Holds logs) :
    h.samples.toList = h.samples.keys.map fun key =>
      (key, ((keptAfter none (logs key)).rtake h.capacity).map .ofReading) := by
  have hentry : ∀ entry ∈ h.samples.toList, entry =
      (entry.1, ((keptAfter none (logs entry.1)).rtake h.capacity).map .ofReading) := by
    rintro ⟨key, samples⟩ hmem
    have hsamples : h.samples[key]? = some samples :=
      Std.ExtTreeMap.mem_toList_iff_getElem?_eq_some.1 hmem
    rw [← getD_stored, ← hh key, hsamples]
    rfl
  calc h.samples.toList
      = h.samples.toList.map fun entry =>
          (entry.1, ((keptAfter none (logs entry.1)).rtake h.capacity).map .ofReading) :=
        (List.map_id _).symm.trans (List.map_congr_left hentry)
    _ = (h.samples.toList.map Prod.fst).map fun key =>
          (key, ((keptAfter none (logs key)).rtake h.capacity).map .ofReading) := by
        rw [List.map_map]
        rfl
    _ = _ := by rw [Std.ExtTreeMap.map_fst_toList_eq_keys]

theorem pairwise_keys (h : History) : h.samples.keys.Pairwise (· < ·) := by
  have hordered : h.samples.keys.Pairwise fun a b => compare a b = .lt :=
    Std.ExtTreeMap.ordered_keys
  exact hordered.imp fun hlt => compareOfLessAndEq_eq_lt.1 hlt

theorem Holds.series_eq (hh : h.Holds logs) (m : Metric) :
    h.series m = h.samples.keys.map fun key =>
      ⟨key, 0, ((keptAfter none (logs key)).rtake h.capacity).map fun r =>
        ⟨r.time, m.value r.gpu⟩⟩ := by
  rw [series, hh.toList_eq, List.map_map]
  simp [Function.comp_def]

theorem foldl_max_eq_sup {α : Type} [DecidableEq α] (l : List α) (f : α → Nat) :
    (l.map f).foldl max 0 = l.toFinset.sup f := by
  have hfold : ∀ n, (l.map f).foldl max n = max n (l.toFinset.sup f) := by
    induction l with
    | nil => simp
    | cons a l ih =>
      intro n
      rw [List.map_cons, List.foldl_cons, ih, List.toFinset_cons, Finset.sup_insert]
      exact max_assoc n (f a) _
  rw [hfold, Nat.zero_max]

theorem Holds.maxLength_eq (hh : h.Holds logs) :
    h.maxLength = h.samples.keys.toFinset.sup fun key =>
      ((keptAfter none (logs key)).rtake h.capacity).length := by
  rw [maxLength, hh.toList_eq, List.map_map, ← foldl_max_eq_sup]
  simp [Function.comp_def]

theorem gpuCount_eq (h : History) : h.gpuCount = h.samples.keys.toFinset.card := by
  rw [gpuCount, List.toFinset_card_of_nodup Std.ExtTreeMap.nodup_keys,
    Std.ExtTreeMap.length_keys]

/-! ## After any snapshots -/

theorem mem_keys_recordAll (capacity : Nat) (snapshots : List (List Group)) {key : String} :
    key ∈ (recordAll capacity snapshots).samples.keys ↔
      key ∈ lastKeys (snapshots.map observations) :=
  (holds_recordAll capacity snapshots).mem_keys.trans (logOf_ne_nil_iff key _)

theorem toFinset_keys_recordAll (capacity : Nat) (snapshots : List (List Group)) :
    (recordAll capacity snapshots).samples.keys.toFinset =
      (lastKeys (snapshots.map observations)).toFinset := by
  ext key
  rw [List.mem_toFinset, List.mem_toFinset, mem_keys_recordAll]

theorem series_recordAll (capacity : Nat) (snapshots : List (List Group)) (m : Metric) :
    (recordAll capacity snapshots).series m =
      (recordAll capacity snapshots).samples.keys.map fun key =>
        ⟨key, 0, ((keptOf key (snapshots.map observations)).rtake (max capacity 1)).map fun r =>
          ⟨r.time, m.value r.gpu⟩⟩ := by
  rw [(holds_recordAll capacity snapshots).series_eq, capacity_recordAll]
  rfl

theorem rtake_keptOf_ne_nil {snapshots : List (List Group)} {key : String}
    (hkey : key ∈ lastKeys (snapshots.map observations)) (capacity : Nat) :
    (keptOf key (snapshots.map observations)).rtake (max capacity 1) ≠ [] := by
  have hlength := List.length_pos_iff.2 ((keptOf_ne_nil_iff key _).2 hkey)
  apply List.ne_nil_of_length_pos
  rw [List.rtake, List.length_drop]
  omega

theorem pairwise_time_rtake_keptOf {rounds : List (List (String × Reading))}
    (hproper : ∀ seen ∈ rounds, ∀ entry ∈ seen, entry.2.time.isNaN = false) (key : String)
    (bound : Nat) :
    (((keptOf key rounds).rtake bound).map (·.time)).Pairwise (· < ·) := by
  have hlog : ∀ r ∈ logOf key rounds, r.time.isNaN = false := by
    intro r hr
    obtain ⟨seen, hseen, hmem⟩ := mem_rounds_of_mem_logOf hr
    exact hproper seen hseen (key, r) hmem
  have hnewest : ((keptOf key rounds).rtake bound).Sublist (keptOf key rounds) :=
    List.drop_sublist _ _
  exact (pairwise_time_keptAfter_none hlog).sublist (hnewest.map _)

/-- A history agrees with unbounded logs.  Its series are the logs of the keys of the last
snapshot, each bounded to the newest readings kept; a record adds the readings that the logs keep
more; and the series of readings at proper times go forward in time. -/
theorem agrees_with_naive_log (capacity : Nat) (snapshots : List (List Group)) :
    let h := recordAll capacity snapshots
    let rounds := snapshots.map observations
    let bound := max capacity 1
    (∀ m : Metric,
      ((h.series m).map (·.name)).Pairwise (· < ·) ∧
      (∀ name, name ∈ (h.series m).map (·.name) ↔ name ∈ lastKeys rounds) ∧
      ∀ s ∈ h.series m, s.offset = 0 ∧
        s.points = ((keptOf s.name rounds).rtake bound).map fun r => ⟨r.time, m.value r.gpu⟩) ∧
    (∀ groups,
      let seen := observations groups
      (∀ key ∈ seen.map Prod.fst, keptOf key rounds <+: keptOf key (rounds ++ [seen])) ∧
      (h.record groups).1 = ∑ key ∈ (seen.map Prod.fst).toFinset,
        ((keptOf key (rounds ++ [seen])).length - (keptOf key rounds).length)) ∧
    h.gpuCount = (lastKeys rounds).toFinset.card ∧
    h.maxLength = (lastKeys rounds).toFinset.sup
      (fun key => ((keptOf key rounds).rtake bound).length) ∧
    ((∀ seen ∈ rounds, ∀ entry ∈ seen, entry.2.time.isNaN = false) →
      ∀ m : Metric, ∀ s ∈ h.series m,
        s.points ≠ [] ∧ (s.points.map (·.x)).Pairwise (· < ·)) := by
  intro h rounds bound
  have hnames : ∀ m, (h.series m).map (·.name) = h.samples.keys := by
    intro m
    rw [series_recordAll, List.map_map]
    exact List.map_id _
  have hseries : ∀ m, ∀ s ∈ h.series m, s.name ∈ lastKeys rounds ∧ s.offset = 0 ∧
      s.points = ((keptOf s.name rounds).rtake bound).map fun r => ⟨r.time, m.value r.gpu⟩ := by
    intro m s hs
    rw [series_recordAll] at hs
    obtain ⟨key, hkey, rfl⟩ := List.mem_map.1 hs
    exact ⟨(mem_keys_recordAll capacity snapshots).1 hkey, rfl, rfl⟩
  refine ⟨fun m => ⟨?_, fun name => ?_, fun s hs => (hseries m s hs).2⟩, fun groups => ?_, ?_, ?_,
    fun hproper m s hs => ?_⟩
  · rw [hnames]
    exact pairwise_keys h
  · rw [hnames]
    exact mem_keys_recordAll capacity snapshots
  · refine ⟨fun key hkey => ?_, added_record capacity snapshots groups⟩
    rw [keptOf_append_singleton hkey]
    exact List.prefix_append _ _
  · rw [gpuCount_eq, toFinset_keys_recordAll]
  · rw [(holds_recordAll capacity snapshots).maxLength_eq, toFinset_keys_recordAll,
      capacity_recordAll]
    rfl
  · obtain ⟨hname, -, hpoints⟩ := hseries m s hs
    rw [hpoints, List.map_map]
    exact ⟨mt List.map_eq_nil_iff.1 (rtake_keptOf_ne_nil hname capacity),
      pairwise_time_rtake_keptOf hproper s.name bound⟩

/-- A snapshot of a single GPU. -/
def loneGpu (workstation uuid : String) (time utilization : Float) : List Group :=
  [⟨"Shared", [⟨workstation, "", "", "", "", time,
    [⟨uuid, "", "", "", 0, 0, utilization, 0, 0, 0, 0, 0, 0, 0, 0, 0, 0, false, none⟩], true⟩]⟩]

/-- One GPU is seen twice in a snapshot, and the other one leaves and comes back. -/
def comeAndGo : List (List Group) :=
  [loneGpu "ws" "a" 1 90 ++ loneGpu "ws" "b" 1 10, loneGpu "ws" "a" 2 80 ++ loneGpu "ws" "a" 2 70,
    loneGpu "ws" "a" 3 60 ++ loneGpu "ws" "b" 3 20]

theorem agrees_with_naive_log_of_come_and_go :
    let h := recordAll 2 comeAndGo
    (∀ seen ∈ comeAndGo.map observations, ∀ entry ∈ seen, entry.2.time.isNaN = false) ∧
    h.gpuCount = 2 ∧ h.maxLength = 2 ∧
    (∀ s ∈ h.series .gpuUtilization,
      s.points = if s.name = "ws/a" then [⟨2, 80⟩, ⟨3, 60⟩] else [⟨3, 20⟩]) ∧
    ∀ m : Metric, ∀ s ∈ h.series m,
      s.points ≠ [] ∧ (s.points.map (·.x)).Pairwise (· < ·) := by
  intro h
  have hproper : ∀ seen ∈ comeAndGo.map observations, ∀ entry ∈ seen,
      entry.2.time.isNaN = false := by decide
  have hkept : ∀ key ∈ lastKeys (comeAndGo.map observations),
      ((keptOf key (comeAndGo.map observations)).rtake 2).map
        (fun r => (⟨r.time, Metric.gpuUtilization.value r.gpu⟩ : Point)) =
      if key = "ws/a" then [⟨2, 80⟩, ⟨3, 60⟩] else [⟨3, 20⟩] := by
    decide +kernel
  obtain ⟨hnewest, -, hcount, hlength, hseries⟩ := agrees_with_naive_log 2 comeAndGo
  obtain ⟨-, hnames, hpoints⟩ := hnewest .gpuUtilization
  refine ⟨hproper, hcount.trans ?_, hlength.trans ?_, fun s hs => ?_, hseries hproper⟩
  · decide +kernel
  · decide +kernel
  · have hname := (hnames s.name).1 (List.mem_map_of_mem hs)
    exact (hpoints s hs).2.trans (hkept _ hname)

end History

end PoolWatch
