import PoolWatch.Proofs.History.Commuting
import PoolWatch.Proofs.History.NaiveLog
/-!
# Recording a snapshot again

After a snapshot the last sample kept of a GPU is as new as every reading that the snapshot has of
it, also when it has several.  A history takes up nothing of a snapshot that has no newer readings,
and if the snapshot has the same GPUs, nothing is forgotten either: the history stays as it is.
-/

namespace PoolWatch

/-- Every reading of a snapshot has a time. -/
def IsTimed (groups : List Group) : Prop :=
  ∀ entry ∈ observations groups, entry.2.time.isNaN = false

instance (groups : List Group) : Decidable (IsTimed groups) := List.decidableBAll _ _

theorem exists_getLast?_keptAfter {log : List Reading} (hlog : ∀ r ∈ log, r.time.isNaN = false)
    {r : Reading} (hr : r ∈ log) : ∃ last ∈ (keptAfter none log).getLast?, r.time ≤ last.time := by
  induction log using List.reverseRecOn with
  | nil => cases hr
  | append_singleton log newest ih =>
    have hbefore : ∀ r ∈ log, r.time.isNaN = false := fun r h => hlog r (List.mem_append_left _ h)
    have hnewest : newest.time.isNaN = false :=
      hlog newest (List.mem_append_right _ List.mem_cons_self)
    rw [keptAfter_none_append_singleton]
    split
    next hstale =>
      obtain hr | hr := List.mem_append.1 hr
      · exact ih hbefore hr
      · obtain rfl := List.mem_singleton.1 hr
        obtain ⟨last, hlast, hle⟩ := (Option.any_eq_true _ _).1 hstale
        exact ⟨last, hlast, of_decide_eq_true hle⟩
    next hnewer =>
      refine ⟨newest, List.getLast?_concat, ?_⟩
      obtain hr | hr := List.mem_append.1 hr
      · -- the last one kept before is older than the newest one, or that would not be kept
        obtain ⟨last, hlast, hle⟩ := ih hbefore hr
        have hnumber : last.time.isNaN = false := (float_le_iff.1 hle).2.1
        have hnot : ¬newest.time ≤ last.time := fun hstale =>
          hnewer ((Option.any_eq_true _ _).2 ⟨last, hlast, decide_eq_true hstale⟩)
        exact float_le_of_lt (float_lt_of_le_of_lt hle (float_lt_of_not_le hnewest hnumber hnot))
      · obtain rfl := List.mem_singleton.1 hr
        exact float_le_iff.2 ⟨hnewest, hnewest, le_rfl⟩

namespace History

variable {h : History} {key : String} {r : Reading} {groups : List Group}

/-! ## Nothing new -/

/-- The last sample kept under a key is as new as a reading. -/
def UpToDate (h : History) (key : String) (r : Reading) : Prop :=
  ∃ last ∈ (h.kept key).getLast?, r.time ≤ last.time

theorem observe_of_upToDate (hkept : h.UpToDate key r) : h.observe key r = (0, h) := by
  obtain ⟨last, hlast, hle⟩ := hkept
  have hstale : appendSample? h.capacity (h.kept key) r = none :=
    if_pos ((Option.any_eq_true _ _).2 ⟨last, hlast, decide_eq_true hle⟩)
  rw [observe, hstale]

theorem observeAll_of_upToDate {seen : List (String × Reading)}
    (hkept : ∀ entry ∈ seen, h.UpToDate entry.1 entry.2) : h.observeAll seen = (0, h) := by
  induction seen with
  | nil => rfl
  | cons entry rest ih =>
    obtain ⟨hfirst, hrest⟩ := List.forall_mem_cons.1 hkept
    rw [observeAll, observe_of_upToDate hfirst]
    dsimp only
    rw [ih hrest]
    rfl

theorem retain_of_forall_mem {keys : List String} (hkeys : ∀ key ∈ h.samples, key ∈ keys) :
    h.retain keys = h := by
  have hsamples : (h.samples.filter fun key _ => keys.contains key) = h.samples := by
    apply Std.ExtTreeMap.ext_getElem?
    intro key
    rw [Std.ExtTreeMap.getElem?_filter']
    cases hkey : h.samples[key]? with
    | none => rfl
    | some samples =>
      have hmem : key ∈ h.samples :=
        Std.ExtTreeMap.mem_iff_isSome_getElem?.2 (Option.isSome_of_eq_some hkey)
      rw [Option.filter_some, if_pos (List.contains_iff_mem.2 (hkeys key hmem))]
  rw [retain, hsamples]

theorem record_of_upToDate
    (hkept : ∀ entry ∈ observations groups, h.UpToDate entry.1 entry.2)
    (hkeys : ∀ key ∈ h.samples, key ∈ (observations groups).map Prod.fst) :
    h.record groups = (0, h) := by
  unfold record
  dsimp only
  rw [observeAll_of_upToDate hkept]
  dsimp only
  rw [retain_of_forall_mem hkeys]

/-! ## After any snapshots -/

section

variable {snapshots : List (List Group)} (htimed : ∀ groups ∈ snapshots, IsTimed groups)

theorem mem_samples_recordAll (capacity : Nat) (snapshots : List (List Group)) {key : String} :
    key ∈ (recordAll capacity snapshots).samples ↔ key ∈ lastKeys (snapshots.map observations) :=
  Std.ExtTreeMap.mem_keys.symm.trans (mem_keys_recordAll capacity snapshots)

theorem getLast?_kept_recordAll (capacity : Nat) (snapshots : List (List Group)) (key : String) :
    ((recordAll capacity snapshots).kept key).getLast? =
      (keptOf key (snapshots.map observations)).getLast?.map .ofReading := by
  rw [(holds_recordAll capacity snapshots).kept_eq, List.getLast?_map,
    getLast?_rtake (recordAll capacity snapshots).capacity_pos]
  rfl

include htimed

theorem isNaN_of_mem_logOf (hr : r ∈ logOf key (snapshots.map observations)) :
    r.time.isNaN = false := by
  obtain ⟨seen, hseen, hmem⟩ := mem_rounds_of_mem_logOf hr
  obtain ⟨groups, hgroups, rfl⟩ := List.mem_map.1 hseen
  exact htimed groups hgroups (key, r) hmem

theorem upToDate_of_mem_logOf (capacity : Nat) (hr : r ∈ logOf key (snapshots.map observations)) :
    (recordAll capacity snapshots).UpToDate key r := by
  obtain ⟨last, hlast, hle⟩ :=
    exists_getLast?_keptAfter (fun _ => isNaN_of_mem_logOf htimed) hr
  refine ⟨.ofReading last, ?_, hle⟩
  rw [getLast?_kept_recordAll]
  exact Option.mem_map_of_mem _ hlast

theorem upToDate_of_not_lt (capacity : Nat) (hkey : key ∈ (recordAll capacity snapshots).samples)
    (hr : r.time.isNaN = false)
    (hnewest : ∀ last ∈ ((recordAll capacity snapshots).kept key).getLast?, ¬last.time < r.time) :
    (recordAll capacity snapshots).UpToDate key r := by
  have hlogged := (logOf_ne_nil_iff key _).2 ((mem_samples_recordAll capacity snapshots).1 hkey)
  obtain ⟨earlier, hearlier⟩ := List.exists_mem_of_ne_nil _ hlogged
  obtain ⟨last, hlast, hle⟩ := upToDate_of_mem_logOf htimed capacity hearlier
  have hnumber : last.time.isNaN = false := (float_le_iff.1 hle).2.1
  exact ⟨last, hlast, float_le_of_not_lt hnumber hr (hnewest last hlast)⟩

theorem record_recordAll_append (capacity : Nat) (hgroups : IsTimed groups) :
    (recordAll capacity (snapshots ++ [groups])).record groups =
      (0, recordAll capacity (snapshots ++ [groups])) := by
  have hall : ∀ groups' ∈ snapshots ++ [groups], IsTimed groups' :=
    List.forall_mem_append.2 ⟨htimed, List.forall_mem_singleton.2 hgroups⟩
  refine record_of_upToDate (fun entry hentry => upToDate_of_mem_logOf hall capacity ?_)
    fun key hkey => ?_
  · rw [List.map_append, List.map_singleton, logOf_append_singleton,
      if_pos (List.mem_map_of_mem hentry)]
    exact List.mem_append_right _ (mem_readingsOf.2 hentry)
  · have hlast := (mem_samples_recordAll capacity _).1 hkey
    rwa [lastKeys, List.map_append, List.map_singleton, List.getLast?_concat] at hlast

end

theorem recordEach_replicate (hsame : h.record groups = (0, h)) (n : Nat) :
    h.recordEach (List.replicate n groups) = List.replicate n (0, h) := by
  induction n with
  | zero => rfl
  | succ n ih => rw [List.replicate_succ, recordEach, hsame, ih, List.replicate_succ]

/-- A snapshot that was just recorded adds nothing, however often it is recorded again, and leaves
the history as it is; and so does every snapshot of the same GPUs without a reading that is newer
than the last one recorded of its GPU. -/
theorem nothing_new_of_same_snapshot {snapshots : List (List Group)}
    (htimed : ∀ groups ∈ snapshots, IsTimed groups) (capacity : Nat) :
    let h := recordAll capacity snapshots
    (∀ groups, IsTimed groups → ∀ n,
      let h' := (h.record groups).2
      h'.recordEach (List.replicate n groups) = List.replicate n (0, h')) ∧
    ∀ groups, IsTimed groups →
      (∀ key, key ∈ (observations groups).map Prod.fst ↔ key ∈ h.samples) →
      (∀ entry ∈ observations groups, ∀ last ∈ (h.kept entry.1).getLast?,
        ¬last.time < entry.2.time) →
      h.record groups = (0, h) := by
  intro h
  refine ⟨fun groups hgroups n => ?_, fun groups hgroups hkeys hnewest => ?_⟩
  · have hagain := record_recordAll_append htimed capacity hgroups
    rw [recordAll_append_singleton] at hagain
    exact recordEach_replicate hagain n
  · refine record_of_upToDate (fun entry hentry => ?_) fun key hkey => (hkeys key).2 hkey
    exact upToDate_of_not_lt htimed capacity ((hkeys entry.1).1 (List.mem_map_of_mem hentry))
      (hgroups entry hentry) (hnewest entry hentry)

/-- A GPU that a snapshot has twice, the second time with an older reading. -/
def seenTwice : List Group := loneGpu "ws" "gpu" 5 90 ++ loneGpu "ws" "gpu" 3 80

theorem nothing_new_of_seenTwice :
    let h := recordAll 1 [loneGpu "ws" "gpu" 1 70]
    let h' := recordAll 1 [loneGpu "ws" "gpu" 1 70, seenTwice]
    (h.record seenTwice).1 = 1 ∧ IsTimed seenTwice ∧
      h'.recordEach [seenTwice, seenTwice] = [(0, h'), (0, h')] ∧
      h'.record (loneGpu "ws" "gpu" 4 60) = (0, h') := by
  intro h h'
  have hfirst : ∀ groups ∈ [loneGpu "ws" "gpu" 1 70], IsTimed groups := by decide
  have hboth : ∀ groups ∈ [loneGpu "ws" "gpu" 1 70, seenTwice], IsTimed groups := by decide
  have htwice : IsTimed seenTwice := by decide
  refine ⟨by decide +kernel, htwice, (nothing_new_of_same_snapshot hfirst 1).1 _ htwice 2,
    (nothing_new_of_same_snapshot hboth 1).2 _ (by decide) (fun key => ?_) ?_⟩
  · rw [mem_samples_recordAll]
    simp [lastKeys, observations, seenTwice, loneGpu]
  · decide +kernel

end History

end PoolWatch
