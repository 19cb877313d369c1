import PoolWatch.Proofs.History.NaiveLog
/-!
# Keys of GPUs

A history keeps readings under a text composed of the name of a workstation and the uuid of a GPU.
Names and uuids may contain the slash that separates them, and then two GPUs can have one text.
These share one series.  Every other GPU has a series for itself, which holds its own log.
-/

namespace PoolWatch

/-- The readings of a snapshot with the names of the workstations and the uuids of the GPUs. -/
def sightings (groups : List Group) : List ((String × String) × Reading) :=
  groups.flatMap fun g =>
    g.workstations.flatMap fun w =>
      w.gpus.map fun gpu => ((w.name, gpu.uuid), ⟨w.lastSeenSeconds, gpu⟩)

def keyOf (p : String × String) : String := historyKey p.1 p.2

theorem observations_eq_map (groups : List Group) :
    observations groups = (sightings groups).map fun entry => (keyOf entry.1, entry.2) := by
  simp [observations, sightings, keyOf, List.map_flatMap, Function.comp_def]

theorem map_observations (snapshots : List (List Group)) :
    snapshots.map observations =
      (snapshots.map sightings).map (List.map fun entry => (keyOf entry.1, entry.2)) := by
  rw [List.map_map]
  exact List.map_congr_left fun groups _ => observations_eq_map groups

/-! ## Composed texts -/

/-- A part of the first GPU's uuid belongs, with the slash before it, to the name of the second
one's workstation. -/
def Entangled (p q : String × String) : Prop :=
  ∃ middle, q.1 = p.1 ++ "/" ++ middle ∧ p.2 = middle ++ "/" ++ q.2

theorem toList_keyOf (p : String × String) :
    (keyOf p).toList = p.1.toList ++ '/' :: p.2.toList := by
  simp [keyOf, historyKey]

theorem Entangled.keyOf_eq {p q : String × String} (h : Entangled p q) : keyOf p = keyOf q := by
  obtain ⟨middle, hname, huuid⟩ := h
  simp only [keyOf, historyKey, hname, huuid, String.append_assoc]

/-- Equal texts, in which the second GPU's name goes on where the first one's ends. -/
theorem eq_or_entangled_of_append {p q : String × String} {rest : List Char}
    (hname : q.1.toList = p.1.toList ++ rest)
    (huuid : '/' :: p.2.toList = rest ++ '/' :: q.2.toList) : p = q ∨ Entangled p q := by
  cases rest with
  | nil =>
    rw [List.append_nil] at hname
    rw [List.nil_append, List.cons_inj_right] at huuid
    exact .inl (Prod.ext (String.toList_injective hname.symm) (String.toList_injective huuid))
  | cons c middle =>
    obtain ⟨rfl, htail⟩ := List.cons.inj huuid
    have htail : p.2.toList = middle ++ '/' :: q.2.toList := htail
    refine .inr ⟨String.ofList middle, String.toList_injective ?_, String.toList_injective ?_⟩
    · simp [hname]
    · simp [htail]

/-- Different GPUs have one text just when they are entangled. -/
theorem keyOf_eq_iff (p q : String × String) :
    keyOf p = keyOf q ↔ p = q ∨ Entangled p q ∨ Entangled q p := by
  constructor
  · intro h
    have htext := congrArg String.toList h
    rw [toList_keyOf, toList_keyOf, List.append_eq_append_iff] at htext
    obtain ⟨rest, hname, huuid⟩ | ⟨rest, hname, huuid⟩ := htext
    · exact (eq_or_entangled_of_append hname huuid).imp_right .inl
    · exact (eq_or_entangled_of_append hname huuid).imp Eq.symm .inr
  · rintro (rfl | h | h)
    · rfl
    · exact h.keyOf_eq
    · exact h.keyOf_eq.symm

theorem Entangled.slash_mem_name {p q : String × String} (h : Entangled p q) :
    '/' ∈ q.1.toList := by
  obtain ⟨middle, hname, -⟩ := h
  simp [hname]

theorem Entangled.slash_mem_uuid {p q : String × String} (h : Entangled p q) :
    '/' ∈ p.2.toList := by
  obtain ⟨middle, -, huuid⟩ := h
  simp [huuid]

/-! ## Series of GPUs -/

namespace History

theorem mem_lastKeys_map_observations {snapshots : List (List Group)} {key : String} :
    key ∈ lastKeys (snapshots.map observations) ↔
      ∃ p ∈ lastKeys (snapshots.map sightings), keyOf p = key := by
  rw [map_observations, lastKeys, lastKeys, List.getLast?_map]
  cases (snapshots.map sightings).getLast? <;> simp

/-- A GPU of the last snapshot that is not entangled with another one recorded has a series for
itself.  It holds what is kept of the GPU's own log, whatever else is recorded. -/
theorem unentangled_gpus_keep_apart (capacity : Nat) (snapshots : List (List Group)) (m : Metric) :
    let series := (recordAll capacity snapshots).series m
    let rounds := snapshots.map sightings
    (∀ s ∈ series, ∃ p ∈ lastKeys rounds, s.name = keyOf p) ∧
    ∀ p ∈ lastKeys rounds, (∀ q ∈ allKeys rounds, ¬Entangled p q ∧ ¬Entangled q p) →
      ∃ s ∈ series, s.name = keyOf p ∧
        s.points = ((keptOf p rounds).rtake (max capacity 1)).map
          (fun r => ⟨r.time, m.value r.gpu⟩) ∧
        (∀ t ∈ series, t.name = s.name → t = s) ∧
        ∀ q ∈ lastKeys rounds, q ≠ p → keyOf q ≠ s.name := by
  intro series rounds
  have hseries : series = _ := series_recordAll capacity snapshots m
  refine ⟨fun s hs => ?_, fun p hp hfree => ?_⟩
  · rw [hseries] at hs
    obtain ⟨key, hkey, rfl⟩ := List.mem_map.1 hs
    rw [mem_keys_recordAll, mem_lastKeys_map_observations] at hkey
    obtain ⟨p, hp, hkey⟩ := hkey
    exact ⟨p, hp, hkey.symm⟩
  · have halone : ∀ q ∈ allKeys rounds, keyOf q = keyOf p → q = p := by
      intro q hq hkey
      obtain ⟨hpq, hqp⟩ := hfree q hq
      obtain heq | hentangled | hentangled := (keyOf_eq_iff q p).1 hkey
      · exact heq
      · exact absurd hentangled hqp
      · exact absurd hentangled hpq
    have hkept : keptOf (keyOf p) (snapshots.map observations) = keptOf p rounds := by
      rw [keptOf, map_observations, logOf_map keyOf halone]
      rfl
    have hkey : keyOf p ∈ (recordAll capacity snapshots).samples.keys :=
      (mem_keys_recordAll capacity snapshots).2 (mem_lastKeys_map_observations.2 ⟨p, hp, rfl⟩)
    refine ⟨_, hseries ▸ List.mem_map_of_mem hkey, rfl, by rw [hkept], fun t ht hname => ?_,
      fun q hq hne hname => hne (halone q (lastKeys_subset_allKeys rounds hq) hname)⟩
    rw [hseries] at ht
    obtain ⟨key, -, rfl⟩ := List.mem_map.1 ht
    rw [show key = keyOf p from hname]

theorem gpus_of_workstation_keep_apart :
    let snapshots := [loneGpu "ws" "GPU-a" 1 90 ++ loneGpu "ws" "GPU-b" 1 10]
    let series := (recordAll 2 snapshots).series .gpuUtilization
    let rounds := snapshots.map sightings
    (∀ q ∈ allKeys rounds, ¬Entangled ("ws", "GPU-a") q ∧ ¬Entangled q ("ws", "GPU-a")) ∧
    ∃ s ∈ series, s.name = "ws/GPU-a" ∧ s.points = [⟨1, 90⟩] ∧
      ∀ q ∈ lastKeys rounds, q ≠ ("ws", "GPU-a") → keyOf q ≠ s.name := by
  intro snapshots series rounds
  have hfree : ∀ q ∈ allKeys rounds,
      ¬Entangled ("ws", "GPU-a") q ∧ ¬Entangled q ("ws", "GPU-a") := by
    intro q _
    exact ⟨fun h => absurd h.slash_mem_uuid (by decide),
      fun h => absurd h.slash_mem_name (by decide)⟩
  obtain ⟨-, happart⟩ := unentangled_gpus_keep_apart 2 snapshots .gpuUtilization
  obtain ⟨s, hs, hname, hpoints, -, hothers⟩ := happart ("ws", "GPU-a") (by decide) hfree
  exact ⟨hfree, s, hs, hname, hpoints, hothers⟩

/-- Two entangled GPUs share a series.  Of readings at one time the second is lost. -/
theorem entangled_gpus_share_series :
    let snapshot := loneGpu "a" "b/c" 1 90 ++ loneGpu "a/b" "c" 2 10
    let together := loneGpu "a" "b/c" 1 90 ++ loneGpu "a/b" "c" 1 10
    (sightings snapshot).map Prod.fst = [("a", "b/c"), ("a/b", "c")] ∧
    (recordAll 2 [snapshot]).series .gpuUtilization = [⟨"a/b/c", 0, [⟨1, 90⟩, ⟨2, 10⟩]⟩] ∧
    ((recordAll 2 []).record together).1 = 1 ∧
    (recordAll 2 [together]).series .gpuUtilization = [⟨"a/b/c", 0, [⟨1, 90⟩]⟩] := by
  decide +kernel

end History

end PoolWatch
