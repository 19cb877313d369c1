import Mathlib.Data.List.Forall2
import PoolWatch.Proofs.Pool.Rearrangement
/-!
# The arranged pool is the report

An arranged pool shows what was reported, group by group, workstation by workstation and GPU by
GPU.  On each level it is a stable rearrangement: the shared groups, then the others by name;
free workstations, then busy ones, both by name; GPUs by their ids.
-/

namespace PoolWatch

/-- A GPU as it is shown for a reported one. -/
structure Gpu.Shows (g : Gpu) (r : Report.Gpu) : Prop where
  uuid : g.uuid = r.uuid
  model : g.model = r.gpuName
  brand : g.brand = r.gpuBrand
  driver : g.driver = r.driverVer
  memoryTotal : g.memoryTotal = r.memoryTotal
  memoryUtilization : g.memoryUtilization = r.memoryUtil
  utilization : g.utilization = r.gpuUtil
  memoryUsed : g.memoryUsed = r.memoryUsed
  fanSpeed : g.fanSpeed = r.fanSpeed
  temperature : g.temperature = r.gpuTemp
  memoryTemperature : g.memoryTemperature = r.memoryTemp
  voltage : g.voltage = r.graphicsVoltage
  powerDraw : g.powerDraw = r.powerDraw
  graphicsClock : g.graphicsClock = r.graphicsClock
  maxGraphicsClock : g.maxGraphicsClock = r.maxGraphicsClock
  memoryClock : g.memoryClock = r.memoryClock
  maxMemoryClock : g.maxMemoryClock = r.maxMemoryClock
  inUse : g.inUse = r.inUse
  user : g.user = r.user

structure Workstation.Shows (w : Workstation) (r : Report.Workstation) : Prop where
  name : w.name = r.name
  cpu : w.cpu = r.cpu
  motherboard : w.motherboard = r.motherboard
  notes : w.notes = r.notes
  owner : w.owner = r.owner
  lastSeen : w.lastSeenSeconds = Float.ofNat r.lastSeen / 1e9
  gpus : ∃ gs, Rearranges (·.uuid) gs r.gpus ∧ List.Forall₂ Gpu.Shows w.gpus gs
  ascending : w.gpus.Pairwise fun a b => codePoints a.uuid ≤ codePoints b.uuid
  free : w.free = true ↔ ∀ gpu ∈ r.gpus, gpu.inUse = false

/-- A group as it is shown for a reported one.  Workstations with one name keep their order as
far as they are in one half. -/
structure Group.Shows (g : Group) (r : Report.Group) : Prop where
  name : g.name = r.name
  workstations : ∃ ws, Rearranges (fun w => (w.gpus.any (·.inUse), w.name)) ws r.workstations ∧
    List.Forall₂ Workstation.Shows g.workstations ws
  free : ∀ w ∈ g.workstations.take g.freeCount, w.free = true
  busy : ∀ w ∈ g.workstations.drop g.freeCount, w.free = false
  freeAscending : (g.workstations.take g.freeCount).Pairwise fun a b =>
    codePoints a.name ≤ codePoints b.name
  busyAscending : (g.workstations.drop g.freeCount).Pairwise fun a b =>
    codePoints a.name ≤ codePoints b.name

namespace Pool

section

variable {α : Type} (key : α → String)

theorem decide_key_le_trans (a b c : α) (hab : decide (key a ≤ key b) = true)
    (hbc : decide (key b ≤ key c) = true) : decide (key a ≤ key c) = true :=
  decide_eq_true (String.le_trans (of_decide_eq_true hab) (of_decide_eq_true hbc))

theorem decide_key_le_total (a b : α) :
    (decide (key a ≤ key b) || decide (key b ≤ key a)) = true := by
  simpa using String.le_total (key a) (key b)

theorem rearranges_sortBy (xs : List α) : Rearranges key (sortBy key xs) xs := by
  apply Rearranges.mergeSort
  · exact decide_key_le_trans key
  · exact decide_key_le_total key
  · intro a b hab
    simp [hab]

theorem pairwise_sortBy (xs : List α) : (sortBy key xs).Pairwise fun a b => key a ≤ key b :=
  (List.pairwise_mergeSort (decide_key_le_trans key) (decide_key_le_total key) xs).imp
    of_decide_eq_true

end

theorem sortBy_map {α β : Type} (key : β → String) (f : α → β) (xs : List α) :
    sortBy key (xs.map f) = (sortBy (key ∘ f) xs).map f :=
  (List.map_mergeSort (r := fun a b => decide (key (f a) ≤ key (f b))) fun _ _ _ _ => rfl).symm

/-! ## Workstations -/

theorem gpuOfReport_shows (r : Report.Gpu) : (gpuOfReport r).Shows r := by
  constructor <;> rfl

theorem gpus_arrangeWorkstation (r : Report.Workstation) :
    (arrangeWorkstation r).gpus = (sortBy (·.uuid) r.gpus).map gpuOfReport :=
  sortBy_map Gpu.uuid gpuOfReport r.gpus

theorem free_arrangeWorkstation (r : Report.Workstation) :
    (arrangeWorkstation r).free = !r.gpus.any (·.inUse) := by
  have hperm : (sortBy (·.uuid) r.gpus).Perm r.gpus := (rearranges_sortBy _ _).perm
  have hfree : (arrangeWorkstation r).free = !(arrangeWorkstation r).gpus.any (·.inUse) := rfl
  rw [hfree, gpus_arrangeWorkstation, List.any_map]
  exact congrArg not hperm.any_eq

theorem shows_arrangeWorkstation (r : Report.Workstation) : (arrangeWorkstation r).Shows r where
  name := rfl
  cpu := rfl
  motherboard := rfl
  notes := rfl
  owner := rfl
  lastSeen := rfl
  gpus := by
    refine ⟨sortBy (·.uuid) r.gpus, rearranges_sortBy (·.uuid) r.gpus, ?_⟩
    rw [gpus_arrangeWorkstation, List.forall₂_map_left_iff, List.forall₂_same]
    exact fun gpu _ => gpuOfReport_shows gpu
  ascending := (pairwise_sortBy Gpu.uuid _).imp fun {_ _} => (le_iff_codePoints_le _ _).1
  free := by simp [free_arrangeWorkstation]

/-! ## Groups -/

/-- The reported workstations in the order in which their group shows them. -/
def shownOrder (ws : List Report.Workstation) : List Report.Workstation :=
  let sorted := sortBy (·.name) ws
  sorted.filter (!·.gpus.any (·.inUse)) ++ sorted.filter (·.gpus.any (·.inUse))

theorem rearranges_shownOrder (ws : List Report.Workstation) :
    Rearranges (fun w => (w.gpus.any (·.inUse), w.name)) (shownOrder ws) ws := by
  have hsort : Rearranges (fun w => (w.gpus.any (·.inUse), w.name))
      (sortBy (·.name) ws) ws :=
    (rearranges_sortBy _ ws).refine _ Prod.snd fun _ => rfl
  have hfront : Rearranges (fun w => (w.gpus.any (·.inUse), w.name))
      ((sortBy (·.name) ws).filter (!·.gpus.any (·.inUse)) ++
        (sortBy (·.name) ws).filter (!!·.gpus.any (·.inUse))) (sortBy (·.name) ws) :=
    .filter_append_filter _ (fun c : Bool × String => !c.1) (fun _ => rfl) _
  simp only [Bool.not_not] at hfront
  exact hfront.trans hsort

theorem workstations_arrangeGroup (r : Report.Group) :
    (arrangeGroup r).workstations = (shownOrder r.workstations).map arrangeWorkstation := by
  have hsort : sortBy (·.name) (r.workstations.map arrangeWorkstation) =
      (sortBy (·.name) r.workstations).map arrangeWorkstation := sortBy_map _ _ _
  simp only [arrangeGroup, freeFirst, hsort, shownOrder, List.map_append, List.filter_map,
    Function.comp_def, free_arrangeWorkstation, Bool.not_not]

theorem countP_freeFirst (ws : List Workstation) :
    (freeFirst ws).countP (·.free) = (ws.filter (·.free)).length := by
  simp [freeFirst, List.countP_eq_length_filter]

theorem shows_arrangeGroup (r : Report.Group) : (arrangeGroup r).Shows r := by
  let sorted := sortBy (·.name) (r.workstations.map arrangeWorkstation)
  have hcount : (arrangeGroup r).freeCount = (sorted.filter (·.free)).length :=
    countP_freeFirst sorted
  have hfree : (arrangeGroup r).workstations.take (arrangeGroup r).freeCount =
      sorted.filter (·.free) := List.take_left' hcount.symm
  have hbusy : (arrangeGroup r).workstations.drop (arrangeGroup r).freeCount =
      sorted.filter (!·.free) := List.drop_left' hcount.symm
  have hascending : sorted.Pairwise fun a b => codePoints a.name ≤ codePoints b.name :=
    (pairwise_sortBy Workstation.name _).imp fun {_ _} => (le_iff_codePoints_le _ _).1
  refine ⟨rfl, ⟨shownOrder r.workstations, rearranges_shownOrder _, ?_⟩, ?_, ?_, ?_, ?_⟩
  · rw [workstations_arrangeGroup, List.forall₂_map_left_iff, List.forall₂_same]
    exact fun w _ => shows_arrangeWorkstation w
  · intro w hw
    rw [hfree, List.mem_filter] at hw
    exact hw.2
  · intro w hw
    rw [hbusy, List.mem_filter] at hw
    simpa using hw.2
  · exact hfree ▸ hascending.filter _
  · exact hbusy ▸ hascending.filter _

/-! ## Pools -/

theorem groupLe_iff (a b : Group) : groupLe a b = true ↔
    a.name = sharedName ∨ b.name ≠ sharedName ∧ a.name ≤ b.name := by
  unfold groupLe
  split
  next ha => simp [ha]
  next ha =>
    split
    next hb => simp [ha, hb]
    next hb => simp [ha, hb]

theorem groupLe_trans (a b c : Group) (hab : groupLe a b) (hbc : groupLe b c) : groupLe a c := by
  rw [groupLe_iff] at hab hbc ⊢
  obtain ha | ⟨hb, hab⟩ := hab
  · exact .inl ha
  · obtain hshared | ⟨hc, hbc⟩ := hbc
    · exact absurd hshared hb
    · exact .inr ⟨hc, String.le_trans hab hbc⟩

theorem groupLe_total (a b : Group) : groupLe a b || groupLe b a := by
  rw [Bool.or_eq_true, groupLe_iff, groupLe_iff]
  by_cases ha : a.name = sharedName
  · exact .inl (.inl ha)
  · by_cases hb : b.name = sharedName
    · exact .inr (.inl hb)
    · exact (String.le_total a.name b.name).imp (fun h => .inr ⟨hb, h⟩) fun h => .inr ⟨ha, h⟩

theorem groupLe_of_name_eq (a b : Group) (h : a.name = b.name) : groupLe a b := by
  rw [groupLe_iff]
  by_cases ha : a.name = sharedName
  · exact .inl ha
  · exact .inr ⟨h ▸ ha, h ▸ String.le_refl _⟩

/-- The reported groups in the order in which the pool shows them. -/
def reportOrder (groups : List Report.Group) : List Report.Group :=
  groups.mergeSort fun a b => groupLe (arrangeGroup a) (arrangeGroup b)

theorem arrange_eq_map (groups : List Report.Group) :
    arrange groups = (reportOrder groups).map arrangeGroup :=
  (List.map_mergeSort (r := fun a b => groupLe (arrangeGroup a) (arrangeGroup b))
    fun _ _ _ _ => rfl).symm

theorem rearranges_reportOrder (groups : List Report.Group) :
    Rearranges (·.name) (reportOrder groups) groups :=
  Rearranges.mergeSort (fun a b c => groupLe_trans (arrangeGroup a) (arrangeGroup b)
    (arrangeGroup c)) (fun a b => groupLe_total (arrangeGroup a) (arrangeGroup b))
    (fun a b => groupLe_of_name_eq (arrangeGroup a) (arrangeGroup b)) groups

theorem pairwise_arrange (groups : List Report.Group) :
    (arrange groups).Pairwise (groupLe · ·) :=
  List.pairwise_mergeSort groupLe_trans groupLe_total _

theorem eq_filter_append_filter {gs : List Group} (h : gs.Pairwise (groupLe · ·)) :
    gs = gs.filter (·.name = sharedName) ++ gs.filter (·.name ≠ sharedName) := by
  induction h with
  | nil => rfl
  | @cons g gs hg _ ih =>
    by_cases hname : g.name = sharedName
    · simp only [hname, List.filter_cons, decide_true, if_true, ne_eq, not_true_eq_false,
        decide_false, Bool.false_eq_true, if_false, List.cons_append]
      exact congrArg (g :: ·) ih
    · -- behind a group that is not shared there is no shared one
      have hothers : ∀ g' ∈ gs, g'.name ≠ sharedName := by
        intro g' hg'
        obtain hshared | ⟨hother, -⟩ := (groupLe_iff g g').1 (hg g' hg')
        · exact absurd hshared hname
        · exact hother
      have hnone : gs.filter (·.name = sharedName) = [] := by
        simpa [List.filter_eq_nil_iff] using hothers
      have hall : gs.filter (·.name ≠ sharedName) = gs := by
        simpa [List.filter_eq_self] using hothers
      simp only [List.filter_cons, hname, decide_false, Bool.false_eq_true, if_false, hnone,
        List.nil_append, ne_eq, not_false_eq_true, decide_true, if_true]
      exact congrArg (g :: ·) hall.symm

/-- An arranged pool shows the reported groups, each of them once, those with one name in the
order of the report.  Shared groups stand in front, the others follow by name. -/
theorem arrange_shows_report (groups : List Report.Group) :
    (∃ gs, Rearranges (·.name) gs groups ∧ List.Forall₂ Group.Shows (arrange groups) gs) ∧
    ∃ shared others, arrange groups = shared ++ others ∧
      (∀ g ∈ shared, g.name = "Shared") ∧ (∀ g ∈ others, g.name ≠ "Shared") ∧
      others.Pairwise fun a b => codePoints a.name ≤ codePoints b.name := by
  have hsorted := pairwise_arrange groups
  refine ⟨⟨reportOrder groups, rearranges_reportOrder groups, ?_⟩,
    (arrange groups).filter (·.name = sharedName), (arrange groups).filter (·.name ≠ sharedName),
    eq_filter_append_filter hsorted, ?_, ?_, ?_⟩
  · rw [arrange_eq_map, List.forall₂_map_left_iff, List.forall₂_same]
    exact fun g _ => shows_arrangeGroup g
  · intro g hg
    exact of_decide_eq_true (List.mem_filter.1 hg).2
  · intro g hg
    exact of_decide_eq_true (List.mem_filter.1 hg).2
  · rw [List.pairwise_filter]
    refine hsorted.imp fun {a b} hab ha _ => ?_
    obtain hshared | ⟨-, hle⟩ := (groupLe_iff a b).1 hab
    · exact absurd hshared (of_decide_eq_true ha)
    · exact (le_iff_codePoints_le _ _).1 hle

end Pool

end PoolWatch
