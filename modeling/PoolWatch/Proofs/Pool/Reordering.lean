import PoolWatch.Proofs.History.Commuting
import PoolWatch.Proofs.Pool.Arrangement
/-!
# The order of a report

A backend may list groups, workstations and GPUs in any order.  Where names tell them apart, sorting
leaves one arrangement, so a reordered report gives the same pool.  Where only the keys of the GPUs
tell them apart, the pools may differ in order, but not in the readings that a history takes up.
-/

namespace PoolWatch

/-- The elements of `xs` in another order, each replaced by a related one. -/
def Permuted {α : Type} (r : α → α → Prop) (xs ys : List α) : Prop :=
  ∃ zs, List.Forall₂ r xs zs ∧ zs.Perm ys

namespace Permuted

variable {α β : Type} {r : α → α → Prop} {xs ys : List α}

theorem map_perm (h : Permuted r xs ys) {f : α → β} (hf : ∀ x ∈ xs, ∀ y, r x y → f x = f y) :
    (xs.map f).Perm (ys.map f) := by
  obtain ⟨zs, hrelated, hperm⟩ := h
  have hmap : xs.map f = zs.map f := by
    clear hperm
    induction hrelated with
    | nil => rfl
    | cons hxz _ ih =>
      rw [List.map_cons, List.map_cons, hf _ List.mem_cons_self _ hxz,
        ih fun x hx => hf x (List.mem_cons_of_mem _ hx)]
  exact hmap ▸ hperm.map f

theorem flatMap_perm (h : Permuted r xs ys) {f : α → List β}
    (hf : ∀ x y, r x y → (f x).Perm (f y)) : (xs.flatMap f).Perm (ys.flatMap f) := by
  obtain ⟨zs, hrelated, hperm⟩ := h
  refine List.Perm.trans ?_ (hperm.flatMap_right f)
  clear hperm
  induction hrelated with
  | nil => exact .refl _
  | cons hxz _ ih => exact (hf _ _ hxz).append ih

end Permuted

/-! ## Sorting what is told apart -/

/-- Lists in order have the same elements only if they are the same, when no two elements stand on
one level. -/
theorem eq_of_perm_of_pairwise {α κ : Type} {le : α → α → Prop} {key : α → κ} {xs ys : List α}
    (hantisymm : ∀ a b, le a b → le b a → key a = key b) (hkeys : (xs.map key).Nodup)
    (hxs : xs.Pairwise le) (hys : ys.Pairwise le) (hperm : xs.Perm ys) : xs = ys := by
  refine hperm.eq_of_pairwise (fun a b ha hb hab hba => ?_) hxs hys
  exact List.inj_on_of_nodup_map hkeys ha (hperm.mem_iff.2 hb) (hantisymm a b hab hba)

namespace Pool

theorem sortBy_eq_of_perm {α : Type} {key : α → String} {xs ys : List α} (hperm : xs.Perm ys)
    (hkeys : (xs.map key).Nodup) : sortBy key xs = sortBy key ys := by
  have hxs : (sortBy key xs).Perm xs := (rearranges_sortBy key xs).perm
  have hys : (sortBy key ys).Perm ys := (rearranges_sortBy key ys).perm
  refine eq_of_perm_of_pairwise (fun a b hab hba => String.le_antisymm hab hba)
    (((hxs.map key).nodup_iff).2 hkeys) (pairwise_sortBy key xs) (pairwise_sortBy key ys) ?_
  exact hxs.trans (hperm.trans hys.symm)

theorem name_eq_of_groupLe {a b : Group} (hab : groupLe a b) (hba : groupLe b a) :
    a.name = b.name := by
  rw [groupLe_iff] at hab hba
  obtain ha | ⟨hb, hab⟩ := hab
  · obtain hb | ⟨ha', -⟩ := hba
    · rw [ha, hb]
    · exact absurd ha ha'
  · obtain hb' | ⟨-, hba⟩ := hba
    · exact absurd hb' hb
    · exact String.le_antisymm hab hba

end Pool

/-! ## Reordered reports -/

namespace Report

structure Workstation.Reordered (w w' : Workstation) : Prop where
  gpus : w.gpus.Perm w'.gpus
  rest : w' = { w with gpus := w'.gpus }

structure Group.Reordered (g g' : Group) : Prop where
  name : g'.name = g.name
  workstations : Permuted Workstation.Reordered g.workstations g'.workstations

/-- A report with its groups in another order, and each of them reordered. -/
def Reordered : List Group → List Group → Prop := Permuted Group.Reordered

/-- No two of the GPUs of a workstation have one uuid, no two of the workstations of a group one
name, and no two groups one name. -/
structure NamesApart (groups : List Group) : Prop where
  groupNames : (groups.map (·.name)).Nodup
  workstationNames : ∀ g ∈ groups, (g.workstations.map (·.name)).Nodup
  uuids : ∀ g ∈ groups, ∀ w ∈ g.workstations, (w.gpus.map (·.uuid)).Nodup

def keys (groups : List Group) : List String :=
  groups.flatMap fun g => g.workstations.flatMap fun w =>
    w.gpus.map fun gpu => historyKey w.name gpu.uuid

end Report

namespace Pool

open Report (NamesApart Reordered)

/-! ## Pools -/

theorem arrangeWorkstation_eq {w w' : Report.Workstation} (h : w.Reordered w')
    (huuids : (w.gpus.map (·.uuid)).Nodup) : arrangeWorkstation w = arrangeWorkstation w' := by
  have hperm := h.gpus.map gpuOfReport
  have hkeys : ((w.gpus.map gpuOfReport).map (·.uuid)).Nodup := by
    rw [List.map_map]
    exact huuids
  rw [h.rest, arrangeWorkstation, arrangeWorkstation, sortBy_eq_of_perm hperm hkeys]

theorem arrangeGroup_eq {g g' : Report.Group} (h : g.Reordered g')
    (hnames : (g.workstations.map (·.name)).Nodup)
    (huuids : ∀ w ∈ g.workstations, (w.gpus.map (·.uuid)).Nodup) :
    arrangeGroup g = arrangeGroup g' := by
  have hperm : (g.workstations.map arrangeWorkstation).Perm
      (g'.workstations.map arrangeWorkstation) :=
    h.workstations.map_perm fun w hw w' hww' => arrangeWorkstation_eq hww' (huuids w hw)
  have hkeys : ((g.workstations.map arrangeWorkstation).map (·.name)).Nodup := by
    rw [List.map_map]
    exact hnames
  rw [arrangeGroup, arrangeGroup, h.name, sortBy_eq_of_perm hperm hkeys]

theorem arrange_eq_of_reordered {groups groups' : List Report.Group} (h : Reordered groups groups')
    (hnames : NamesApart groups) : arrange groups = arrange groups' := by
  have hperm : (groups.map arrangeGroup).Perm (groups'.map arrangeGroup) :=
    h.map_perm fun g hg g' hgg' =>
      arrangeGroup_eq hgg' (hnames.workstationNames g hg) (hnames.uuids g hg)
  have hsorted : (arrange groups).Perm (groups.map arrangeGroup) := List.mergeSort_perm _ _
  have hsorted' : (arrange groups').Perm (groups'.map arrangeGroup) := List.mergeSort_perm _ _
  have hapart : ((arrange groups).map (·.name)).Nodup := by
    rw [(hsorted.map _).nodup_iff, List.map_map]
    exact hnames.groupNames
  refine eq_of_perm_of_pairwise ?_ hapart (pairwise_arrange groups) (pairwise_arrange groups')
    (hsorted.trans (hperm.trans hsorted'.symm))
  exact fun a b => name_eq_of_groupLe

/-! ## Readings -/

def reportedReadings (groups : List Report.Group) : List (String × Reading) :=
  groups.flatMap fun g => g.workstations.flatMap fun w =>
    w.gpus.map fun gpu => (historyKey w.name gpu.uuid,
      ⟨Float.ofNat w.lastSeen / 1e9, gpuOfReport gpu⟩)

theorem map_fst_reportedReadings (groups : List Report.Group) :
    (reportedReadings groups).map Prod.fst = Report.keys groups := by
  simp [reportedReadings, Report.keys, List.map_flatMap, Function.comp_def]

theorem reportedReadings_perm {groups groups' : List Report.Group} (h : Reordered groups groups') :
    (reportedReadings groups).Perm (reportedReadings groups') := by
  refine h.flatMap_perm fun g g' hgroup => ?_
  refine hgroup.workstations.flatMap_perm fun w w' hworkstation => ?_
  rw [hworkstation.rest]
  exact hworkstation.gpus.map _

theorem observations_arrange_perm (groups : List Report.Group) :
    (observations (arrange groups)).Perm (reportedReadings groups) := by
  have hpool : (arrange groups).Perm (groups.map arrangeGroup) := List.mergeSort_perm _ _
  refine (hpool.flatMap_right _).trans ?_
  rw [List.flatMap_map]
  refine List.Perm.flatMap_left _ fun g _ => ?_
  have hgroup : (arrangeGroup g).workstations.Perm (g.workstations.map arrangeWorkstation) :=
    (List.filter_append_perm _ _).trans (rearranges_sortBy _ _).perm
  refine (hgroup.flatMap_right _).trans ?_
  rw [List.flatMap_map]
  refine List.Perm.flatMap_left _ fun w _ => ?_
  rw [gpus_arrangeWorkstation, List.map_map]
  exact (rearranges_sortBy (·.uuid) w.gpus).perm.map _

theorem record_arrange_eq {groups groups' : List Report.Group} (h : Reordered groups groups')
    (hkeys : (Report.keys groups).Nodup) (history : History) :
    history.record (arrange groups) = history.record (arrange groups') := by
  have hreported := observations_arrange_perm groups
  refine History.record_eq_of_perm (hreported.trans ((reportedReadings_perm h).trans
    (observations_arrange_perm groups').symm)) ?_ history
  rw [(hreported.map Prod.fst).nodup_iff, map_fst_reportedReadings]
  exact hkeys

/-- Reordering reports changes nothing.  Where names tell groups, workstations and GPUs apart, a
report and its reordering give the same pool.  Where the keys of GPUs are different, even if names
repeat, recording the pools of the reports in turn adds as many samples each time and leaves the
same history, so the same series of every metric. -/
theorem order_of_reports_immaterial {reports reports' : List (List Report.Group)}
    (h : List.Forall₂ Reordered reports reports') :
    List.Forall₂ (fun r r' => NamesApart r → arrange r = arrange r') reports reports' ∧
    ((∀ r ∈ reports, (Report.keys r).Nodup) → ∀ capacity,
      (History.empty capacity).recordEach (reports.map arrange) =
        (History.empty capacity).recordEach (reports'.map arrange) ∧
      ∀ m, (History.recordAll capacity (reports.map arrange)).series m =
        (History.recordAll capacity (reports'.map arrange)).series m) := by
  refine ⟨h.imp fun r r' hr => arrange_eq_of_reordered hr, fun hkeys capacity => ?_⟩
  have hrecord : List.Forall₂ (fun pool pool' => ∀ h : History, h.record pool = h.record pool')
      (reports.map arrange) (reports'.map arrange) := by
    rw [List.forall₂_map_left_iff, List.forall₂_map_right_iff]
    induction h with
    | nil => exact .nil
    | cons hr _ ih =>
      obtain ⟨hkey, hkeys⟩ := List.forall_mem_cons.1 hkeys
      exact .cons (record_arrange_eq hr hkey) (ih hkeys)
  have heach := History.recordEach_eq hrecord (History.empty capacity)
  refine ⟨heach, fun m => ?_⟩
  rw [History.recordAll_eq_getLastD, History.recordAll_eq_getLastD, heach]

def bareGpu (uuid : String) : Report.Gpu :=
  ⟨uuid, "", "", "", 0, 0, 0, 0, 0, 0, 0, 0, 0, 0, 0, 0, 0, false, none⟩

def bareWorkstation (name : String) (lastSeen : Nat) (uuids : List String) : Report.Workstation :=
  ⟨name, "", "", "", "", lastSeen, uuids.map bareGpu⟩

theorem reordered_bareWorkstation {name : String} {lastSeen : Nat} {uuids uuids' : List String}
    (h : uuids.Perm uuids') :
    (bareWorkstation name lastSeen uuids).Reordered (bareWorkstation name lastSeen uuids') :=
  ⟨h.map _, rfl⟩

theorem order_of_lab_immaterial :
    let tidy : List Report.Group :=
      [⟨"lab", [bareWorkstation "w" 1 ["a", "b"], bareWorkstation "v" 2 ["c"]]⟩]
    let tidy' : List Report.Group :=
      [⟨"lab", [bareWorkstation "v" 2 ["c"], bareWorkstation "w" 1 ["b", "a"]]⟩]
    let twins : List Report.Group :=
      [⟨"lab", [bareWorkstation "w" 3 ["a"]]⟩, ⟨"lab", [bareWorkstation "w" 4 ["b"]]⟩]
    List.Forall₂ Reordered [tidy, twins] [tidy', twins.reverse] ∧ NamesApart tidy ∧
    arrange tidy = arrange tidy' ∧ (∀ r ∈ [tidy, twins], (Report.keys r).Nodup) ∧
    ∀ capacity, (History.empty capacity).recordEach ([tidy, twins].map arrange) =
      (History.empty capacity).recordEach ([tidy', twins.reverse].map arrange) := by
  intro tidy tidy' twins
  have hsame (r : List Report.Workstation) : Permuted Report.Workstation.Reordered r r :=
    ⟨r, List.forall₂_same.2 fun w _ => ⟨.refl _, rfl⟩, .refl _⟩
  have htidy : Reordered tidy tidy' := by
    refine ⟨tidy', .cons ⟨rfl, ?_⟩ .nil, .refl _⟩
    exact ⟨_, .cons (reordered_bareWorkstation (.swap _ _ _))
      (.cons (reordered_bareWorkstation (.refl _)) .nil), .swap _ _ _⟩
  have htwins : Reordered twins twins.reverse :=
    ⟨twins, .cons ⟨rfl, hsame _⟩ (.cons ⟨rfl, hsame _⟩ .nil), .swap _ _ _⟩
  have hreordered : List.Forall₂ Reordered [tidy, twins] [tidy', twins.reverse] :=
    .cons htidy (.cons htwins .nil)
  have hnames : NamesApart tidy := by
    constructor <;> decide
  have hkeys : ∀ r ∈ [tidy, twins], (Report.keys r).Nodup := by decide
  obtain ⟨hpools, hrecords⟩ := order_of_reports_immaterial hreordered
  exact ⟨hreordered, hnames, (List.forall₂_cons.1 hpools).1 hnames, hkeys,
    fun capacity => (hrecords hkeys capacity).1⟩

end Pool

end PoolWatch
