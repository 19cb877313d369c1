import Mathlib.Algebra.BigOperators.Group.Finset.Piecewise
import Mathlib.Algebra.Order.BigOperators.Group.Finset
import PoolWatch.Proofs.History.Log
/-!
# Recording refines the log

A history holds, under every key, the newest of the readings that are kept of a log.  Taking up a
reading extends the log of its key, and forgetting empties logs.  So after any snapshots a history
holds what the logs of these snapshots say, and a record adds as many samples as the logs keep
readings more.
-/

namespace PoolWatch

/-! ## Samples of a log -/

theorem getLast?_rtake {α : Type} {capacity : Nat} (hpos : 0 < capacity) (l : List α) :
    (l.rtake capacity).getLast? = l.getLast? := by
  rw [List.rtake, List.getLast?_drop]
  by_cases hnil : l = []
  · simp [hnil]
  · have hlength : 0 < l.length := List.length_pos_iff.2 hnil
    rw [if_neg (by omega)]

theorem rtake_append_singleton {α : Type} {capacity : Nat} (hpos : 0 < capacity) (l : List α)
    (a : α) :
    (l ++ [a]).rtake capacity =
      (if capacity ≤ (l.rtake capacity).length then (l.rtake capacity).drop 1
        else l.rtake capacity) ++ [a] := by
  have hlength : (l.rtake capacity).length = l.length - (l.length - capacity) :=
    List.length_drop
  rw [List.rtake, List.length_append, List.length_singleton, List.drop_append_of_le_length
    (by omega)]
  by_cases hfull : capacity ≤ l.length
  · have hdrop : l.length + 1 - capacity = l.length - capacity + 1 := by omega
    rw [if_pos (by omega), hdrop, List.rtake, List.drop_drop]
  · have hdrop : l.length + 1 - capacity = l.length - capacity := by omega
    rw [if_neg (by omega), hdrop, List.rtake]

theorem appendSample?_rtake {capacity : Nat} (hpos : 0 < capacity) (kept : List Reading)
    (r : Reading) :
    appendSample? capacity ((kept.rtake capacity).map .ofReading) r =
      if kept.getLast?.any (r.time ≤ ·.time) then none
      else some (((kept ++ [r]).rtake capacity).map .ofReading) := by
  rw [appendSample?, List.getLast?_map, getLast?_rtake hpos, Option.any_map, List.length_map,
    rtake_append_singleton hpos, List.map_append, apply_ite (List.map Sample.ofReading),
    List.map_drop]
  rfl

/-- What a history holds of a log: the newest of the readings kept, but nothing at all of an empty
log. -/
def stored (capacity : Nat) (log : List Reading) : Option (List Sample) :=
  if log = [] then none else some (((keptAfter none log).rtake capacity).map .ofReading)

theorem getD_stored (capacity : Nat) (log : List Reading) :
    (stored capacity log).getD [] = ((keptAfter none log).rtake capacity).map .ofReading := by
  unfold stored
  split
  next hnil => simp [hnil, keptAfter]
  next => rfl

namespace History

variable {h : History} {logs : String → List Reading}

/-- Under every key a history holds what is kept of its log. -/
def Holds (h : History) (logs : String → List Reading) : Prop :=
  ∀ key, h.samples[key]? = stored h.capacity (logs key)

theorem Holds.kept_eq (hh : h.Holds logs) (key : String) :
    h.kept key = ((keptAfter none (logs key)).rtake h.capacity).map .ofReading := by
  rw [kept, hh key, getD_stored]

/-! ## One reading -/

theorem Holds.observe_eq (hh : h.Holds logs) (key : String) (r : Reading) :
    h.observe key r =
      if (keptAfter none (logs key)).getLast?.any (r.time ≤ ·.time) then (0, h)
      else (1, { h with
        samples := h.samples.insert key
          (((keptAfter none (logs key) ++ [r]).rtake h.capacity).map .ofReading) }) := by
  rw [observe, hh.kept_eq, appendSample?_rtake h.capacity_pos]
  split <;> split <;> simp_all

theorem capacity_observe (h : History) (key : String) (r : Reading) :
    (h.observe key r).2.capacity = h.capacity := by
  unfold observe
  split <;> rfl

theorem Holds.observe (hh : h.Holds logs) (key : String) (r : Reading) :
    (h.observe key r).2.Holds fun k => logs k ++ readingsOf k [(key, r)] := by
  intro k
  have hkept := keptAfter_none_append_singleton (logs key) r
  show _ = stored _ (logs k ++ readingsOf k [(key, r)])
  rw [capacity_observe, hh.observe_eq, readingsOf_singleton]
  by_cases hstale : (keptAfter none (logs key)).getLast?.any (r.time ≤ ·.time) = true
  · rw [if_pos hstale, hh k]
    by_cases hkey : key = k
    · subst hkey
      -- The first reading of a log is never stale, so there is something stored already.
      have hlog : logs key ≠ [] := by
        intro hnil
        simp [hnil, keptAfter] at hstale
      rw [if_pos rfl, stored, stored, if_neg hlog, if_neg (by simp), hkept, if_pos hstale]
    · rw [if_neg hkey, List.append_nil]
  · rw [if_neg hstale, Std.ExtTreeMap.getElem?_insert]
    by_cases hkey : key = k
    · subst hkey
      rw [if_pos (by simp), if_pos rfl, stored, if_neg (by simp), hkept, if_neg hstale]
    · rw [if_neg (by simpa using hkey), if_neg hkey, List.append_nil]
      exact hh k

theorem Holds.added_observe (hh : h.Holds logs) (key : String) (r : Reading) :
    (keptAfter none (logs key ++ [r])).length =
      (keptAfter none (logs key)).length + (h.observe key r).1 := by
  rw [hh.observe_eq, keptAfter_none_append_singleton]
  split <;> simp

/-! ## A snapshot -/

theorem capacity_observeAll (h : History) (seen : List (String × Reading)) :
    (h.observeAll seen).2.capacity = h.capacity := by
  induction seen generalizing h with
  | nil => rfl
  | cons entry rest ih => exact (ih _).trans (capacity_observe h _ _)

theorem Holds.observeAll (hh : h.Holds logs) (seen : List (String × Reading)) :
    (h.observeAll seen).2.Holds fun k => logs k ++ readingsOf k seen := by
  induction seen generalizing h logs with
  | nil => simpa [readingsOf, History.observeAll] using hh
  | cons entry rest ih =>
    obtain ⟨key, r⟩ := entry
    have hrest := ih (hh.observe key r)
    simp only [List.append_assoc, ← readingsOf_cons] at hrest
    exact hrest

-- What a snapshot adds is counted over a fixed set of keys.  Only the key of a reading grows with
-- it, and it must be in the set to be counted.

def keptCount (keys : Finset String) (logs : String → List Reading) : Nat :=
  ∑ key ∈ keys, (keptAfter none (logs key)).length

theorem Holds.keptCount_observe (hh : h.Holds logs) {keys : Finset String} {key : String}
    (hkey : key ∈ keys) (r : Reading) :
    keptCount keys (fun k => logs k ++ readingsOf k [(key, r)]) =
      keptCount keys logs + (h.observe key r).1 := by
  have hone : ∀ k ∈ keys, (keptAfter none (logs k ++ readingsOf k [(key, r)])).length =
      (keptAfter none (logs k)).length + if key = k then (h.observe key r).1 else 0 := by
    intro k _
    rw [readingsOf_singleton]
    split
    next heq => rw [← heq, hh.added_observe]
    next => rw [List.append_nil, Nat.add_zero]
  rw [keptCount, Finset.sum_congr rfl hone, Finset.sum_add_distrib, Finset.sum_ite_eq,
    if_pos hkey]
  rfl

theorem Holds.keptCount_observeAll (hh : h.Holds logs) {keys : Finset String}
    {seen : List (String × Reading)} (hkeys : ∀ entry ∈ seen, entry.1 ∈ keys) :
    keptCount keys (fun k => logs k ++ readingsOf k seen) =
      keptCount keys logs + (h.observeAll seen).1 := by
  induction seen generalizing h logs with
  | nil => simp [readingsOf, History.observeAll]
  | cons entry rest ih =>
    obtain ⟨key, r⟩ := entry
    have hfirst := hh.keptCount_observe (hkeys _ List.mem_cons_self) r
    have hrest := ih (hh.observe key r) fun entry he => hkeys entry (List.mem_cons_of_mem _ he)
    simp only [List.append_assoc, ← readingsOf_cons] at hrest
    rw [hrest, hfirst, Nat.add_assoc]
    rfl

theorem Holds.retain (hh : h.Holds logs) (keys : List String) :
    (h.retain keys).Holds fun k => if k ∈ keys then logs k else [] := by
  intro k
  show (h.samples.filter fun key _ => keys.contains key)[k]? =
    stored h.capacity (if k ∈ keys then logs k else [])
  rw [Std.ExtTreeMap.getElem?_filter', hh k]
  by_cases hk : k ∈ keys
  · rw [if_pos hk]
    cases stored h.capacity (logs k) <;> simp [hk]
  · simp [hk, stored]

/-! ## Snapshots -/

theorem capacity_record (h : History) (groups : List Group) :
    (h.record groups).2.capacity = h.capacity :=
  capacity_observeAll h (observations groups)

theorem holds_empty (capacity : Nat) : (empty capacity).Holds fun _ => [] := by
  intro key
  simp [empty, stored]

/-- The history of some snapshots, recorded in turn. -/
def recordAll (capacity : Nat) (snapshots : List (List Group)) : History :=
  snapshots.foldl (fun h groups => (h.record groups).2) (empty capacity)

theorem recordAll_append_singleton (capacity : Nat) (snapshots : List (List Group))
    (groups : List Group) :
    recordAll capacity (snapshots ++ [groups]) =
      ((recordAll capacity snapshots).record groups).2 := by
  simp [recordAll]

theorem capacity_recordAll (capacity : Nat) (snapshots : List (List Group)) :
    (recordAll capacity snapshots).capacity = max capacity 1 := by
  induction snapshots using List.reverseRecOn with
  | nil => rfl
  | append_singleton snapshots groups ih =>
    rw [recordAll_append_singleton, capacity_record, ih]

theorem holds_recordAll (capacity : Nat) (snapshots : List (List Group)) :
    (recordAll capacity snapshots).Holds fun key => logOf key (snapshots.map observations) := by
  induction snapshots using List.reverseRecOn with
  | nil => exact holds_empty capacity
  | append_singleton snapshots groups ih =>
    have hstep := (ih.observeAll (observations groups)).retain ((observations groups).map (·.1))
    rw [recordAll_append_singleton, List.map_append, List.map_singleton]
    simp only [logOf_append_singleton]
    exact hstep

theorem added_record (capacity : Nat) (snapshots : List (List Group)) (groups : List Group) :
    let rounds := snapshots.map observations
    let seen := observations groups
    ((recordAll capacity snapshots).record groups).1 =
      ∑ key ∈ (seen.map Prod.fst).toFinset,
        ((keptOf key (rounds ++ [seen])).length - (keptOf key rounds).length) := by
  intro rounds seen
  let keys := (seen.map Prod.fst).toFinset
  have hkeys : ∀ entry ∈ seen, entry.1 ∈ keys :=
    fun entry he => List.mem_toFinset.2 (List.mem_map_of_mem he)
  have htotal := (holds_recordAll capacity snapshots).keptCount_observeAll hkeys
  have hlog : ∀ key ∈ keys,
      logOf key (rounds ++ [seen]) = logOf key rounds ++ readingsOf key seen :=
    fun key hkey => by rw [logOf_append_singleton, if_pos (List.mem_toFinset.1 hkey)]
  have hgrow : ∀ key ∈ keys,
      (keptOf key rounds).length ≤ (keptOf key (rounds ++ [seen])).length := by
    intro key hkey
    rw [keptOf_append_singleton (List.mem_toFinset.1 hkey), List.length_append]
    omega
  have hlater : keptCount keys (fun key => logOf key rounds ++ readingsOf key seen) =
      ∑ key ∈ keys, (keptOf key (rounds ++ [seen])).length :=
    Finset.sum_congr rfl fun key hkey => by rw [keptOf, hlog key hkey]
  rw [Finset.sum_tsub_distrib _ hgrow, ← hlater]
  exact (Nat.sub_eq_of_eq_add' htotal).symm

end History

end PoolWatch
