import Mathlib.Data.List.Chain
import Mathlib.Data.List.DropRight
import PoolWatch.History
import PoolWatch.Proofs.Numeric.FloatOrder
/-!
# The log of a GPU

What an unbounded log says of a GPU: every reading since the last snapshot that lacked it.  Of a
log those readings are kept, one after the other, that are newer than the one kept before.

A snapshot is here the list of its readings, each under a key.  What the keys are does not matter.
-/

namespace PoolWatch

/-! ## Keeping -/

/-- The readings of a log that are kept after a given one: each, unless the one kept before it is
as new. -/
def keptAfter (last : Option Reading) : List Reading → List Reading
  | [] => []
  | r :: log =>
    if last.any (r.time ≤ ·.time) then keptAfter last log else r :: keptAfter (some r) log

theorem keptAfter_append (last : Option Reading) (log rest : List Reading) :
    keptAfter last (log ++ rest) =
      keptAfter last log ++ keptAfter ((keptAfter last log).getLast?.or last) rest := by
  induction log generalizing last with
  | nil => rfl
  | cons r log ih =>
    rw [List.cons_append, keptAfter, keptAfter]
    split
    · exact ih last
    · rw [ih, List.cons_append, List.getLast?_cons]
      cases (keptAfter (some r) log).getLast? <;> rfl

theorem keptAfter_none_append (log rest : List Reading) :
    keptAfter none (log ++ rest) =
      keptAfter none log ++ keptAfter (keptAfter none log).getLast? rest := by
  rw [keptAfter_append, Option.or_none]

theorem keptAfter_none_append_singleton (log : List Reading) (r : Reading) :
    keptAfter none (log ++ [r]) =
      if (keptAfter none log).getLast?.any (r.time ≤ ·.time) then keptAfter none log
      else keptAfter none log ++ [r] := by
  rw [keptAfter_none_append, keptAfter]
  split
  · rw [keptAfter, List.append_nil]
  · rfl

theorem keptAfter_sublist (last : Option Reading) (log : List Reading) :
    (keptAfter last log).Sublist log := by
  induction log generalizing last with
  | nil => exact List.nil_sublist _
  | cons r log ih =>
    rw [keptAfter]
    split
    · exact (ih last).cons r
    · exact (ih (some r)).cons_cons r

theorem keptAfter_none_eq_nil_iff {log : List Reading} : keptAfter none log = [] ↔ log = [] := by
  cases log with
  | nil => exact iff_of_true rfl rfl
  | cons r log => simp [keptAfter]

theorem isChain_keptAfter (last : Option Reading) {log : List Reading}
    (hlast : ∀ r ∈ last, r.time.isNaN = false) (hlog : ∀ r ∈ log, r.time.isNaN = false) :
    (last.toList ++ keptAfter last log).IsChain (·.time < ·.time) := by
  induction log generalizing last with
  | nil => cases last <;> simp [keptAfter]
  | cons r log ih =>
    have hr := hlog r List.mem_cons_self
    have hrest : ∀ r ∈ log, r.time.isNaN = false := fun r' h => hlog r' (List.mem_cons_of_mem _ h)
    rw [keptAfter]
    split
    next => exact ih last hlast hrest
    next hnewer =>
      -- The rest of the chain hangs on the reading just kept.
      have htail : (r :: keptAfter (some r) log).IsChain (·.time < ·.time) :=
        ih (some r) (by simpa using hr) hrest
      cases last with
      | none => exact htail
      | some l =>
        have hlt : l.time < r.time :=
          float_lt_of_not_le hr (hlast l rfl) (by simpa using hnewer)
        exact .cons_cons hlt htail

theorem pairwise_time_keptAfter_none {log : List Reading}
    (hlog : ∀ r ∈ log, r.time.isNaN = false) :
    ((keptAfter none log).map (·.time)).Pairwise (· < ·) := by
  have hchain := isChain_keptAfter none (by simp) hlog
  exact List.IsChain.pairwise ((List.isChain_map Reading.time).2 hchain)

/-! ## Logs -/

section

variable {κ : Type} [DecidableEq κ]

def readingsOf (key : κ) (seen : List (κ × Reading)) : List Reading :=
  seen.filterMap fun (key', r) => if key' = key then some r else none

/-- The keys of the last snapshot. -/
def lastKeys (rounds : List (List (κ × Reading))) : List κ :=
  (rounds.getLast?.getD []).map Prod.fst

def allKeys (rounds : List (List (κ × Reading))) : List κ := rounds.flatten.map Prod.fst

/-- The snapshots since the last one that has nothing under a key. -/
def sinceAbsence (key : κ) (rounds : List (List (κ × Reading))) : List (List (κ × Reading)) :=
  rounds.rtakeWhile fun seen => key ∈ seen.map Prod.fst

/-- The log of a key: all readings under it since the last snapshot that has none. -/
def logOf (key : κ) (rounds : List (List (κ × Reading))) : List Reading :=
  (sinceAbsence key rounds).flatMap (readingsOf key)

/-- The readings that are kept of the log of a key. -/
def keptOf (key : κ) (rounds : List (List (κ × Reading))) : List Reading :=
  keptAfter none (logOf key rounds)

theorem readingsOf_cons (key key' : κ) (r : Reading) (seen : List (κ × Reading)) :
    readingsOf key ((key', r) :: seen) = readingsOf key [(key', r)] ++ readingsOf key seen := by
  simp only [readingsOf, ← List.filterMap_append]
  rfl

theorem readingsOf_singleton (key key' : κ) (r : Reading) :
    readingsOf key [(key', r)] = if key' = key then [r] else [] := by
  simp only [readingsOf, List.filterMap_cons, List.filterMap_nil]
  split <;> simp_all

theorem mem_readingsOf {key : κ} {r : Reading} {seen : List (κ × Reading)} :
    r ∈ readingsOf key seen ↔ (key, r) ∈ seen := by
  simp [readingsOf]

theorem readingsOf_eq_nil_iff {key : κ} {seen : List (κ × Reading)} :
    readingsOf key seen = [] ↔ key ∉ seen.map Prod.fst := by
  simp [List.eq_nil_iff_forall_not_mem, mem_readingsOf]

theorem logOf_append_singleton (key : κ) (rounds : List (List (κ × Reading)))
    (seen : List (κ × Reading)) :
    logOf key (rounds ++ [seen]) =
      if key ∈ seen.map Prod.fst then logOf key rounds ++ readingsOf key seen else [] := by
  rw [logOf, sinceAbsence, List.rtakeWhile_concat]
  by_cases hkey : key ∈ seen.map Prod.fst
  · rw [if_pos (by simpa using hkey), if_pos hkey, List.flatMap_append, List.flatMap_singleton]
    rfl
  · rw [if_neg (by simpa using hkey), if_neg hkey, List.flatMap_nil]

theorem logOf_ne_nil_iff (key : κ) (rounds : List (List (κ × Reading))) :
    logOf key rounds ≠ [] ↔ key ∈ lastKeys rounds := by
  cases rounds using List.reverseRecOn with
  | nil => simp [logOf, sinceAbsence, lastKeys]
  | append_singleton rounds seen =>
    rw [logOf_append_singleton, lastKeys, List.getLast?_concat, Option.getD_some]
    by_cases hkey : key ∈ seen.map Prod.fst
    · have hseen := mt readingsOf_eq_nil_iff.1 (not_not_intro hkey)
      rw [if_pos hkey]
      exact iff_of_true (List.append_ne_nil_of_right_ne_nil _ hseen) hkey
    · rw [if_neg hkey]
      exact iff_of_false (not_not_intro rfl) hkey

theorem keptOf_ne_nil_iff (key : κ) (rounds : List (List (κ × Reading))) :
    keptOf key rounds ≠ [] ↔ key ∈ lastKeys rounds := by
  rw [keptOf, Ne, keptAfter_none_eq_nil_iff]
  exact logOf_ne_nil_iff key rounds

theorem keptOf_append_singleton {key : κ} {seen : List (κ × Reading)}
    (hkey : key ∈ seen.map Prod.fst) (rounds : List (List (κ × Reading))) :
    keptOf key (rounds ++ [seen]) =
      keptOf key rounds ++ keptAfter (keptOf key rounds).getLast? (readingsOf key seen) := by
  rw [keptOf, logOf_append_singleton, if_pos hkey, keptAfter_none_append]
  rfl

omit [DecidableEq κ] in
theorem lastKeys_subset_allKeys (rounds : List (List (κ × Reading))) :
    lastKeys rounds ⊆ allKeys rounds := by
  cases rounds using List.reverseRecOn with
  | nil => exact List.nil_subset _
  | append_singleton rounds seen =>
    rw [lastKeys, allKeys, List.getLast?_concat, Option.getD_some, List.flatten_append,
      List.flatten_singleton, List.map_append]
    exact List.subset_append_right _ _

/-- Keys may be renamed if no other key of the snapshots gets the new name of a key: the log of the
key stays the same. -/
theorem logOf_map {κ' : Type} [DecidableEq κ'] (rename : κ → κ') {key : κ}
    {rounds : List (List (κ × Reading))}
    (halone : ∀ key' ∈ allKeys rounds, rename key' = rename key → key' = key) :
    logOf (rename key) (rounds.map (List.map fun entry => (rename entry.1, entry.2))) =
      logOf key rounds := by
  induction rounds using List.reverseRecOn with
  | nil => rfl
  | append_singleton rounds seen ih =>
    simp only [allKeys, List.flatten_append, List.flatten_singleton, List.map_append,
      List.forall_mem_append, List.forall_mem_map] at halone ih
    have hseen : ∀ entry ∈ seen, rename entry.1 = rename key ↔ entry.1 = key :=
      fun entry hentry => ⟨halone.2 entry hentry, congrArg rename⟩
    have hkeys : rename key ∈ (seen.map fun entry => (rename entry.1, entry.2)).map Prod.fst ↔
        key ∈ seen.map Prod.fst := by
      simp only [List.map_map, List.mem_map, Function.comp_apply]
      exact exists_congr fun entry => and_congr_right (hseen entry)
    have hreadings : readingsOf (rename key) (seen.map fun entry => (rename entry.1, entry.2)) =
        readingsOf key seen := by
      rw [readingsOf, List.filterMap_map]
      refine List.filterMap_congr fun entry hentry => ?_
      simp only [Function.comp_apply, hseen entry hentry]
    rw [List.map_append, List.map_singleton, logOf_append_singleton, logOf_append_singleton,
      hreadings, ih halone.1]
    simp only [hkeys]

theorem mem_rounds_of_mem_logOf {key : κ} {rounds : List (List (κ × Reading))} {r : Reading}
    (hr : r ∈ logOf key rounds) : ∃ seen ∈ rounds, (key, r) ∈ seen := by
  obtain ⟨seen, hseen, hr⟩ := List.mem_flatMap.1 hr
  exact ⟨seen, (List.rtakeWhile_suffix _ _).subset hseen, mem_readingsOf.1 hr⟩

end

end PoolWatch
