import Mathlib.Data.List.Nodup
import PoolWatch.Proofs.History.Recording
/-!
# The order of readings

Taking up a reading looks at the samples under its key and changes nothing else, so readings of
different keys can be taken up in either order.  A snapshot in which every key occurs once can
therefore be recorded in any order: as many samples are added, and the same history is left.
-/

namespace PoolWatch.History

/-! ## Two readings -/

section

variable (h : History) {key key' : String} (kept? kept'? : Option (List Sample))

/-- The samples under a key once a reading has been taken up, if that changes them. -/
def renewed? (key : String) (r : Reading) : Option (List Sample) :=
  appendSample? h.capacity (h.kept key) r

/-- The history with other samples under a key, if there are any. -/
def renew (key : String) : Option (List Sample) → History
  | none => h
  | some kept => { h with samples := h.samples.insert key kept }

theorem observe_eq_renew (r : Reading) :
    h.observe key r = ((h.renewed? key r).toList.length, h.renew key (h.renewed? key r)) := by
  unfold observe renewed?
  split
  next heq => rw [heq]; rfl
  next heq => rw [heq]; rfl

theorem renewed?_renew_of_ne (hne : key ≠ key') (r : Reading) :
    (h.renew key kept?).renewed? key' r = h.renewed? key' r := by
  cases kept? with
  | none => rfl
  | some kept => simp [renewed?, renew, History.kept, Std.ExtTreeMap.getElem?_insert, hne]

theorem renew_comm (hne : key ≠ key') :
    (h.renew key kept?).renew key' kept'? = (h.renew key' kept'?).renew key kept? := by
  cases kept? with
  | none => rfl
  | some kept =>
    cases kept'? with
    | none => rfl
    | some kept' =>
      have hsamples : (h.samples.insert key kept).insert key' kept' =
          (h.samples.insert key' kept').insert key kept := by
        apply Std.ExtTreeMap.ext_getElem?
        intro k
        simp only [Std.ExtTreeMap.getElem?_insert, Std.LawfulEqCmp.compare_eq_iff_eq]
        split <;> split <;> simp_all
      simp only [renew, hsamples]

end

/-! ## Snapshots -/

/-- Takes up one more reading and counts what it adds. -/
def tally (sum : Nat × History) (entry : String × Reading) : Nat × History :=
  (sum.1 + (sum.2.observe entry.1 entry.2).1, (sum.2.observe entry.1 entry.2).2)

theorem foldl_tally (n : Nat) (h : History) (seen : List (String × Reading)) :
    seen.foldl tally (n, h) = (n + (h.observeAll seen).1, (h.observeAll seen).2) := by
  induction seen generalizing n h with
  | nil => rfl
  | cons entry rest ih =>
    rw [List.foldl_cons, tally, ih, Nat.add_assoc]
    rfl

theorem tally_comm {entry entry' : String × Reading} (hne : entry.1 ≠ entry'.1)
    (sum : Nat × History) : tally (tally sum entry) entry' = tally (tally sum entry') entry := by
  unfold tally
  simp only [observe_eq_renew, renewed?_renew_of_ne _ _ hne, renewed?_renew_of_ne _ _ hne.symm,
    renew_comm _ _ _ hne, Nat.add_right_comm]

variable {seen seen' : List (String × Reading)}

theorem observeAll_eq_of_perm (hperm : seen.Perm seen') (hkeys : (seen.map Prod.fst).Nodup)
    (h : History) : h.observeAll seen = h.observeAll seen' := by
  have hcomm : ∀ entry ∈ seen, ∀ entry' ∈ seen, ∀ sum,
      tally (tally sum entry) entry' = tally (tally sum entry') entry := by
    intro entry hentry entry' hentry' sum
    by_cases heq : entry = entry'
    · rw [heq]
    · exact tally_comm (fun hkey => heq (List.inj_on_of_nodup_map hkeys hentry hentry' hkey)) sum
  have hfold := hperm.foldl_eq' hcomm (0, h)
  rw [foldl_tally, foldl_tally, Nat.zero_add, Nat.zero_add] at hfold
  exact hfold

/-- A snapshot can be recorded in any order, if every key occurs in it once. -/
theorem record_eq_of_perm {groups groups' : List Group}
    (hperm : (observations groups).Perm (observations groups'))
    (hkeys : ((observations groups).map Prod.fst).Nodup) (h : History) :
    h.record groups = h.record groups' := by
  have hretain : ∀ h : History, h.retain ((observations groups).map Prod.fst) =
      h.retain ((observations groups').map Prod.fst) := by
    intro h
    simp only [retain, (hperm.map Prod.fst).contains_eq]
  simp only [record, observeAll_eq_of_perm hperm hkeys, hretain]

def recordEach (h : History) : List (List Group) → List (Nat × History)
  | [] => []
  | groups :: rest => h.record groups :: (h.record groups).2.recordEach rest

theorem recordEach_eq {snapshots snapshots' : List (List Group)}
    (hagree : List.Forall₂ (fun groups groups' => ∀ h : History, h.record groups = h.record groups')
      snapshots snapshots') (h : History) :
    h.recordEach snapshots = h.recordEach snapshots' := by
  induction hagree generalizing h with
  | nil => rfl
  | cons hgroups _ ih => rw [recordEach, recordEach, hgroups h, ih]

theorem recordAll_eq_getLastD (capacity : Nat) (snapshots : List (List Group)) :
    recordAll capacity snapshots =
      (((empty capacity).recordEach snapshots).map Prod.snd).getLastD (empty capacity) := by
  unfold recordAll
  generalize empty capacity = h
  induction snapshots generalizing h with
  | nil => rfl
  | cons groups rest ih => rw [List.foldl_cons, ih, recordEach, List.map_cons, List.getLastD_cons]

end PoolWatch.History
