import PoolWatch.Numeric.Parts
/-!
# Sums that must fit 64 bits

Counts and instants are whole numbers of 64 bits. A sum that leaves their range stops the
computation instead of wrapping around.
-/

namespace PoolWatch.Numeric

inductive Overflow where
  | count
  /-- A signed number of milliseconds, years or months. -/
  | instant
  | places
  deriving DecidableEq, Repr

def checkCount (n : Nat) : Except Overflow Nat :=
  if n ≤ unsignedMax then .ok n else .error .count

def checkInstant (n : Int) : Except Overflow Int :=
  if signedMin ≤ n ∧ n ≤ signedMax then .ok n else .error .instant

theorem checkCount_eq_ok {n m : Nat} : checkCount n = .ok m ↔ n = m ∧ n ≤ unsignedMax := by
  unfold checkCount
  split
  · simp_all
  · simp only [reduceCtorEq, false_iff, not_and]
    omega

theorem checkInstant_eq_ok {n m : Int} :
    checkInstant n = .ok m ↔ n = m ∧ signedMin ≤ n ∧ n ≤ signedMax := by
  unfold checkInstant
  split
  · simp_all
  · simp only [reduceCtorEq, false_iff, not_and]
    omega

/-! ## Computations that can stop -/

section

variable {ε α β : Type} {x : Except ε α}

theorem map_eq_ok_iff {f : α → β} {b : β} : x.map f = .ok b ↔ ∃ a, x = .ok a ∧ f a = b := by
  cases x with
  | error e => simp [Except.map]
  | ok a => simp [Except.map]

theorem bind_eq_ok_iff {f : α → Except ε β} {b : β} :
    x >>= f = .ok b ↔ ∃ a, x = .ok a ∧ f a = .ok b := by
  cases x with
  | error e => simp [bind, Except.bind]
  | ok a => simp [bind, Except.bind]

theorem exists_mapM {f : α → Except ε β} {xs : List α} (h : ∀ x ∈ xs, ∃ y, f x = .ok y) :
    ∃ ys, xs.mapM f = .ok ys := by
  induction xs with
  | nil => exact ⟨[], rfl⟩
  | cons x xs ih =>
    obtain ⟨⟨y, hy⟩, hxs⟩ := List.forall_mem_cons.1 h
    obtain ⟨ys, hys⟩ := ih hxs
    exact ⟨y :: ys, by rw [List.mapM_cons, hy, hys]; rfl⟩

theorem exists_of_mem_mapM {f : α → Except ε β} {xs : List α} {ys : List β}
    (h : xs.mapM f = .ok ys) {y : β} (hy : y ∈ ys) : ∃ x ∈ xs, f x = .ok y := by
  induction xs generalizing ys with
  | nil =>
    cases h
    cases hy
  | cons x xs ih =>
    rw [List.mapM_cons, bind_eq_ok_iff] at h
    obtain ⟨z, hz, h⟩ := h
    obtain ⟨zs, hzs, h⟩ := bind_eq_ok_iff.1 h
    cases h
    cases hy with
    | head => exact ⟨x, List.mem_cons_self, hz⟩
    | tail _ hy =>
      obtain ⟨w, hw, hfw⟩ := ih hzs hy
      exact ⟨w, List.mem_cons_of_mem x hw, hfw⟩

end

end PoolWatch.Numeric
