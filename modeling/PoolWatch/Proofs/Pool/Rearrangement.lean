import Mathlib.Algebra.Order.Group.Nat
import Mathlib.Data.List.Lex
import PoolWatch.Pool.Arrange
/-!
# Stable rearrangements

A stable rearrangement has the elements of a list in another order, and those of one class in the
same order as before.  Sorting by a key is stable for the classes of equal keys.  Taking some
elements to the front is stable for finer classes, which tell these from the others.

Texts are in the order of their code points.
-/

namespace PoolWatch

/-- The elements of `xs` in another order, those of one class in the same one. -/
structure Rearranges {α κ : Type} [DecidableEq κ] (classOf : α → κ) (ys xs : List α) : Prop where
  perm : ys.Perm xs
  stable : ∀ k, ys.filter (classOf · = k) = xs.filter (classOf · = k)

namespace Rearranges

variable {α κ ι : Type} [DecidableEq κ] [DecidableEq ι] {classOf : α → κ} {xs ys zs : List α}

theorem trans (hyz : Rearranges classOf zs ys) (hxy : Rearranges classOf ys xs) :
    Rearranges classOf zs xs :=
  ⟨hyz.perm.trans hxy.perm, fun k => (hyz.stable k).trans (hxy.stable k)⟩

theorem refine (h : Rearranges classOf ys xs) (fine : α → ι) (coarse : ι → κ)
    (hcoarse : ∀ a, coarse (fine a) = classOf a) : Rearranges fine ys xs := by
  refine ⟨h.perm, fun k => ?_⟩
  have hnarrow : ∀ l : List α,
      l.filter (fine · = k) = (l.filter (classOf · = coarse k)).filter (fine · = k) := by
    intro l
    rw [List.filter_filter]
    apply List.filter_congr
    intro a _
    by_cases ha : fine a = k
    · simp [ha, ← hcoarse]
    · simp [ha]
  rw [hnarrow ys, hnarrow xs, h.stable]

theorem mergeSort {le : α → α → Bool} (htrans : ∀ a b c, le a b → le b c → le a c)
    (htotal : ∀ a b, le a b || le b a) (hclass : ∀ a b, classOf a = classOf b → le a b)
    (xs : List α) : Rearranges classOf (xs.mergeSort le) xs := by
  refine ⟨List.mergeSort_perm xs le, fun k => ?_⟩
  have hle : (xs.filter (classOf · = k)).Pairwise (le · ·) := by
    apply List.pairwise_of_forall_mem_list
    intro a ha b hb
    simp only [List.mem_filter, decide_eq_true_eq] at ha hb
    exact hclass a b (ha.2.trans hb.2.symm)
  -- the class is in order already, so that sorting leaves it as it is
  have hsub : (xs.filter (classOf · = k)).Sublist (xs.mergeSort le) :=
    List.sublist_mergeSort htrans htotal hle List.filter_sublist
  have hfilter := hsub.filter (classOf · = k)
  rw [List.filter_filter] at hfilter
  simp only [Bool.and_self] at hfilter
  exact (hfilter.eq_of_length ((List.mergeSort_perm xs le).filter _).length_eq.symm).symm

theorem filter_class_and {p : α → Bool} {k : κ} {b : Bool} (hp : ∀ a, classOf a = k → p a = b)
    (xs : List α) : xs.filter (fun a => decide (classOf a = k) && p a) =
      if b then xs.filter (classOf · = k) else [] := by
  have hcongr : xs.filter (fun a => decide (classOf a = k) && p a) =
      xs.filter fun a => decide (classOf a = k) && b := by
    apply List.filter_congr
    intro a _
    by_cases ha : classOf a = k
    · rw [hp a ha]
    · simp [ha]
  rw [hcongr]
  cases b <;> simp

theorem filter_append_filter (p : α → Bool) (coarse : κ → Bool)
    (hcoarse : ∀ a, coarse (classOf a) = p a) (xs : List α) :
    Rearranges classOf (xs.filter p ++ xs.filter (!p ·)) xs := by
  refine ⟨List.filter_append_perm p xs, fun k => ?_⟩
  have hp : ∀ a, classOf a = k → p a = coarse k := fun a ha => by rw [← hcoarse a, ha]
  have hnot : ∀ a, classOf a = k → (!p a) = !coarse k := fun a ha => by rw [hp a ha]
  rw [List.filter_append, List.filter_filter, List.filter_filter, filter_class_and hp,
    filter_class_and hnot]
  cases coarse k <;> simp

end Rearranges

/-! ## The order of texts -/

def codePoints (s : String) : List Nat := s.toList.map Char.toNat

theorem map_toNat_lt_iff (a b : List Char) : a.map Char.toNat < b.map Char.toNat ↔ a < b := by
  induction a generalizing b with
  | nil => cases b <;> simp
  | cons c cs ih =>
    cases b with
    | nil => simp
    | cons d ds =>
      rw [List.map_cons, List.map_cons, List.cons_lt_cons_iff, List.cons_lt_cons_iff, ih,
        Char.toNat_inj]
      rfl

theorem le_iff_codePoints_le (a b : String) : a ≤ b ↔ codePoints a ≤ codePoints b := by
  rw [← String.not_lt, ← not_lt, String.lt_iff]
  exact not_congr (map_toNat_lt_iff b.toList a.toList).symm

end PoolWatch
