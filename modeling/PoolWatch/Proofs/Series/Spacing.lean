import PoolWatch.Proofs.Numeric.FloatDivision
import PoolWatch.Proofs.Series.Grid
/-!
# Steps between whole times

Floats that stand at whole numbers are subtracted and divided without loss, as long as the result
is a whole number of at most 53 places.  So the mean spacing of points that stand at whole times, a
common distance apart, is this distance; and the offset that is counted for them from an origin on
the same grid is the number of steps between the two.
-/

namespace PoolWatch

open Float.Model.Format (binary64)
open Float.Model.UnpackedFloat
open PoolWatch.Numeric

/-! ## Whole numbers -/

section

variable {x y : Float} {m n : Int}

theorem standsAt_iff_value :
    StandsAt x n ↔ x.isFinite = true ∧ value x.toModel.unpack = n := by
  unfold StandsAt
  rw [parts_eq]
  by_cases hx : x.isFinite = true
  · have hu := isOfFormat_of_isFinite hx
    rw [whole?_eq hu, whole?_eq hu, Option.some.injEq, Option.some.injEq, and_iff_right hx]
    constructor
    · rintro ⟨hdown, hup⟩
      exact le_antisymm (Int.ceil_le.1 hup.le) (Int.le_floor.1 hdown.ge)
    · intro hvalue
      rw [hvalue]
      exact ⟨toWhole_intCast .down n, toWhole_intCast .up n⟩
  · have hnone : (partsOf binary64 x.toModel.unpack).whole? .down = none := by
      change ¬x.toModel.unpack.isFinite = true at hx
      cases hu : x.toModel.unpack with
      | infinity s => rfl
      | notANumber => rfl
      | _ => rw [hu] at hx; exact absurd rfl hx
    rw [hnone]
    exact iff_of_false (fun h => nomatch h.1) fun h => hx h.1

theorem standsAt_le_iff (hx : StandsAt x m) (hy : StandsAt y n) : x ≤ y ↔ m ≤ n := by
  obtain ⟨hfinite, hvalue⟩ := standsAt_iff_value.1 hx
  obtain ⟨hfinite', hvalue'⟩ := standsAt_iff_value.1 hy
  have hu := isOfFormat_of_isFinite hfinite
  have hv := isOfFormat_of_isFinite hfinite'
  rw [float_le_iff, place_le_place_iff hu hv, hvalue, hvalue', Int.cast_le]
  exact and_iff_right hu.isNaN |>.trans (and_iff_right hv.isNaN)

theorem StandsAt.of_sameNumber (hy : StandsAt y n) (h : SameNumber x y) : StandsAt x n := by
  obtain ⟨hfinite, hvalue⟩ := standsAt_iff_value.1 hy
  change y.toModel.unpack.isFinite = true at hfinite
  rw [standsAt_iff_value]
  change x.toModel.unpack.isFinite = true ∧ _
  obtain heq | ⟨s, t, hs, ht⟩ := h.alike
  · rw [heq]
    exact ⟨hfinite, hvalue⟩
  · rw [hs]
    rw [ht] at hvalue
    exact ⟨rfl, hvalue⟩

theorem standsAt_of_isRounding (h : IsRounding binary64 n x.toModel.unpack)
    (hn : n.natAbs < 2 ^ 53) : StandsAt x n := by
  obtain ⟨v, hv, hvalue⟩ := exists_value_eq_intCast hn
  obtain ⟨hu, heq⟩ := (hvalue ▸ h).eq_value hv
  exact standsAt_iff_value.2 ⟨hu.isFinite, heq.trans hvalue⟩

theorem StandsAt.sub (hx : StandsAt x m) (hy : StandsAt y n) (hlt : (m - n).natAbs < 2 ^ 53) :
    StandsAt (x - y) (m - n) := by
  obtain ⟨hfinite, hvalue⟩ := standsAt_iff_value.1 hx
  obtain ⟨hfinite', hvalue'⟩ := standsAt_iff_value.1 hy
  have hround : IsRounding binary64 _ (x - y).toModel.unpack :=
    isRounding_sub (isOfFormat_of_isFinite hfinite) (isOfFormat_of_isFinite hfinite')
  rw [hvalue, hvalue', ← Int.cast_sub] at hround
  exact standsAt_of_isRounding hround hlt

theorem StandsAt.div (hx : StandsAt x (m * n)) (hy : StandsAt y n) (hn : n ≠ 0)
    (hlt : m.natAbs < 2 ^ 53) : StandsAt (x / y) m := by
  obtain ⟨hfinite, hvalue⟩ := standsAt_iff_value.1 hx
  obtain ⟨hfinite', hvalue'⟩ := standsAt_iff_value.1 hy
  have hne : (n : Rat) ≠ 0 := Int.cast_ne_zero.2 hn
  have hround : IsRounding binary64 _ (x / y).toModel.unpack :=
    isRounding_div (isOfFormat_of_isFinite hfinite) (isOfFormat_of_isFinite hfinite')
      (hvalue' ▸ hne)
  rw [hvalue, hvalue', Int.cast_mul, mul_div_cancel_right₀ _ hne] at hround
  exact standsAt_of_isRounding hround hlt

theorem standsAt_ofNat {n : Nat} (hlt : n < 2 ^ 53) : StandsAt (Float.ofNat n) n :=
  standsAt_iff_value.2 ⟨(isOfFormat_ofNat hlt).isFinite,
    (value_ofNat hlt).trans (Int.cast_natCast n).symm⟩

theorem StandsAt.toUnsigned {n : Nat} (hx : StandsAt x n) (hn : n ≤ unsignedMax) :
    (parts x).toUnsigned .nearest = n := by
  obtain ⟨hfinite, hvalue⟩ := standsAt_iff_value.1 hx
  rw [parts_eq, toUnsigned_eq (isOfFormat_of_isFinite hfinite), hvalue, toWhole_intCast,
    Int.toNat_natCast]
  exact Nat.min_eq_left hn

end

/-! ## Steps -/

namespace Series

/-- The points stand at whole numbers of at most 52 places, the first one at the start and every
other one a distance after the one before it. -/
def PacedFrom (start : Int) (distance : Nat) (s : Series) : Prop :=
  ∀ q ∈ s.points.zipIdx,
    StandsAt q.1.x (start + distance * q.2) ∧ (start + distance * q.2).natAbs < 2 ^ 52

instance (start : Int) (distance : Nat) (s : Series) : Decidable (s.PacedFrom start distance) :=
  inferInstanceAs (Decidable (∀ q ∈ s.points.zipIdx, _))

variable {s : Series} {start least : Int} {distance steps : Nat}

theorem PacedFrom.standsAt (h : s.PacedFrom start distance) {i : Nat} {p : Point}
    (hp : s.points[i]? = some p) :
    StandsAt p.x (start + distance * i) ∧ (start + distance * i).natAbs < 2 ^ 52 :=
  h (p, i) (List.mk_mem_zipIdx_iff_getElem?.2 hp)

theorem PacedFrom.length_lt (h : s.PacedFrom start distance) (hdistance : 1 ≤ distance) :
    s.points.length < 2 ^ 53 := by
  obtain hnone | hsome := Nat.eq_zero_or_pos s.points.length
  · rw [hnone]
    exact Nat.two_pow_pos 53
  · have hfirst := (h.standsAt (List.getElem?_eq_getElem hsome)).2
    have hlast := (h.standsAt (List.getElem?_eq_getElem (Nat.sub_one_lt_of_lt hsome))).2
    have hextent : ((s.points.length - 1 : Nat) : Int) ≤
        distance * (s.points.length - 1 : Nat) := by
      exact_mod_cast Nat.le_mul_of_pos_left _ hdistance
    omega

theorem PacedFrom.spacing (h : s.PacedFrom start distance) (hlength : 2 ≤ s.points.length)
    (hdistance : 1 ≤ distance) {first last : Point} (hfirst : s.points[0]? = some first)
    (hlast : s.points[s.points.length - 1]? = some last) :
    ¬last.x ≤ first.x ∧
      StandsAt ((last.x - first.x) / Float.ofNat (s.points.length - 1)) distance := by
  obtain ⟨hstart, hsmall⟩ := h.standsAt hfirst
  obtain ⟨hstop, hsmall'⟩ := h.standsAt hlast
  have hshort := h.length_lt hdistance
  set gaps := s.points.length - 1 with hgaps
  have hgap : (1 : Int) ≤ gaps := by omega
  have hextent : (distance : Int) ≤ distance * gaps := le_mul_of_one_le_right (by omega) hgap
  have hdifference : start + distance * gaps - (start + distance * (0 : Nat)) =
      (distance : Int) * gaps := by
    push_cast
    ring
  have hwidth := hstop.sub hstart (by omega)
  rw [hdifference] at hwidth
  refine ⟨fun hle => ?_, hwidth.div (standsAt_ofNat (by omega)) (by omega) (by omega)⟩
  have hback := (standsAt_le_iff hstop hstart).1 hle
  omega

theorem stepsFrom_eq {origin : Float} (horigin : StandsAt origin least)
    (hleast : least.natAbs < 2 ^ 52) (hlength : 2 ≤ s.points.length) (hdistance : 1 ≤ distance)
    (h : s.PacedFrom (least + distance * steps) distance) : stepsFrom origin s.points = steps := by
  have hfirst := List.getElem?_eq_getElem (l := s.points) (i := 0) (by omega)
  have hlast := List.getElem?_eq_getElem (l := s.points) (i := s.points.length - 1) (by omega)
  set first := s.points[0]
  set last := s.points[s.points.length - 1]
  obtain ⟨hascending, hspacing⟩ := h.spacing hlength hdistance hfirst hlast
  obtain ⟨hstart, hsmall⟩ := h.standsAt hfirst
  have hcount : (steps : Int) ≤ distance * steps :=
    le_mul_of_one_le_left (by omega) (by exact_mod_cast hdistance)
  have hdifference : least + distance * steps + distance * (0 : Nat) - least =
      (steps : Int) * distance := by
    push_cast
    ring
  have hway := hstart.sub horigin (by omega)
  rw [hdifference] at hway
  have hsteps := hway.div hspacing (by omega) (by omega)
  unfold stepsFrom
  rw [List.head?_eq_getElem?, List.getLast?_eq_getElem?, hfirst, hlast]
  dsimp only
  rw [if_neg (not_or.2 ⟨Nat.not_lt.2 hlength, hascending⟩)]
  exact hsteps.toUnsigned (by unfold unsignedMax; omega)

end Series

end PoolWatch
