import PoolWatch.Proofs.Numeric.FloatSum
/-!
# Floats that are the same number

Two floats are the same number if neither is less than the other.  Then they have the same bits, or
they are the two zeros.  Which zero a float is cannot be told from a difference that is positive.
-/

namespace PoolWatch

open Float.Model (UnpackedFloat)
open Float.Model.Format (binary64)
open Float.Model.UnpackedFloat

/-! ## Equal but for the sign of a zero -/

section

variable {f : Float.Model.Format} {u u' v v' : UnpackedFloat}

def Alike (u u' : UnpackedFloat) : Prop := u = u' ∨ ∃ s t, u = .zero s ∧ u' = .zero t

theorem alike_of_place_eq (hu : u.isNaN = false) (hu' : u'.isNaN = false)
    (h : place u = place u') : Alike u u' := by
  cases u with
  | notANumber => cases hu
  | zero s =>
    cases u' with
    | notANumber => cases hu'
    | zero t => exact .inr ⟨s, t, rfl, rfl⟩
    | infinity t => cases t <;> cases h
    | finite t m e hm => cases t <;> cases h
  | infinity s =>
    cases u' with
    | notANumber => cases hu'
    | zero t => cases s <;> cases h
    | infinity t => cases s <;> cases t <;> first | exact .inl rfl | cases h
    | finite t m e hm => cases s <;> cases t <;> cases h
  | finite s m e hm =>
    cases u' with
    | notANumber => cases hu'
    | zero t => cases s <;> cases h
    | infinity t => cases s <;> cases t <;> cases h
    | finite t n k hn =>
      obtain ⟨rfl, rfl, rfl⟩ := place_finite_inj h
      exact .inl rfl

theorem alike_sub (hu : Alike u u') (hv : Alike v v') : Alike (sub f u v) (sub f u' v') := by
  have hzeros (s s' t t' : Sign) :
      Alike (sub f (.zero s) (.zero t)) (sub f (.zero s') (.zero t')) := by
    cases s <;> cases s' <;> cases t <;> cases t' <;> exact .inr ⟨_, _, rfl, rfl⟩
  obtain rfl | ⟨s, s', rfl, rfl⟩ := hu
  · obtain rfl | ⟨t, t', rfl, rfl⟩ := hv
    · exact .inl rfl
    · cases u with
      | zero s => exact hzeros s s t t'
      | _ => exact .inl rfl
  · obtain rfl | ⟨t, t', rfl, rfl⟩ := hv
    · cases v with
      | zero t => exact hzeros s s' t t
      | _ => exact .inl rfl
    · exact hzeros s s' t t'

end

/-! ## Numbers -/

/-- The floats are numbers, and neither is less than the other. -/
def SameNumber (a b : Float) : Prop := a ≤ b ∧ b ≤ a

section

variable {a a' b b' : Float}

theorem SameNumber.alike (h : SameNumber a a') : Alike a.toModel.unpack a'.toModel.unpack := by
  obtain ⟨ha, ha', hle⟩ := float_le_iff.1 h.1
  obtain ⟨-, -, hge⟩ := float_le_iff.1 h.2
  exact alike_of_place_eq ha ha' (hle.antisymm hge)

theorem SameNumber.sub_eq_or (ha : SameNumber a a') (hb : SameNumber b b') :
    a - b = a' - b' ∨ ¬0 < a - b ∧ ¬0 < a' - b' := by
  have hzero {x y : Float} {s : Sign}
      (h : sub binary64 x.toModel.unpack y.toModel.unpack = .zero s) : ¬0 < x - y := by
    have hunpack : (x - y).toModel.unpack = .zero s :=
      (congrArg (unpack binary64 ∘ pack binary64) h).trans (unpack_pack_zero s)
    intro hlt
    have hplace := (float_lt_iff.1 hlt).2.2
    rw [hunpack] at hplace
    exact absurd hplace (lt_irrefl _)
  obtain hsame | ⟨s, t, hs, ht⟩ := alike_sub (f := binary64) ha.alike hb.alike
  · exact .inl (congrArg (fun u => Float.ofModel (Float.Model.pack u)) hsame)
  · exact .inr ⟨hzero hs, hzero ht⟩

end

end PoolWatch
