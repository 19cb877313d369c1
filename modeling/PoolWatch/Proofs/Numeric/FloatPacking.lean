import Mathlib.Tactic.Ring
import PoolWatch.Numeric.Parts
import PoolWatch.Proofs.Numeric.FloatOrder
/-!
# Packed floats

A finite float is kept with all the bits of its mantissa, unless its exponent is the least one of
the format.  Packing such a float and unpacking it gives it back, as long as its exponent is not
too large, and taking the bits apart gives its mantissa and its exponent.
-/

namespace PoolWatch

open Float.Model (UnpackedFloat)
open Float.Model.Format (mantissaBits minExponent exponentBias)
open Float.Model.UnpackedFloat
open PoolWatch.Numeric

variable {f : Float.Model.Format}

/-! ## The fields of the bits -/

theorem mantissaBits_eq (f : Float.Model.Format) :
    f.mantissaBits = 1 + f.mantissaBitsWithoutImplicit :=
  rfl

theorem minExponent_eq (f : Float.Model.Format) :
    f.minExponent = 1 - (f.exponentBias : Int) - f.mantissaBitsWithoutImplicit := by
  have hpow : 1 ≤ 2 ^ (f.exponentBits - 1) := Nat.one_le_two_pow
  simp only [minExponent, mantissaBits_eq, exponentBias, Nat.cast_sub hpow]
  push_cast
  ring

theorem two_pow_exponentBits (f : Float.Model.Format) :
    2 ^ f.exponentBits = 2 * f.exponentBias + 2 := by
  have hpow : 1 ≤ 2 ^ (f.exponentBits - 1) := Nat.one_le_two_pow
  have hbits : f.exponentBits = f.exponentBits - 1 + 1 := (Nat.sub_add_cancel f.he).symm
  rw [hbits, Nat.pow_succ, exponentBias]
  omega

theorem toNat_unpackMantissa (bits : BitVec f.numBits) :
    (unpackMantissa bits).toNat = bits.toNat % 2 ^ f.mantissaBitsWithoutImplicit := by
  have hpos := f.hm
  simp only [unpackMantissa, BitVec.toNat_cast, BitVec.extractLsb_toNat, Nat.shiftRight_zero]
  congr 2
  omega

theorem toNat_unpackExponent (bits : BitVec f.numBits) :
    (unpackExponent bits).toNat =
      bits.toNat / 2 ^ f.mantissaBitsWithoutImplicit % 2 ^ f.exponentBits := by
  have hpos := f.he
  simp only [unpackExponent, BitVec.toNat_cast, BitVec.extractLsb_toNat,
    Nat.shiftRight_eq_div_pow]
  congr 2
  omega

theorem toNat_unpackSign (bits : BitVec f.numBits) :
    (unpackSign bits).toNat =
      bits.toNat / 2 ^ f.mantissaBitsWithoutImplicit / 2 ^ f.exponentBits % 2 := by
  have hsign : (unpackSign bits).toNat =
      (bits.toNat >>> (f.mantissaBitsWithoutImplicit + f.exponentBits)) % 2 ^ _ :=
    BitVec.extractLsb_toNat ..
  rw [hsign, Nat.sub_self, Nat.zero_add, Nat.pow_one, Nat.shiftRight_eq_div_pow, Nat.pow_add,
    Nat.div_div_eq_div_mul]

theorem eq_zero_iff_toNat {w : Nat} (b : BitVec w) : b = 0#w ↔ b.toNat = 0 := by
  rw [← BitVec.toNat_inj, BitVec.toNat_zero]

theorem eq_neg_one_iff_toNat {w : Nat} (b : BitVec w) : b = -1#w ↔ b.toNat = 2 ^ w - 1 := by
  rw [BitVec.neg_one_eq_allOnes, ← BitVec.toNat_inj, BitVec.toNat_allOnes]

theorem toNat_one_append {w : Nat} (b : BitVec w) : (1#1 ++ b).toNat = 2 ^ w + b.toNat := by
  rw [BitVec.toNat_append, ← Nat.shiftLeft_add_eq_or_of_lt b.isLt, Nat.shiftLeft_eq,
    BitVec.toNat_ofNat, Nat.one_mod, Nat.one_mul]

/-! ## Unpacking -/

/-- What a sign and the two fields of the bits are unpacked to. -/
inductive Unpacks (f : Float.Model.Format) (s : Sign) (exponent mantissa : Nat) :
    UnpackedFloat → Prop
  | infinity (hlast : exponent = 2 ^ f.exponentBits - 1) (hnone : mantissa = 0) :
    Unpacks f s exponent mantissa (.infinity s)
  | notANumber (hlast : exponent = 2 ^ f.exponentBits - 1) (hsome : mantissa ≠ 0) :
    Unpacks f s exponent mantissa .notANumber
  | zero (hzero : exponent = 0) (hnone : mantissa = 0) : Unpacks f s exponent mantissa (.zero s)
  | subnormal {e : Int} (hzero : exponent = 0) (hm : 0 < mantissa) (he : e = f.minExponent) :
    Unpacks f s exponent mantissa (.finite s mantissa e hm)
  | normal {m : Nat} {e : Int} (hzero : exponent ≠ 0) (hlast : exponent ≠ 2 ^ f.exponentBits - 1)
    (hm : 0 < m) (hfull : m = 2 ^ f.mantissaBitsWithoutImplicit + mantissa)
    (he : e = exponent - 1 + f.minExponent) : Unpacks f s exponent mantissa (.finite s m e hm)

theorem unpacks_unpack (bits : BitVec f.numBits) :
    Unpacks f (Sign.ofBitVec (unpackSign bits)) (unpackExponent bits).toNat
      (unpackMantissa bits).toNat (unpack f bits) := by
  have hmin := minExponent_eq f
  have hmantissa := eq_zero_iff_toNat (unpackMantissa bits)
  have hexponent := eq_zero_iff_toNat (unpackExponent bits)
  by_cases hlast : unpackExponent bits = -1#_
  · have hfield := (eq_neg_one_iff_toNat _).1 hlast
    by_cases hnone : unpackMantissa bits = 0#_
    · have heq : unpack f bits = _ := (if_pos hlast).trans (if_pos hnone)
      rw [heq]
      exact .infinity hfield (hmantissa.1 hnone)
    · have heq : unpack f bits = _ := (if_pos hlast).trans (if_neg hnone)
      rw [heq]
      exact .notANumber hfield (hnone ∘ hmantissa.2)
  · have hfield := hlast ∘ (eq_neg_one_iff_toNat _).2
    by_cases hzero : unpackExponent bits = 0#_
    · have hleast := hexponent.1 hzero
      by_cases hnone : unpackMantissa bits = 0#_
      · have heq : unpack f bits = _ :=
          (if_neg hlast).trans ((if_pos hzero).trans (dif_pos hnone))
        rw [heq]
        exact .zero hleast (hmantissa.1 hnone)
      · have heq : unpack f bits = _ :=
          (if_neg hlast).trans ((if_pos hzero).trans (dif_neg hnone))
        rw [heq]
        exact .subnormal hleast _ (by omega)
    · have heq : unpack f bits = _ := (if_neg hlast).trans (if_neg hzero)
      rw [heq]
      exact .normal (hzero ∘ hexponent.2) hfield _ (toNat_one_append _) (by omega)

theorem Unpacks.unique {s : Sign} {exponent mantissa : Nat} {u v : UnpackedFloat}
    (hu : Unpacks f s exponent mantissa u) (hv : Unpacks f s exponent mantissa v) : u = v := by
  have hrange := two_pow_exponentBits f
  cases hu with
  | infinity hlast hnone => cases hv <;> first | rfl | omega
  | notANumber hlast hsome => cases hv <;> first | rfl | omega
  | zero hzero hnone => cases hv <;> first | rfl | omega
  | subnormal hzero hm he =>
    subst he
    cases hv with
    | subnormal hzero' hm' he' => rw [he']
    | _ => omega
  | normal hzero hlast hm hfull he =>
    subst hfull he
    cases hv with
    | normal hzero' hlast' hm' hfull' he' => subst hfull' he'; rfl
    | _ => omega

/-! ## Taking the bits apart -/

def isNegative : Sign → Bool
  | .negative => true
  | .positive => false

def partsOf (f : Float.Model.Format) : UnpackedFloat → Parts
  | .notANumber => .nan
  | .infinity s => .infinite (isNegative s)
  | .zero s => .finite (isNegative s) 0 f.minExponent
  | .finite s m e _ => .finite (isNegative s) m e

theorem isNegative_ofBitVec (b : BitVec 1) : isNegative (Sign.ofBitVec b) = (b.toNat == 1) := by
  obtain rfl | rfl := BitVec.eq_zero_or_eq_one b <;> rfl

theorem lastPlace_eq (f : Float.Model.Format) :
    (Format.mk f.mantissaBitsWithoutImplicit f.exponentBits).lastPlace = f.minExponent := by
  simp only [Format.lastPlace, minExponent, mantissaBits_eq, Nat.pow_eq]
  push_cast
  ring

theorem decode_toNat (bits : BitVec f.numBits) :
    (Format.mk f.mantissaBitsWithoutImplicit f.exponentBits).decode bits.toNat =
      partsOf f (unpack f bits) := by
  have hunpack := unpacks_unpack bits
  simp only [Format.decode, Format.hidden, Format.fieldCount, Nat.pow_eq, lastPlace_eq,
    ← toNat_unpackMantissa, ← toNat_unpackExponent, ← toNat_unpackSign, ← isNegative_ofBitVec]
  have hrange := two_pow_exponentBits f
  generalize unpack f bits = u at *
  cases hunpack with
  | infinity hlast hnone =>
    rw [if_pos hlast, if_pos hnone]
    rfl
  | notANumber hlast hsome =>
    rw [if_pos hlast, if_neg hsome]
    rfl
  | zero hzero hnone =>
    rw [if_neg (by omega), if_pos hzero, hnone]
    rfl
  | subnormal hzero hm he =>
    rw [if_neg (by omega), if_pos hzero, he]
    rfl
  | normal hzero hlast hm hfull he =>
    rw [if_neg hlast, if_neg hzero]
    subst hfull he
    refine congrArg (Parts.finite _ _) ?_
    omega

theorem parts_eq (x : Float) : parts x = partsOf .binary64 x.toModel.unpack :=
  decode_toNat (f := .binary64) x.toModel.toBits.toBitVec

/-! ## Canonical floats -/

/-- How a finite float is kept: with a full mantissa unless the exponent is the least one. -/
structure IsCanonical (f : Float.Model.Format) (m : Nat) (e : Int) : Prop where
  pos : 0 < m
  lt : m < 2 ^ f.mantissaBits
  le : f.minExponent ≤ e
  full : 2 ^ f.mantissaBitsWithoutImplicit ≤ m ∨ e = f.minExponent

def maxExponent (f : Float.Model.Format) : Int :=
  f.exponentBias - f.mantissaBitsWithoutImplicit

theorem two_pow_mantissaBits (f : Float.Model.Format) :
    2 ^ f.mantissaBits = 2 * 2 ^ f.mantissaBitsWithoutImplicit := by
  rw [mantissaBits_eq, Nat.pow_add, Nat.pow_one]

theorem isCanonical_of_unpack (hbias : 0 < f.exponentBias) {bits : BitVec f.numBits} {s : Sign}
    {m : Nat} {e : Int} {hm : 0 < m} (h : unpack f bits = .finite s m e hm) :
    IsCanonical f m e ∧ e ≤ maxExponent f := by
  have hmantissa := (unpackMantissa bits).isLt
  have hexponent := (unpackExponent bits).isLt
  have hmin := minExponent_eq f
  have hrange := two_pow_exponentBits f
  have hbits := two_pow_mantissaBits f
  have hunpack := unpacks_unpack bits
  rw [h] at hunpack
  cases hunpack with
  | subnormal hzero hm he =>
    exact ⟨⟨hm, by omega, by omega, .inr he⟩, by unfold maxExponent; omega⟩
  | normal hzero hlast hm hfull he =>
    exact ⟨⟨hm, by omega, by omega, .inl (by omega)⟩, by unfold maxExponent; omega⟩

/-! ## Packing -/

theorem sign_packComponents (s : Sign) (exponent : BitVec f.exponentBits)
    (mantissa : BitVec f.mantissaBitsWithoutImplicit) :
    Sign.ofBitVec (unpackSign (packComponents f s exponent mantissa)) = s := by
  have hsign : unpackSign (packComponents f s exponent mantissa) = s.toBitVec := by
    ext i hi
    obtain rfl := Nat.lt_one_iff.1 hi
    delta unpackSign
    simp [packComponents, BitVec.extractLsb, BitVec.getLsbD_append, BitVec.getElem_append]
  rw [hsign]
  cases s <;> rfl

theorem unpacks_packComponents (s : Sign) (exponent : BitVec f.exponentBits)
    (mantissa : BitVec f.mantissaBitsWithoutImplicit) :
    Unpacks f s exponent.toNat mantissa.toNat
      (unpack f (packComponents f s exponent mantissa)) := by
  have h := unpacks_unpack (packComponents f s exponent mantissa)
  rwa [sign_packComponents, unpackExponent_packComponents, unpackMantissa_packComponents] at h

theorem unpack_pack_infinity (s : Sign) :
    unpack f (pack f (.infinity s)) = .infinity s := by
  have hunpack := unpacks_packComponents (f := f) s (-1#_) 0#_
  exact hunpack.unique (.infinity ((eq_neg_one_iff_toNat _).1 rfl) BitVec.toNat_zero)

theorem unpack_pack_zero (s : Sign) : unpack f (pack f (.zero s)) = .zero s := by
  have hunpack := unpacks_packComponents (f := f) s 0#_ 0#_
  exact hunpack.unique (.zero BitVec.toNat_zero BitVec.toNat_zero)

theorem unpack_pack_notANumber : unpack f (pack f .notANumber) = .notANumber := by
  have hpos := f.hm
  have hlast : 2 ^ (f.mantissaBitsWithoutImplicit - 1) < 2 ^ f.mantissaBitsWithoutImplicit :=
    Nat.pow_lt_pow_right one_lt_two (by omega)
  let mantissa := 1#f.mantissaBitsWithoutImplicit <<< (f.mantissaBitsWithoutImplicit - 1)
  have hmantissa : mantissa.toNat ≠ 0 := by
    rw [BitVec.toNat_shiftLeft, BitVec.toNat_ofNat,
      Nat.mod_eq_of_lt (Nat.one_lt_two_pow (by omega)), Nat.shiftLeft_eq, Nat.one_mul,
      Nat.mod_eq_of_lt hlast]
    exact (Nat.two_pow_pos _).ne'
  have hunpack := unpacks_packComponents .positive (-1#_) mantissa
  exact hunpack.unique (.notANumber ((eq_neg_one_iff_toNat _).1 rfl) hmantissa)

theorem pack_finite (s : Sign) {m : Nat} (e : Int) (hm : 0 < m) :
    pack f (.finite s m e hm) =
      if 2 ^ f.exponentBits ≤
          (e + f.exponentBias + f.mantissaBitsWithoutImplicit).toNat + 1 then
        pack f (.infinity s)
      else if m.log2 + 1 = f.mantissaBits then
        packComponents f s
          (BitVec.ofNat _ (e + f.exponentBias + f.mantissaBitsWithoutImplicit).toNat)
          (BitVec.ofNat _ m)
      else packComponents f s 0#_ (BitVec.ofNat _ m) :=
  rfl

theorem pack_of_maxExponent_lt {s : Sign} {m : Nat} {e : Int} (hm : 0 < m)
    (h : maxExponent f < e) : pack f (.finite s m e hm) = pack f (.infinity s) := by
  have hrange := two_pow_exponentBits f
  unfold maxExponent at h
  rw [pack_finite, if_pos (by omega)]

theorem log2_add_one_eq_iff {m : Nat} (hm : 0 < m) (hlt : m < 2 ^ f.mantissaBits) :
    m.log2 + 1 = f.mantissaBits ↔ 2 ^ f.mantissaBitsWithoutImplicit ≤ m := by
  have hlog : m.log2 < f.mantissaBits := (Nat.log2_lt hm.ne').2 hlt
  rw [mantissaBits_eq] at hlog
  rw [← Nat.le_log2 hm.ne', mantissaBits_eq]
  omega

theorem unpack_pack_of_isCanonical {s : Sign} {m : Nat} {e : Int} (hm : 0 < m)
    (h : IsCanonical f m e) (hmax : e ≤ maxExponent f) :
    unpack f (pack f (.finite s m e hm)) = .finite s m e hm := by
  have hlt := h.lt
  have hle := h.le
  have hmin := minExponent_eq f
  have hrange := two_pow_exponentBits f
  have hbits := two_pow_mantissaBits f
  unfold maxExponent at hmax
  rw [pack_finite, if_neg (by omega)]
  by_cases hfull : 2 ^ f.mantissaBitsWithoutImplicit ≤ m
  · have hexponent : (e + f.exponentBias + f.mantissaBitsWithoutImplicit).toNat %
        2 ^ f.exponentBits = (e + f.exponentBias + f.mantissaBitsWithoutImplicit).toNat :=
      Nat.mod_eq_of_lt (by omega)
    have hmantissa : m % 2 ^ f.mantissaBitsWithoutImplicit =
        m - 2 ^ f.mantissaBitsWithoutImplicit := by
      rw [Nat.mod_eq_sub_mod hfull, Nat.mod_eq_of_lt (by omega)]
    rw [if_pos ((log2_add_one_eq_iff hm hlt).2 hfull)]
    refine (unpacks_packComponents _ _ _).unique ?_
    rw [BitVec.toNat_ofNat, BitVec.toNat_ofNat, hexponent, hmantissa]
    exact .normal (by omega) (by omega) hm (by omega) (by omega)
  · -- the exponent is the least one, and stands for itself as a field of zeros
    have he := h.full.resolve_left hfull
    have hmantissa : m % 2 ^ f.mantissaBitsWithoutImplicit = m := Nat.mod_eq_of_lt (by omega)
    rw [if_neg (fun hlog => hfull ((log2_add_one_eq_iff hm hlt).1 hlog))]
    refine (unpacks_packComponents _ _ _).unique ?_
    rw [BitVec.toNat_zero, BitVec.toNat_ofNat, hmantissa]
    exact .subnormal rfl hm he

/-! ## Absolute values -/

theorem sign_pack_abs (u : UnpackedFloat) :
    Sign.ofBitVec (unpackSign (pack f u.abs)) = .positive := by
  cases u with
  | notANumber => exact sign_packComponents ..
  | infinity s => exact sign_packComponents ..
  | zero s => exact sign_packComponents ..
  | finite s m e h =>
    show Sign.ofBitVec (unpackSign (pack f (.finite .positive m e h))) = .positive
    rw [pack_finite]
    split
    · exact sign_packComponents ..
    · split
      · exact sign_packComponents ..
      · exact sign_packComponents ..

theorem place_zero_le_of_sign {bits : BitVec f.numBits}
    (h : Sign.ofBitVec (unpackSign bits) = .positive) :
    place (.zero .positive) ≤ place (unpack f bits) := by
  have hside : ∀ (side : Int) (p : Int ×ₗ Int), 0 < side →
      place (.zero .positive) ≤ toLex (side, p) :=
    fun side p hpos => Prod.Lex.toLex_le_toLex.2 (.inl hpos)
  have hunpack := unpacks_unpack bits
  rw [h] at hunpack
  generalize unpack f bits = u at *
  cases hunpack with
  | infinity => exact hside 2 _ (by decide)
  | subnormal => exact hside 1 _ (by decide)
  | normal => exact hside 1 _ (by decide)
  | _ => exact le_refl _

theorem place_zero_le_place_abs (x : Float32) :
    place (.zero .positive) ≤ place x.abs.toModel.unpack :=
  place_zero_le_of_sign (sign_pack_abs _)

theorem not_abs_lt_of_le_zero {x bound : Float32} (h : bound ≤ 0) : ¬x.abs < bound := by
  intro hlt
  have hbound : place bound.toModel.unpack ≤ place (.zero .positive) := (float32_le_iff.1 h).2.2
  have habs := (float32_lt_iff.1 hlt).2.2
  exact absurd (habs.trans_le hbound) (not_lt_of_ge (place_zero_le_place_abs x))

end PoolWatch
