import Mathlib.Order.Bounds.Basic
import PoolWatch.Proofs.Series.Budget
/-!
# The least chunk

From a certain size on a chunk keeps the budget at any offset.  Smaller chunks keep it at some
offsets and miss it at others, not always the larger ones.  For a line the base and the next chunk
are tried, and if both miss the budget the choice falls on a chunk that fits at any offset.  So the
chunk of a line is the least one within the budget unless a chunk is passed over in between.
-/

namespace PoolWatch.Series

open PoolWatch.Numeric

section

variable {length offset chunk maxPoints : Nat} {fraction : Float}

theorem filled_le_iff (hchunk : 0 < chunk) :
    filled length offset chunk ≤ maxPoints ↔ offset % chunk + length ≤ chunk * maxPoints := by
  rw [filled, Nat.div_le_iff_le_mul_add_pred hchunk]
  omega

theorem forall_filled_le_iff (hlength : 0 < length) (hmax : 2 ≤ maxPoints) (hchunk : 0 < chunk) :
    (∀ o, filled length o chunk ≤ maxPoints) ↔ fittingChunk length maxPoints ≤ chunk := by
  constructor
  · intro hfits
    -- the worst offset leaves one place of the first block
    have hworst := (filled_le_iff hchunk).1 (hfits (chunk - 1))
    rw [Nat.mod_eq_of_lt (Nat.sub_lt hchunk Nat.one_pos)] at hworst
    obtain ⟨others, rfl⟩ := Nat.exists_eq_add_of_le (Nat.one_le_of_lt hmax)
    rw [Nat.mul_add, Nat.mul_one] at hworst
    refine Nat.max_le.2 ⟨?_, hchunk⟩
    rw [Nat.add_sub_cancel_left, Nat.div_le_iff_le_mul_add_pred (by omega), Nat.mul_comm]
    omega
  · intro hle o
    exact filled_le hchunk hlength (fittingChunk_fits hmax hle) (by omega)

theorem chunkSize_le_of_forall_filled_le (hlength : 0 < length) (hmax : 2 ≤ maxPoints)
    (h : chunkSize length offset maxPoints fraction = .ok chunk) {c : Nat}
    (hbase : baseChunk length maxPoints fraction ≤ c) (hfits : ∀ o, filled length o c ≤ maxPoints) :
    chunk ≤ c := by
  obtain ⟨rfl, -⟩ | ⟨hover, ⟨rfl, -⟩ | ⟨rfl, -⟩⟩ := chunkSize_cases hmax h
  · exact hbase
  · refine Nat.lt_of_le_of_ne hbase fun heq => ?_
    rw [heq] at hover
    exact absurd (hfits offset) (Nat.not_le_of_lt hover)
  · exact (forall_filled_le_iff hlength hmax (baseChunk_pos.trans_le hbase)).1 hfits

/-- The chunks from the base on that keep the budget of a line at its offset. -/
def withinBudget (length offset maxPoints : Nat) (fraction : Float) : Set Nat :=
  {c | baseChunk length maxPoints fraction ≤ c ∧ filled length offset c ≤ maxPoints}

theorem isLeast_withinBudget_iff (hlength : 0 < length) (hmax : 2 ≤ maxPoints)
    (h : chunkSize length offset maxPoints fraction = .ok chunk) :
    IsLeast (withinBudget length offset maxPoints fraction) chunk ↔
      filled length offset (baseChunk length maxPoints fraction) ≤ maxPoints ∨
        filled length offset (baseChunk length maxPoints fraction + 1) ≤ maxPoints ∨
          ∀ c, baseChunk length maxPoints fraction + 1 < c → c < fittingChunk length maxPoints →
            maxPoints < filled length offset c := by
  have hmem : chunk ∈ withinBudget length offset maxPoints fraction :=
    chunkSize_spec hmax hlength h
  obtain ⟨rfl, hfits⟩ | ⟨hover, ⟨rfl, hfits⟩ | ⟨rfl, hover'⟩⟩ := chunkSize_cases hmax h
  · exact iff_of_true ⟨hmem, fun c hc => hc.1⟩ (.inl hfits)
  · refine iff_of_true ⟨hmem, fun c hc => Nat.lt_of_le_of_ne hc.1 fun heq => ?_⟩
      (.inr (.inl hfits))
    rw [heq] at hover
    exact absurd hc.2 (Nat.not_le_of_lt hover)
  · rw [or_iff_right (Nat.not_le_of_lt hover), or_iff_right (Nat.not_le_of_lt hover')]
    constructor
    · intro hleast c _ hlt
      by_contra hwithin
      exact absurd (hleast.2 ⟨by omega, Nat.le_of_not_lt hwithin⟩) (Nat.not_le_of_lt hlt)
    · intro hpassed
      refine ⟨hmem, fun c ⟨hbase, hwithin⟩ => ?_⟩
      by_contra hlt
      -- what is tried first misses the budget, so it is one of those passed over
      have hne : baseChunk length maxPoints fraction ≠ c := fun heq => by
        rw [heq] at hover
        omega
      have hne' : baseChunk length maxPoints fraction + 1 ≠ c := fun heq => by
        rw [heq] at hover'
        omega
      have := hpassed c (by omega) (by omega)
      omega

end

/-- The chunk of a line is one from the base on that keeps the budget, and none that keeps it at
every offset is smaller.  Among those that keep it at the offset of the line it is the least one
unless the base and the next chunk miss the budget and one between these and the chunk that fits at
any offset keeps it.  The chunk is found when the points overflow neither with those counted before
them nor with the base. -/
theorem chunkSize_isLeast_iff {length offset maxPoints : Nat} (fraction : Float)
    (hlength : 1 ≤ length) (hmax : 2 ≤ maxPoints) :
    let base := baseChunk length maxPoints fraction
    (min offset base + length ≤ unsignedMax →
      ∃ chunk, chunkSize length offset maxPoints fraction = .ok chunk) ∧
    ∀ chunk, chunkSize length offset maxPoints fraction = .ok chunk →
      base ≤ chunk ∧ filled length offset chunk ≤ maxPoints ∧
      (∀ c, base ≤ c → (∀ o, filled length o c ≤ maxPoints) → chunk ≤ c) ∧
      (IsLeast (withinBudget length offset maxPoints fraction) chunk ↔
        filled length offset base ≤ maxPoints ∨ filled length offset (base + 1) ≤ maxPoints ∨
          ∀ c, base + 1 < c → c < fittingChunk length maxPoints →
            maxPoints < filled length offset c) := by
  intro base
  refine ⟨fun hfits => exists_chunkSize fraction hfits, fun chunk h => ?_⟩
  obtain ⟨hbase, hwithin⟩ := chunkSize_spec hmax hlength h
  exact ⟨hbase, hwithin, fun c => chunkSize_le_of_forall_filled_le hlength hmax h,
    isLeast_withinBudget_iff hlength hmax h⟩

theorem five_isLeast :
    chunkSize 6 7 2 1 = .ok 5 ∧ IsLeast (withinBudget 6 7 2 1) 5 := by
  have hchunk : chunkSize 6 7 2 1 = .ok 5 := by decide +kernel
  have hpassed : ∀ c, baseChunk 6 2 1 + 1 < c → c < fittingChunk 6 2 → 2 < filled 6 7 c := by
    have hbase : baseChunk 6 2 1 = 3 := by decide +kernel
    rw [hbase]
    intro c hlow hhigh
    have : fittingChunk 6 2 = 5 := rfl
    omega
  obtain ⟨-, hspec⟩ := @chunkSize_isLeast_iff 6 7 2 1 (by decide) (by decide)
  exact ⟨hchunk, (hspec 5 hchunk).2.2.2.2 (.inr (.inr hpassed))⟩

/-- Eight readings, before which three are counted. -/
def eight : Series :=
  ⟨"eight", 3, [⟨0, 1⟩, ⟨1, 1⟩, ⟨2, 1⟩, ⟨3, 1⟩, ⟨4, 1⟩, ⟨5, 1⟩, ⟨6, 1⟩, ⟨7, 1⟩]⟩

/-- Two points are to be left of eight readings.  Chunks of six leave two, but the line is made of
chunks of seven. -/
theorem six_passed_over :
    chunkSize 8 3 2 1 = .ok 7 ∧
      IsLeast (withinBudget 8 3 2 1) 6 ∧ ¬ IsLeast (withinBudget 8 3 2 1) 7 ∧
      reduce [eight] 2 none = .ok [⟨0, "eight", 3, chunkMeans eight.points 3 7⟩] ∧
      chunkMeans eight.points 3 7 = [⟨0, 1⟩, ⟨4, 1⟩] ∧
      chunkMeans eight.points 3 6 = [⟨0, 1⟩, ⟨3, 1⟩] := by
  have hbase : baseChunk 8 2 1 = 4 := by decide +kernel
  have hleast : IsLeast (withinBudget 8 3 2 1) 6 := by
    rw [withinBudget, hbase]
    refine ⟨by decide, fun c ⟨hlow, hwithin⟩ => ?_⟩
    by_contra hlt
    have hearly : c = 4 ∨ c = 5 := by omega
    obtain rfl | rfl := hearly <;> exact absurd hwithin (by decide)
  refine ⟨by decide +kernel, hleast, fun h => ?_, by decide +kernel, by decide +kernel,
    by decide +kernel⟩
  exact absurd (hleast.unique h) (by decide)

end PoolWatch.Series
