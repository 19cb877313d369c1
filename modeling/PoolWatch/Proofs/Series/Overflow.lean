import PoolWatch.Proofs.Series.Budget
/-!
# Counts that leave 64 bits

The points of a series are counted on from the last place of the grid before them.  If a series
covers hardly anything of the range its base is as large as a count can be, and then a sum of two
counts may leave 64 bits.  No other sum does: a smaller base leaves enough room, and a chunk that
is not the base is not larger than the series is long.
-/

namespace PoolWatch.Series

open PoolWatch.Numeric

/-- The greatest number of points that a series is taken to have. -/
def longest : Nat := 4294967296

section

variable {length offset chunk maxPoints : Nat} {fraction : Float}

/-! ## Chunks of a line -/

theorem exists_chunkSize_iff (fraction : Float) (hlength : length ≤ longest)
    (hmax : 2 ≤ maxPoints) :
    (∃ chunk, chunkSize length offset maxPoints fraction = .ok chunk) ↔
      offset % baseChunk length maxPoints fraction + length ≤ unsignedMax := by
  constructor
  · rintro ⟨chunk, h⟩
    unfold chunkSize at h
    dsimp only at h
    rw [if_neg (by omega)] at h
    obtain ⟨n, hn, -⟩ := bind_eq_ok_iff.1 h
    exact (chunkCount_eq_ok.1 hn).1
  · intro hfits
    by_cases hsmall : baseChunk length maxPoints fraction + length ≤ unsignedMax
    · exact exists_chunkSize fraction
        ((Nat.add_le_add_right (Nat.min_le_right _ _) length).trans hsmall)
    · -- a base that leaves so little room holds all points in two chunks
      have htwo : filled length offset (baseChunk length maxPoints fraction) ≤ maxPoints := by
        have hbase : 0 < baseChunk length maxPoints fraction := baseChunk_pos
        rw [filled, Nat.div_le_iff_le_mul_add_pred hbase]
        simp only [longest, unsignedMax] at *
        have hmul := Nat.mul_le_mul_left (baseChunk length maxPoints fraction) hmax
        omega
      refine ⟨baseChunk length maxPoints fraction, ?_⟩
      simp only [chunkSize, if_neg (Nat.not_lt.2 hmax), chunkCount_eq_ok.2 ⟨hfits, rfl⟩, bind,
        Except.bind, if_pos htwo]
      rfl

theorem le_length_of_ne_baseChunk (hlength : 0 < length) (hmax : 2 ≤ maxPoints)
    (h : chunkSize length offset maxPoints fraction = .ok chunk)
    (hne : chunk ≠ baseChunk length maxPoints fraction) : chunk ≤ length := by
  obtain ⟨rfl, -⟩ | ⟨hover, ⟨rfl, -⟩ | ⟨rfl, -⟩⟩ := chunkSize_cases hmax h
  · exact absurd rfl hne
  · -- a base that is as large as the series is long makes two chunks at most
    by_contra hlarge
    have hbase : 0 < baseChunk length maxPoints fraction := baseChunk_pos
    have hmod := Nat.mod_lt offset hbase
    refine absurd (hmax.trans_lt hover) (Nat.not_lt.2 ?_)
    rw [filled, Nat.div_le_iff_le_mul_add_pred hbase]
    omega
  · have hceil : (length - 1 + (maxPoints - 1) - 1) / (maxPoints - 1) ≤ length - 1 := by
      rw [Nat.div_le_iff_le_mul_add_pred (by omega)]
      have hmul := Nat.mul_le_mul_right (length - 1) (by omega : 1 ≤ maxPoints - 1)
      omega
    exact Nat.max_le.2 ⟨by omega, hlength⟩

theorem mod_add_le_of_chunkSize (hpos : 0 < length) (hlength : length ≤ longest)
    (hmax : 2 ≤ maxPoints) (h : chunkSize length offset maxPoints fraction = .ok chunk) :
    0 < chunk ∧ offset % chunk + length ≤ unsignedMax := by
  have hchunk : 0 < chunk := baseChunk_pos.trans_le (chunkSize_spec hmax hpos h).1
  refine ⟨hchunk, ?_⟩
  by_cases hbase : chunk = baseChunk length maxPoints fraction
  · exact hbase ▸ (exists_chunkSize_iff fraction hlength hmax).1 ⟨chunk, h⟩
  · have hle := le_length_of_ne_baseChunk hpos hmax h hbase
    have hmod := Nat.mod_lt offset hchunk
    simp only [longest, unsignedMax] at *
    omega

theorem countedBefore_one_mod_add_le (s : Series) (chunk : Nat) (hlength : length ≤ longest) :
    countedBefore 1 s % chunk + length ≤ unsignedMax := by
  rw [countedBefore, if_pos rfl, Nat.zero_mod, Nat.zero_add]
  exact hlength.trans (by decide)

theorem exists_chunkSize_counted_iff (fraction : Float) (s : Series) (hlength : length ≤ longest)
    (hmax : 1 ≤ maxPoints) :
    (∃ chunk, chunkSize length (countedBefore maxPoints s) maxPoints fraction = .ok chunk) ↔
      countedBefore maxPoints s % baseChunk length maxPoints fraction + length ≤ unsignedMax := by
  obtain rfl | hmany := Nat.eq_or_lt_of_le hmax
  · exact iff_of_true ⟨_, rfl⟩ (countedBefore_one_mod_add_le s _ hlength)
  · exact exists_chunkSize_iff fraction hlength hmany

end

/-! ## Lines -/

/-- A line can be made of a series: if it is to be, the points that are seen and those that are
counted before them in a chunk of the base are together a count of 64 bits. -/
def CountFits (series : List Series) (maxPoints : Nat) (window : Option (Float × Float))
    (s : Series) : Prop :=
  ∀ range extent, rangeOf window series = some range →
    timeExtent (visible window s) = some extent → 0 < coverage range extent →
      countedBefore maxPoints s %
          baseChunk (visible window s).length maxPoints (coverage range extent) +
        (visible window s).length ≤ unsignedMax

namespace Reduction

variable {series : List Series} {maxPoints : Nat} {window : Option (Float × Float)} {line : Line}

theorem counts_fit (hmax : 1 ≤ maxPoints) (r : Reduction series maxPoints window line)
    (hlength : r.points.length ≤ longest) :
    1 ≤ r.points.length ∧ countedBefore maxPoints r.source % r.chunk < r.chunk ∧
      chunkCount r.points.length (countedBefore maxPoints r.source) r.chunk =
        .ok line.points.length := by
  have hpos : 1 ≤ r.points.length := List.length_pos_of_ne_nil r.points_ne_nil
  have hfound := r.chunk_eq
  obtain ⟨hchunk, hfits⟩ : 0 < r.chunk ∧
      countedBefore maxPoints r.source % r.chunk + r.points.length ≤ unsignedMax := by
    obtain rfl | hmany := Nat.eq_or_lt_of_le hmax
    · obtain heq : baseChunk r.points.length 1 r.fraction = r.chunk := Except.ok.inj hfound
      exact ⟨heq ▸ baseChunk_pos, countedBefore_one_mod_add_le _ _ hlength⟩
    · exact mod_add_le_of_chunkSize hpos hlength hmany hfound
  refine ⟨hpos, Nat.mod_lt _ hchunk, chunkCount_eq_ok.2 ⟨hfits, ?_⟩⟩
  rw [r.points_eq]
  exact (length_chunkMeans hchunk r.points_ne_nil).symm

end Reduction

/-- Series, none of them too long, are reduced if and only if the points of each that is to become a
line make a count of 64 bits with those before them in a chunk of the base.  Then every other sum
fits 64 bits, too, and every difference is one of a number and a lesser one. -/
theorem reduces_iff_counts_fit {series : List Series} {maxPoints : Nat} (hmax : 1 ≤ maxPoints)
    (hlength : ∀ s ∈ series, s.points.length ≤ longest) (window : Option (Float × Float)) :
    ((∃ lines, reduce series maxPoints window = .ok lines) ↔
        ∀ s ∈ series, s.CountFits series maxPoints window) ∧
      ∀ lines, reduce series maxPoints window = .ok lines → ∀ line ∈ lines,
        ∃ r : Reduction series maxPoints window line,
          1 ≤ r.points.length ∧ countedBefore maxPoints r.source % r.chunk < r.chunk ∧
            chunkCount r.points.length (countedBefore maxPoints r.source) r.chunk =
              .ok line.points.length := by
  have hvisible : ∀ s ∈ series, (visible window s).length ≤ longest := fun s hs =>
    (length_visible_le window s).trans (hlength s hs)
  constructor
  · rw [exists_reduce_iff hmax]
    refine forall₂_congr fun s hs => forall₂_congr fun range extent => ?_
    refine forall₃_congr fun _ _ _ => ?_
    exact exists_chunkSize_counted_iff _ s (hvisible s hs) hmax
  · intro lines hlines line hline
    obtain ⟨r⟩ := nonempty_reduction hmax hlines hline
    exact ⟨r, r.counts_fit hmax (hvisible r.source r.source_mem)⟩

/-- Two points that are hardly apart, the second of which is the last one that can be counted. -/
def speck : Series := ⟨"speck", 18446744073709551614, [⟨0, 1⟩, ⟨1e-30, 3⟩]⟩

def fresh : Series := { speck with offset := 0 }

theorem fresh_counts_fit : fresh.CountFits [fresh] 2 (some (0, 1)) ∧
    reduce [fresh] 2 (some (0, 1)) = .ok [⟨0, "speck", 0, [⟨0, 2⟩]⟩] := by
  have hreduce : reduce [fresh] 2 (some (0, 1)) = .ok [⟨0, "speck", 0, [⟨0, 2⟩]⟩] := by
    decide +kernel
  have hshort : ∀ s ∈ [fresh], s.points.length ≤ longest := by decide
  have hfits := (reduces_iff_counts_fit (by decide) hshort (some (0, 1))).1.1 ⟨_, hreduce⟩
  exact ⟨hfits fresh List.mem_cons_self, hreduce⟩

/-- The two points fill the last chunk that there is and begin another one, so the line should have
them both.  Their sum with the points before them is one more than a count can be. -/
theorem speck_overflows :
    baseChunk 2 2 (coverage (0, 1) (0, 1e-30)) = unsignedMax ∧
      chunkSize 2 speck.offset 2 (coverage (0, 1) (0, 1e-30)) = .error .count ∧
      reduce [speck] 2 (some (0, 1)) = .error .count ∧
      chunkMeans speck.points speck.offset unsignedMax = speck.points := by
  refine ⟨by decide +kernel, by decide +kernel, by decide +kernel, ?_⟩
  decide +kernel

end PoolWatch.Series
