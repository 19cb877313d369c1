import PoolWatch.Chart
import PoolWatch.Proofs.Numeric.FloatBounds
import PoolWatch.Proofs.Series.Blocks
import PoolWatch.Proofs.Series.Lines
/-!
# The budget of points

The points that are counted before the first one can cost a line one chunk more.  The chunk that
is chosen for a line makes up for it: with it the line has no more points than it may have.
-/

namespace PoolWatch.Series

open PoolWatch.Numeric

/-! ## How many chunks are filled -/

/-- The number of chunks that `length` points take after `offset` virtual ones. -/
def filled (length offset chunk : Nat) : Nat := (offset % chunk + length + chunk - 1) / chunk

section

variable {length offset chunk maxPoints : Nat} {fraction : Float}

theorem chunkCount_eq_ok {n : Nat} : chunkCount length offset chunk = .ok n ↔
    offset % chunk + length ≤ unsignedMax ∧ filled length offset chunk = n := by
  simp only [chunkCount, bind_eq_ok_iff, checkCount_eq_ok, pure, Except.pure, Except.ok.injEq]
  constructor
  · rintro ⟨total, ⟨rfl, hmax⟩, rfl⟩
    exact ⟨hmax, rfl⟩
  · rintro ⟨hmax, rfl⟩
    exact ⟨_, ⟨rfl, hmax⟩, rfl⟩

theorem filled_pos (hlength : 0 < length) (hchunk : 0 < chunk) : 0 < filled length offset chunk :=
  Nat.div_pos (by omega) hchunk

theorem filled_le (hchunk : 0 < chunk) (hlength : 0 < length)
    (hfits : length - 1 ≤ chunk * (maxPoints - 1)) (hmax : 1 ≤ maxPoints) :
    filled length offset chunk ≤ maxPoints := by
  have hmod := Nat.mod_lt offset hchunk
  obtain ⟨others, rfl⟩ := Nat.exists_eq_add_of_le hmax
  rw [Nat.add_sub_cancel_left] at hfits
  rw [filled, Nat.div_le_iff_le_mul_add_pred hchunk, Nat.mul_add]
  omega

theorem fittingChunk_fits (hmax : 2 ≤ maxPoints) {c : Nat}
    (h : fittingChunk length maxPoints ≤ c) : length - 1 ≤ c * (maxPoints - 1) := by
  have hceil : (length - 1 + (maxPoints - 1) - 1) / (maxPoints - 1) ≤ c :=
    (Nat.le_max_left _ _).trans h
  rw [Nat.div_le_iff_le_mul_add_pred (by omega), Nat.mul_comm] at hceil
  omega

theorem fittingChunk_pos : 0 < fittingChunk length maxPoints := Nat.le_max_right _ _

theorem baseChunk_pos : 0 < baseChunk length maxPoints fraction := Nat.le_max_right _ _

theorem baseChunk_le : baseChunk length maxPoints fraction ≤ unsignedMax :=
  Nat.max_le.2 ⟨Parts.toUnsigned_le _ _, by decide⟩

/-- The base is the quotient of the length by the share of the budget, as floats give it, brought
up to a whole number that is at least one and fits 64 bits. -/
theorem baseChunk_eq
    (hfinite : (Float.ofNat length / (Float.ofNat maxPoints * fraction)).isFinite = true) :
    baseChunk length maxPoints fraction =
      max 1 (min ⌈number (Float.ofNat length / (Float.ofNat maxPoints * fraction))⌉.toNat
        unsignedMax) := by
  unfold baseChunk
  dsimp only
  rw [parts_eq, toUnsigned_eq (isOfFormat_of_isFinite hfinite), max_comm]
  rfl

/-! ## The chunk of a line -/

/-- The base is chosen if it fits, or else the next chunk if that one fits, or else the one that
fits at any offset. -/
theorem chunkSize_cases (hmax : 2 ≤ maxPoints)
    (h : chunkSize length offset maxPoints fraction = .ok chunk) :
    (chunk = baseChunk length maxPoints fraction ∧ filled length offset chunk ≤ maxPoints) ∨
      (maxPoints < filled length offset (baseChunk length maxPoints fraction) ∧
        ((chunk = baseChunk length maxPoints fraction + 1 ∧
            filled length offset chunk ≤ maxPoints) ∨
          (chunk = fittingChunk length maxPoints ∧
            maxPoints < filled length offset (baseChunk length maxPoints fraction + 1)))) := by
  unfold chunkSize at h
  dsimp only at h
  rw [if_neg (by omega)] at h
  obtain ⟨n, hn, h⟩ := bind_eq_ok_iff.1 h
  obtain ⟨-, rfl⟩ := chunkCount_eq_ok.1 hn
  split at h
  next hbase =>
    obtain rfl := Except.ok.inj h
    exact .inl ⟨rfl, hbase⟩
  next hover =>
    refine .inr ⟨Nat.lt_of_not_le hover, ?_⟩
    obtain ⟨next, hnext, h⟩ := bind_eq_ok_iff.1 h
    obtain ⟨rfl, -⟩ := checkCount_eq_ok.1 hnext
    obtain ⟨n', hn', h⟩ := bind_eq_ok_iff.1 h
    obtain ⟨-, rfl⟩ := chunkCount_eq_ok.1 hn'
    split at h
    next hfits =>
      obtain rfl := Except.ok.inj h
      exact .inl ⟨rfl, hfits⟩
    next hover' =>
      obtain rfl := Except.ok.inj h
      exact .inr ⟨rfl, Nat.lt_of_not_le hover'⟩

theorem chunkSize_spec (hmax : 2 ≤ maxPoints) (hlength : 0 < length)
    (h : chunkSize length offset maxPoints fraction = .ok chunk) :
    baseChunk length maxPoints fraction ≤ chunk ∧ filled length offset chunk ≤ maxPoints := by
  obtain ⟨rfl, hfits⟩ | ⟨hover, ⟨rfl, hfits⟩ | ⟨rfl, -⟩⟩ := chunkSize_cases hmax h
  · exact ⟨le_rfl, hfits⟩
  · exact ⟨Nat.le_succ _, hfits⟩
  · have hfitting : filled length offset (fittingChunk length maxPoints) ≤ maxPoints :=
      filled_le fittingChunk_pos hlength (fittingChunk_fits hmax le_rfl) (by omega)
    -- a base above the chunk that fits at any offset would fit as well
    have hbelow : baseChunk length maxPoints fraction ≤ fittingChunk length maxPoints := by
      by_contra habove
      have hfits := fittingChunk_fits hmax (Nat.lt_of_not_le habove).le
      have hbase : filled length offset (baseChunk length maxPoints fraction) ≤ maxPoints :=
        filled_le baseChunk_pos hlength hfits (by omega)
      omega
    exact ⟨hbelow, hfitting⟩

theorem chunkSize_one (h : chunkSize length 0 1 fraction = .ok chunk)
    (hkeeps : QuotientKeeps length) (hpos : 0 < fraction) (hle : fraction ≤ 1) :
    baseChunk length 1 fraction ≤ chunk ∧ filled length 0 chunk ≤ 1 := by
  obtain rfl : baseChunk length 1 fraction = chunk := Except.ok.inj h
  obtain ⟨hpart, hpart'⟩ := one_mul_isPart hpos hle
  have hbase : length ≤ baseChunk length 1 fraction :=
    (hkeeps _ hpart hpart').trans (Nat.le_max_left _ _)
  refine ⟨le_rfl, ?_⟩
  rw [filled, Nat.zero_mod, Nat.div_le_iff_le_mul_add_pred baseChunk_pos]
  have hchunk : 0 < baseChunk length 1 fraction := baseChunk_pos
  omega

theorem filled_unsignedMax (hfits : offset % unsignedMax + length ≤ unsignedMax) :
    filled length offset unsignedMax ≤ 1 := by
  have hpos : 0 < unsignedMax := by decide
  rw [filled, Nat.div_le_iff_le_mul_add_pred hpos]
  omega

theorem exists_chunkSize (fraction : Float)
    (hfits : min offset (baseChunk length maxPoints fraction) + length ≤ unsignedMax) :
    ∃ chunk, chunkSize length offset maxPoints fraction = .ok chunk := by
  have hmod : offset % baseChunk length maxPoints fraction ≤
      min offset (baseChunk length maxPoints fraction) :=
    Nat.le_min.2 ⟨Nat.mod_le _ _, (Nat.mod_lt _ baseChunk_pos).le⟩
  have hmod' : offset % (baseChunk length maxPoints fraction + 1) ≤
      min offset (baseChunk length maxPoints fraction) :=
    Nat.le_min.2 ⟨Nat.mod_le _ _, Nat.le_of_lt_succ (Nat.mod_lt _ (Nat.succ_pos _))⟩
  have hcount := chunkCount_eq_ok.2
    ⟨(Nat.add_le_add_right hmod length).trans hfits, rfl⟩
  have hcount' := chunkCount_eq_ok.2
    ⟨(Nat.add_le_add_right hmod' length).trans hfits, rfl⟩
  simp only [chunkSize, hcount, bind, Except.bind, pure, Except.pure]
  split
  · exact ⟨_, rfl⟩
  next hmany =>
    split
    · exact ⟨_, rfl⟩
    next hover =>
      have hbase : baseChunk length maxPoints fraction + 1 ≤ unsignedMax := by
        have hle : baseChunk length maxPoints fraction ≤ unsignedMax := baseChunk_le
        obtain heq | hlt := Nat.eq_or_lt_of_le hle
        · rw [heq] at hover hmod hfits
          have hone := filled_unsignedMax (by omega : offset % unsignedMax + length ≤ unsignedMax)
          omega
        · exact hlt
      rw [checkCount_eq_ok.2 ⟨rfl, hbase⟩]
      dsimp only
      rw [hcount']
      dsimp only
      split
      · exact ⟨_, rfl⟩
      · exact ⟨_, rfl⟩

end

/-! ## Lines -/

section

variable {series : List Series} {maxPoints : Nat} {window : Option (Float × Float)} {line : Line}

theorem Reduction.keeps_budget (r : Reduction series maxPoints window line)
    (hmax : 1 ≤ maxPoints) (hround : maxPoints = 1 → QuotientKeeps r.points.length) :
    (1 ≤ line.points.length ∧ line.points.length ≤ maxPoints) ∧
      baseChunk r.points.length maxPoints r.fraction ≤ r.chunk := by
  have hlength : 0 < r.points.length := List.length_pos_of_ne_nil r.points_ne_nil
  -- only the chunk of a single point depends on how the quotient is rounded
  have hchosen : baseChunk r.points.length maxPoints r.fraction ≤ r.chunk ∧
      filled r.points.length (countedBefore maxPoints r.source) r.chunk ≤ maxPoints := by
    have hchunk := r.chunk_eq
    obtain rfl | hmany := Nat.eq_or_lt_of_le hmax
    · exact chunkSize_one hchunk (hround rfl) r.covers (coverage_le_one _ _)
    · exact chunkSize_spec hmany hlength hchunk
  have hpos : 0 < r.chunk := baseChunk_pos.trans_le hchosen.1
  have hfilled : line.points.length =
      filled r.points.length (countedBefore maxPoints r.source) r.chunk := by
    rw [r.points_eq]
    exact length_chunkMeans hpos r.points_ne_nil
  rw [hfilled]
  exact ⟨⟨filled_pos hlength hpos, hchosen.2⟩, hchosen.1⟩

theorem exists_reduce (hfits : ∀ s ∈ series, s.offset + s.points.length ≤ unsignedMax)
    (maxPoints : Nat) (window : Option (Float × Float)) :
    ∃ lines, reduce series maxPoints window = .ok lines := by
  obtain rfl | hmax := Nat.eq_zero_or_pos maxPoints
  · exact ⟨[], rfl⟩
  refine (exists_reduce_iff hmax).2 fun s hs range extent _ _ _ => exists_chunkSize _ ?_
  have hfit := hfits s hs
  have hlength := length_visible_le window s
  have hcounted : countedBefore maxPoints s ≤ s.offset := by
    unfold countedBefore
    split <;> omega
  exact (Nat.add_le_add (Nat.min_le_left _ _) hlength).trans
    ((Nat.add_le_add_right hcounted _).trans hfit)

/-! ## Polylines -/

theorem points_align (origin : Float) (s : Series) : (align origin s).points = s.points := by
  unfold align
  split
  · rfl
  · rfl

end

end PoolWatch.Series

namespace PoolWatch.Chart

open PoolWatch.Numeric

def aligned (series : List Series) : List Series :=
  match Series.domain series with
  | some (origin, _) => series.map (Series.align origin)
  | none => series

theorem points_of_mem_aligned {series : List Series} {s : Series} (h : s ∈ aligned series) :
    ∃ t ∈ series, s.points = t.points := by
  unfold aligned at h
  split at h
  · obtain ⟨t, ht, rfl⟩ := List.mem_map.1 h
    exact ⟨t, ht, Series.points_align _ t⟩
  · exact ⟨s, h, rfl⟩

def valueDomain (c : Chart) (lines : List Line) : Option (Float × Float) :=
  (c.valueRange.or (valueExtent lines)).map widened

/-- The picture of lines and ticks that have been found. -/
def laidOut (c : Chart) (series : List Series) (xLabel : String) (lines : List Line)
    (xTicks yTicks : List Tick) : Picture where
  size := c.size
  lines :=
    match Series.domain series, c.valueDomain lines with
    | some times, some values => lines.map (c.polyline times values)
    | _, _ => []
  xAxis := ⟨⟨c.xRange.1, c.yRange.1⟩, ⟨c.xRange.2, c.yRange.1⟩, xTicks⟩
  yAxis := ⟨⟨c.xRange.1, c.yRange.1⟩, ⟨c.xRange.1, c.yRange.2⟩, yTicks⟩
  xLabel := xLabel

theorem picture_eq_ok_iff {c : Chart} {series : List Series} {maxPoints : Nat} {xLabel : String}
    {p : Picture} :
    c.picture series maxPoints xLabel = .ok p ↔
      ∃ lines, Series.reduce (aligned series) maxPoints none = .ok lines ∧
      ∃ xTicks, ticksOf (Series.domain series) (fun d => c.axis.timeTicks d c.xRange) =
        .ok xTicks ∧
      ∃ yTicks, ticksOf (c.valueDomain lines) (fun d => c.axis.valueTicks d c.yRange) =
        .ok yTicks ∧ c.laidOut series xLabel lines xTicks yTicks = p := by
  unfold picture
  rw [bind_eq_ok_iff]
  refine exists_congr fun lines => and_congr_right fun _ => ?_
  rw [bind_eq_ok_iff]
  refine exists_congr fun xTicks => and_congr_right fun _ => ?_
  rw [bind_eq_ok_iff]
  refine exists_congr fun yTicks => and_congr_right fun _ => ?_
  change Except.ok (c.laidOut series xLabel lines xTicks yTicks) = .ok p ↔ _
  rw [Except.ok.injEq]

theorem exists_polyline_eq {c : Chart} {series : List Series} {maxPoints : Nat} {xLabel : String}
    {p : Picture} (h : c.picture series maxPoints xLabel = .ok p) :
    ∃ lines, Series.reduce (aligned series) maxPoints none = .ok lines ∧
      ∀ polyline ∈ p.lines, ∃ line ∈ lines, ∃ times values,
        polyline = c.polyline times values line := by
  obtain ⟨lines, hlines, _, -, _, -, rfl⟩ := picture_eq_ok_iff.1 h
  refine ⟨lines, hlines, fun polyline hpolyline => ?_⟩
  dsimp only [laidOut] at hpolyline
  split at hpolyline
  · obtain ⟨line, hline, rfl⟩ := List.mem_map.1 hpolyline
    exact ⟨line, hline, _, _, rfl⟩
  · cases hpolyline

theorem exists_line_of_mem_lines {c : Chart} {series : List Series} {maxPoints : Nat}
    {xLabel : String} {p : Picture} (h : c.picture series maxPoints xLabel = .ok p) :
    ∃ lines, Series.reduce (aligned series) maxPoints none = .ok lines ∧
      ∀ polyline ∈ p.lines, ∃ line ∈ lines, polyline.points.length = line.points.length := by
  obtain ⟨lines, hlines, hdrawn⟩ := exists_polyline_eq h
  refine ⟨lines, hlines, fun polyline hpolyline => ?_⟩
  obtain ⟨line, hline, times, values, rfl⟩ := hdrawn polyline hpolyline
  exact ⟨line, hline, List.length_map _⟩

/-- Every line of reduced series has at least one point and at most as many as it may have, and
its chunks are not smaller than those that fill its budget; and so every polyline of a chart.  How
quotients of floats are rounded matters only where one point is allowed. -/
theorem lines_keep_budget {series : List Series} {maxPoints : Nat} (hmax : 1 ≤ maxPoints)
    (hround : maxPoints = 1 → ∀ s ∈ series, ∀ n ≤ s.points.length, QuotientKeeps n) :
    (∀ window lines, Series.reduce series maxPoints window = .ok lines → ∀ line ∈ lines,
        (1 ≤ line.points.length ∧ line.points.length ≤ maxPoints) ∧
          ∃ r : Series.Reduction series maxPoints window line,
            Series.baseChunk r.points.length maxPoints r.fraction ≤ r.chunk) ∧
      (∀ (c : Chart) (xLabel : String) (p : Picture),
        c.picture series maxPoints xLabel = .ok p → ∀ polyline ∈ p.lines,
          1 ≤ polyline.points.length ∧ polyline.points.length ≤ maxPoints) ∧
      ((∀ s ∈ series, s.offset + s.points.length ≤ unsignedMax) →
        ∀ window, ∃ lines, Series.reduce series maxPoints window = .ok lines) := by
  refine ⟨fun window lines hlines line hline => ?_, fun c xLabel p hp polyline hpolyline => ?_,
    fun hfits window => Series.exists_reduce hfits maxPoints window⟩
  · obtain ⟨r⟩ := Series.nonempty_reduction hmax hlines hline
    obtain ⟨hlength, hbase⟩ := r.keeps_budget hmax fun hone =>
      hround hone r.source r.source_mem _ (Series.length_visible_le window r.source)
    exact ⟨hlength, r, hbase⟩
  · obtain ⟨lines, hlines, hdrawn⟩ := exists_line_of_mem_lines hp
    obtain ⟨line, hline, hlength⟩ := hdrawn polyline hpolyline
    obtain ⟨r⟩ := Series.nonempty_reduction hmax hlines hline
    obtain ⟨t, ht, hpoints⟩ := points_of_mem_aligned r.source_mem
    have hkept := r.keeps_budget hmax fun hone =>
      hround hone t ht _ (hpoints ▸ Series.length_visible_le none r.source)
    exact hlength ▸ hkept.1

/-- Four readings, of which the first is the fourth since the origin. -/
def climb : Series := ⟨"climb", 3, [⟨0, 1⟩, ⟨1, 2⟩, ⟨2, 4⟩, ⟨3, 5⟩]⟩

theorem climb_keeps_budget : Series.reduce [climb] 1 none = .ok [⟨0, "climb", 3, [⟨0, 3⟩]⟩] ∧
    ∃ r : Series.Reduction [climb] 1 none ⟨0, "climb", 3, [⟨0, 3⟩]⟩,
      Series.baseChunk r.points.length 1 r.fraction ≤ r.chunk := by
  have hreduce : Series.reduce [climb] 1 none = .ok [⟨0, "climb", 3, [⟨0, 3⟩]⟩] := by
    decide +kernel
  have hround : (1 : Nat) = 1 → ∀ s ∈ [climb], ∀ n ≤ s.points.length, QuotientKeeps n := by
    intro _ s hs n hn
    obtain rfl := List.mem_singleton.1 hs
    have hlength : climb.points.length = 4 := rfl
    exact quotientKeeps_of_lt (by omega)
  exact ⟨hreduce, ((lines_keep_budget le_rfl hround).1 none _ hreduce _ List.mem_cons_self).2⟩

end PoolWatch.Chart
