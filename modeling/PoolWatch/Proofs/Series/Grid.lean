import PoolWatch.Proofs.Series.Budget
/-!
# The grid of chunks

Points that stand at whole numbers, one after another, are cut where their distance from the
origin is a multiple of the chunk: the offset of a series counts the distance of its first point.
A window that hides points before the first one that is seen moves the grid by as many steps,
since the offset is not counted anew.
-/

namespace PoolWatch

open PoolWatch.Numeric

/-! ## Whole numbers -/

/-- A float stands at the whole number that it is brought to both downwards and upwards. -/
def StandsAt (x : Float) (n : Int) : Prop :=
  (parts x).whole? .down = some n ∧ (parts x).whole? .up = some n

instance (x : Float) (n : Int) : Decidable (StandsAt x n) :=
  inferInstanceAs (Decidable (_ ∧ _))

theorem StandsAt.unique {x : Float} {m n : Int} (hm : StandsAt x m) (hn : StandsAt x n) : m = n :=
  Option.some.inj (hm.1.symm.trans hn.1)

/-- The points of a series stand at whole numbers, one after another, and its offset is the
distance of the first one from an origin. -/
def Series.OnGrid (origin : Int) (s : Series) : Prop :=
  ∀ q ∈ s.points.zipIdx, StandsAt q.1.x (origin + s.offset + q.2)

instance (origin : Int) (s : Series) : Decidable (s.OnGrid origin) :=
  inferInstanceAs (Decidable (∀ q ∈ s.points.zipIdx, _))

def Line.BreaksAt (line : Line) (n : Int) : Prop :=
  ∃ p ∈ line.points.tail, StandsAt p.x n

instance (line : Line) (n : Int) : Decidable (line.BreaksAt n) :=
  inferInstanceAs (Decidable (∃ p ∈ line.points.tail, _))

/-! ## Breaks -/

namespace Series.Reduction

variable {series : List Series} {maxPoints : Nat} {window : Option (Float × Float)}
  {line : Line} {origin n : Int}

/-- How many points are hidden before the first one that is seen. -/
def hidden (r : Reduction series maxPoints window line) : Nat := hiddenBefore window r.source

/-- A point that is seen, after the first one, stands at a whole number. -/
def Inside (r : Reduction series maxPoints window line) (n : Int) : Prop :=
  ∃ p ∈ r.points.tail, StandsAt p.x n

theorem inside_iff {r : Reduction series maxPoints window line} :
    r.Inside n ↔ ∃ i p, 0 < i ∧ r.points[i]? = some p ∧ StandsAt p.x n := by
  unfold Inside
  constructor
  · rintro ⟨p, hp, hstands⟩
    obtain ⟨i, hi⟩ := List.mem_iff_getElem?.1 hp
    rw [List.getElem?_tail] at hi
    exact ⟨i + 1, p, i.succ_pos, hi, hstands⟩
  · rintro ⟨i, p, hi, hp, hstands⟩
    obtain ⟨i, rfl⟩ := Nat.exists_eq_add_one_of_ne_zero hi.ne'
    rw [← List.getElem?_tail] at hp
    exact ⟨p, List.mem_of_getElem? hp, hstands⟩

theorem standsAt {r : Reduction series maxPoints window line} (hgrid : r.source.OnGrid origin)
    {i : Nat} {p : Point} (hp : r.points[i]? = some p) :
    StandsAt p.x (origin + r.hidden + (r.source.offset + i : Nat)) := by
  have hsource := getElem?_visible hp
  have hstands := hgrid _ (List.mk_mem_zipIdx_iff_getElem?.2 hsource)
  have hplace : origin + r.source.offset + ((hiddenBefore window r.source + i : Nat) : Int) =
      origin + r.hidden + (r.source.offset + i : Nat) := by
    rw [hidden]
    omega
  rwa [hplace] at hstands

theorem exists_mem_tail_points (hmax : 2 ≤ maxPoints) (r : Reduction series maxPoints window line)
    {x : Float} : (∃ q ∈ line.points.tail, q.x = x) ↔
      ∃ i p, 0 < i ∧ r.points[i]? = some p ∧ r.chunk ∣ r.source.offset + i ∧ p.x = x := by
  have hbase : baseChunk r.points.length maxPoints r.fraction ≤ r.chunk :=
    (r.keeps_budget (by omega) fun hone => by omega).2
  have hcounted : countedBefore maxPoints r.source = r.source.offset := if_neg (by omega)
  have hpoints : line.points = chunkMeans r.points r.source.offset r.chunk :=
    hcounted ▸ r.points_eq
  rw [hpoints]
  exact exists_mem_tail_chunkMeans (baseChunk_pos.trans_le hbase)

theorem exists_standsAt_of_mem_tail (hmax : 2 ≤ maxPoints)
    (r : Reduction series maxPoints window line) (hgrid : r.source.OnGrid origin) {q : Point}
    (hq : q ∈ line.points.tail) : ∃ n, StandsAt q.x n := by
  obtain ⟨i, p, -, hp, -, hx⟩ := (r.exists_mem_tail_points hmax).1 ⟨q, hq, rfl⟩
  exact ⟨_, hx ▸ standsAt hgrid hp⟩

theorem breaksAt_iff_of_standsAt (hmax : 2 ≤ maxPoints)
    (r : Reduction series maxPoints window line) {step : Int} (hstep : step ≠ 0)
    (hplace : ∀ i p, r.points[i]? = some p →
      StandsAt p.x (origin + step * (r.source.offset + i : Nat))) :
    line.BreaksAt n ↔ r.Inside n ∧ step * r.chunk ∣ n - origin := by
  -- where a point stands tells how many points are counted before it
  have hmultiple {i : Nat} {p : Point} (hp : r.points[i]? = some p) (hn : StandsAt p.x n) :
      step * r.chunk ∣ n - origin ↔ r.chunk ∣ r.source.offset + i := by
    rw [← (hplace i p hp).unique hn, add_sub_cancel_left, mul_dvd_mul_iff_left hstep,
      Int.natCast_dvd_natCast]
  rw [inside_iff]
  constructor
  · rintro ⟨q, hq, hstands⟩
    obtain ⟨i, p, hi, hp, hdvd, hx⟩ := (r.exists_mem_tail_points hmax).1 ⟨q, hq, rfl⟩
    rw [← hx] at hstands
    exact ⟨⟨i, p, hi, hp, hstands⟩, (hmultiple hp hstands).2 hdvd⟩
  · rintro ⟨⟨i, p, hi, hp, hstands⟩, hdvd⟩
    obtain ⟨q, hq, hx⟩ := (r.exists_mem_tail_points hmax).2
      ⟨i, p, hi, hp, (hmultiple hp hstands).1 hdvd, rfl⟩
    exact ⟨q, hq, hx ▸ hstands⟩

/-- A line breaks where the distance from the origin, less the points that are hidden, is a
multiple of its chunk. -/
theorem breaksAt_iff (hmax : 2 ≤ maxPoints) (r : Reduction series maxPoints window line)
    (hgrid : r.source.OnGrid origin) :
    line.BreaksAt n ↔ r.Inside n ∧ (r.chunk : Int) ∣ n - (origin + r.hidden) := by
  rw [r.breaksAt_iff_of_standsAt hmax one_ne_zero fun i p hp => ?_, one_mul]
  rw [one_mul]
  exact standsAt hgrid hp

end Series.Reduction

namespace Series

/-- Every line breaks on a grid that is counted from the origin and moved by the points that are
hidden.  So without a window lines of one chunk break at the same numbers, and in a window they do
if the points that are hidden of the one and of the other differ by a multiple of the chunk. -/
theorem lines_break_on_moved_grid {series : List Series} {maxPoints : Nat}
    {window : Option (Float × Float)} {lines : List Line} {origin : Int} (hmax : 2 ≤ maxPoints)
    (hgrid : ∀ s ∈ series, s.OnGrid origin) (hlines : reduce series maxPoints window = .ok lines) :
    (∀ line ∈ lines, Nonempty (Reduction series maxPoints window line) ∧
        ∀ r : Reduction series maxPoints window line,
          (window = none → r.hidden = 0) ∧ (∀ q ∈ line.points.tail, ∃ n, StandsAt q.x n) ∧
            ∀ n, line.BreaksAt n ↔ r.Inside n ∧ (r.chunk : Int) ∣ n - (origin + r.hidden)) ∧
      ∀ line₁ ∈ lines, ∀ line₂ ∈ lines, ∀ (r₁ : Reduction series maxPoints window line₁)
        (r₂ : Reduction series maxPoints window line₂), r₁.chunk = r₂.chunk →
          (r₁.chunk : Int) ∣ r₁.hidden - r₂.hidden →
            ∀ n, r₁.Inside n → r₂.Inside n → (line₁.BreaksAt n ↔ line₂.BreaksAt n) := by
  constructor
  · intro line hline
    refine ⟨nonempty_reduction (by omega) hlines hline, fun r => ?_⟩
    have hsource := hgrid r.source r.source_mem
    refine ⟨?_, fun q hq => r.exists_standsAt_of_mem_tail hmax hsource hq,
      fun n => r.breaksAt_iff hmax hsource⟩
    rintro rfl
    rfl
  · intro line₁ _ line₂ _ r₁ r₂ hchunk hhidden n hinside₁ hinside₂
    have hmoved : n - (origin + r₂.hidden) =
        n - (origin + r₁.hidden) + (r₁.hidden - r₂.hidden) := by omega
    rw [r₁.breaksAt_iff hmax (hgrid r₁.source r₁.source_mem),
      r₂.breaksAt_iff hmax (hgrid r₂.source r₂.source_mem), ← hchunk, hmoved,
      dvd_add_left hhidden]
    exact and_congr (iff_of_true hinside₁ hinside₂) Iff.rfl

/-- Seven readings from the origin on. -/
def early : Series := ⟨"early", 0, [⟨0, 1⟩, ⟨1, 1⟩, ⟨2, 1⟩, ⟨3, 1⟩, ⟨4, 1⟩, ⟨5, 1⟩, ⟨6, 1⟩]⟩

/-- Six readings that begin one step later. -/
def late : Series := ⟨"late", 1, [⟨1, 1⟩, ⟨2, 1⟩, ⟨3, 1⟩, ⟨4, 1⟩, ⟨5, 1⟩, ⟨6, 1⟩]⟩

def lineAt (index : Nat) (s : Series) (xs : List Float) : Line :=
  ⟨index, s.name, s.offset, xs.map (⟨·, 1⟩)⟩

theorem onGrid_early_late : ∀ s ∈ [early, late], s.OnGrid 0 := by decide +kernel

theorem reduce_early_late : reduce [early, late] 4 (some (1, 6)) =
    .ok [lineAt 0 early [1, 3, 5], lineAt 1 late [1, 2, 4, 6]] := by decide +kernel

theorem early_breaks_on_moved_grid :
    ∃ r : Reduction [early, late] 4 (some (1, 6)) (lineAt 0 early [1, 3, 5]),
      ∀ n, (lineAt 0 early [1, 3, 5]).BreaksAt n ↔
        r.Inside n ∧ (r.chunk : Int) ∣ n - (0 + r.hidden) := by
  have hlines := lines_break_on_moved_grid (by decide) onGrid_early_late reduce_early_late
  obtain ⟨⟨r⟩, hbreaks⟩ := hlines.1 _ List.mem_cons_self
  exact ⟨r, (hbreaks r).2.2⟩

def earlyInWindow : Reduction [early, late] 4 (some (1, 6)) (lineAt 0 early [1, 3, 5]) where
  source := early
  range := (1, 6)
  extent := (1, 6)
  chunk := 2
  source_eq := rfl
  name_eq := rfl
  offset_eq := rfl
  range_eq := rfl
  extent_eq := by decide +kernel
  covers := by decide +kernel
  chunk_eq := by decide +kernel
  points_eq := by decide +kernel

def lateInWindow : Reduction [early, late] 4 (some (1, 6)) (lineAt 1 late [1, 2, 4, 6]) where
  source := late
  range := (1, 6)
  extent := (1, 6)
  chunk := 2
  source_eq := rfl
  name_eq := rfl
  offset_eq := rfl
  range_eq := rfl
  extent_eq := by decide +kernel
  covers := by decide +kernel
  chunk_eq := by decide +kernel
  points_eq := by decide +kernel

/-- In a window that hides the first reading of the one series, the lines have the same chunk but
break at different numbers. -/
theorem window_moves_grid :
    (∀ s ∈ [early, late], s.OnGrid 0) ∧
      reduce [early, late] 4 (some (1, 6)) =
        .ok [lineAt 0 early [1, 3, 5], lineAt 1 late [1, 2, 4, 6]] ∧
      ∃ (r₁ : Reduction [early, late] 4 (some (1, 6)) (lineAt 0 early [1, 3, 5]))
        (r₂ : Reduction [early, late] 4 (some (1, 6)) (lineAt 1 late [1, 2, 4, 6])),
        r₁.chunk = r₂.chunk ∧ r₁.Inside 3 ∧ r₂.Inside 3 ∧
          (lineAt 0 early [1, 3, 5]).BreaksAt 3 ∧ ¬(r₁.chunk : Int) ∣ 3 - 0 ∧
          ¬(lineAt 1 late [1, 2, 4, 6]).BreaksAt 3 := by
  have hthree : StandsAt 3 3 := by decide +kernel
  have hearly : earlyInWindow.Inside 3 := ⟨⟨3, 1⟩, by decide +kernel, hthree⟩
  have hlate : lateInWindow.Inside 3 := ⟨⟨3, 1⟩, by decide +kernel, hthree⟩
  have hbreaks : (lineAt 0 early [1, 3, 5]).BreaksAt 3 := ⟨⟨3, 1⟩, by decide +kernel, hthree⟩
  have hnot : ¬(lineAt 1 late [1, 2, 4, 6]).BreaksAt 3 := by decide +kernel
  exact ⟨onGrid_early_late, reduce_early_late, earlyInWindow, lateInWindow, rfl, hearly, hlate,
    hbreaks, by decide, hnot⟩

end Series

end PoolWatch
