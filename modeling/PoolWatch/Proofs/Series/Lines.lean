import Mathlib.Data.List.Basic
import PoolWatch.Proofs.Numeric.FloatOrder
import PoolWatch.Series.Reduction
/-!
# Where lines come from

Every line is the reduction of one series: of the points that are seen of it, over a range that
all series share, by chunks of the size that is computed for it.
-/

namespace PoolWatch.Series

open PoolWatch.Numeric

/-! ## What is seen -/

theorem numbered_eq {α : Type} (start : Nat) (xs : List α) :
    numbered start xs = (xs.zipIdx start).map Prod.swap := by
  induction xs generalizing start with
  | nil => rfl
  | cons x xs ih => rw [numbered, ih, List.zipIdx_cons, List.map_cons, Prod.swap_prod_mk]

theorem mem_seen_iff {window : Option (Float × Float)} {series : List Series} {index : Nat}
    {s : Series} {points : List Point} : (index, s, points) ∈ seen window series ↔
      series[index]? = some s ∧ points = visible window s ∧ points ≠ [] := by
  rw [seen, numbered_eq, List.mem_filterMap]
  constructor
  · rintro ⟨⟨i, t⟩, hmem, hpoints⟩
    obtain ⟨⟨t', i'⟩, hzip, hswap⟩ := List.mem_map.1 hmem
    obtain ⟨rfl, rfl⟩ : i' = i ∧ t' = t := Prod.mk.inj hswap
    dsimp only at hpoints
    split at hpoints
    · cases hpoints
    next hvisible =>
      obtain ⟨rfl, rfl, rfl⟩ : i' = index ∧ t' = s ∧ visible window t' = points := by
        simpa using hpoints
      exact ⟨List.mk_mem_zipIdx_iff_getElem?.1 hzip, rfl, hvisible⟩
  · rintro ⟨hsource, rfl, hne⟩
    have hzip : (s, index) ∈ series.zipIdx := List.mk_mem_zipIdx_iff_getElem?.2 hsource
    refine ⟨(index, s), List.mem_map.2 ⟨_, hzip, rfl⟩, ?_⟩
    dsimp only
    split
    next hnil => exact absurd hnil hne
    next => rfl

/-- How many points a window hides before the first one that is seen. -/
def hiddenBefore (window : Option (Float × Float)) (s : Series) : Nat :=
  match window with
  | none => 0
  | some w => bisect (fun p => p.x < w.1) s.points

theorem getElem?_visible {window : Option (Float × Float)} {s : Series} {i : Nat} {p : Point}
    (h : (visible window s)[i]? = some p) : s.points[hiddenBefore window s + i]? = some p := by
  cases window with
  | none =>
    show s.points[0 + i]? = some p
    rwa [Nat.zero_add]
  | some w =>
    have hclip : (clip s.points w)[i]? = some p := h
    rw [clip, List.getElem?_drop, List.getElem?_take] at hclip
    exact (Option.ite_none_right_eq_some.1 hclip).2

theorem length_visible_le (window : Option (Float × Float)) (s : Series) :
    (visible window s).length ≤ s.points.length := by
  cases window with
  | none => exact le_rfl
  | some w =>
    show (clip s.points w).length ≤ s.points.length
    rw [clip, List.length_drop, List.length_take]
    omega

def rangeOf (window : Option (Float × Float)) (series : List Series) : Option (Float × Float) :=
  window.or (hull ((seen window series).filterMap fun (_, _, points) => timeExtent points))

theorem lesser_one_le (x : Float) : lesser x 1 ≤ 1 := by
  unfold lesser
  split
  next hless =>
    have hnumber : (1 : Float).isNaN = false := rfl
    rw [hnumber, Bool.false_or, decide_eq_true_iff] at hless
    obtain ⟨hx, hone, hplace⟩ := float_lt_iff.1 hless
    exact float_le_iff.2 ⟨hx, hone, hplace.le⟩
  next => exact float_le_iff.2 ⟨rfl, rfl, le_rfl⟩

theorem coverage_le_one (range extent : Float × Float) : coverage range extent ≤ 1 := by
  unfold coverage
  dsimp only
  split
  · exact lesser_one_le _
  · exact float_le_iff.2 ⟨rfl, rfl, le_rfl⟩

/-! ## Reductions -/

/-- How many points are counted before the first one. A single chunk has no boundaries. -/
def countedBefore (maxPoints : Nat) (s : Series) : Nat := if maxPoints = 1 then 0 else s.offset

/-- How a line comes from a series. -/
structure Reduction (series : List Series) (maxPoints : Nat) (window : Option (Float × Float))
    (line : Line) where
  source : Series
  range : Float × Float
  extent : Float × Float
  chunk : Nat
  source_eq : series[line.index]? = some source
  name_eq : line.name = source.name
  offset_eq : line.offset = source.offset
  range_eq : rangeOf window series = some range
  extent_eq : timeExtent (visible window source) = some extent
  covers : 0 < coverage range extent
  chunk_eq : chunkSize (visible window source).length (countedBefore maxPoints source) maxPoints
    (coverage range extent) = .ok chunk
  points_eq : line.points =
    chunkMeans (visible window source) (countedBefore maxPoints source) chunk

namespace Reduction

variable {series : List Series} {maxPoints : Nat} {window : Option (Float × Float)} {line : Line}
  (r : Reduction series maxPoints window line)

def points : List Point := visible window r.source

/-- The part of the range that the points cover. -/
def fraction : Float := coverage r.range r.extent

theorem source_mem : r.source ∈ series := List.mem_of_getElem? r.source_eq

theorem points_ne_nil : r.points ≠ [] := by
  intro hnil
  have hextent := r.extent_eq
  rw [← points, hnil] at hextent
  cases hextent

end Reduction

section

variable {series : List Series} {maxPoints : Nat} {window : Option (Float × Float)}
  {range : Float × Float} {index : Nat} {s : Series} {points : List Point} {line : Line}
  {items : List (Nat × Series × List Point)} {lines : List Line}

theorem reducePoints_eq_ok {fraction : Float} {reduced : List Point} {offset : Nat} :
    reducePoints points offset maxPoints fraction = .ok reduced ↔
      ∃ chunk, chunkSize points.length (if maxPoints = 1 then 0 else offset) maxPoints fraction =
          .ok chunk ∧
        chunkMeans points (if maxPoints = 1 then 0 else offset) chunk = reduced := by
  unfold reducePoints
  simp [bind_eq_ok_iff, pure, Except.pure]

theorem reduceOne_eq_some_iff : reduceOne range maxPoints index s points = .ok (some line) ↔
    ∃ extent chunk, timeExtent points = some extent ∧ 0 < coverage range extent ∧
      chunkSize points.length (countedBefore maxPoints s) maxPoints (coverage range extent) =
        .ok chunk ∧
      line = ⟨index, s.name, s.offset, chunkMeans points (countedBefore maxPoints s) chunk⟩ := by
  unfold reduceOne
  split
  next hextent => simp [hextent]
  next extent hextent =>
    dsimp only
    split
    next hcovers =>
      constructor
      · intro h
        obtain ⟨reduced, hreduced, hline⟩ := map_eq_ok_iff.1 h
        obtain ⟨chunk, hchunk, rfl⟩ := reducePoints_eq_ok.1 hreduced
        exact ⟨extent, chunk, hextent, hcovers, hchunk, (Option.some.inj hline).symm⟩
      · rintro ⟨extent', chunk, hextent', -, hchunk, rfl⟩
        obtain rfl : extent = extent' := Option.some.inj (hextent.symm.trans hextent')
        exact map_eq_ok_iff.2 ⟨_, reducePoints_eq_ok.2 ⟨chunk, hchunk, rfl⟩, rfl⟩
    next hcovers => simp [hextent, hcovers]

theorem reduceAll_cons_eq_ok {item : Nat × Series × List Point} :
    reduceAll range maxPoints (item :: items) = .ok lines ↔
      ∃ line rest, reduceOne range maxPoints item.1 item.2.1 item.2.2 = .ok line ∧
        reduceAll range maxPoints items = .ok rest ∧ line.toList ++ rest = lines := by
  obtain ⟨index, s, points⟩ := item
  simp [reduceAll, bind_eq_ok_iff, pure, Except.pure]

theorem mem_reduceAll_iff (h : reduceAll range maxPoints items = .ok lines) :
    line ∈ lines ↔ ∃ index s points, (index, s, points) ∈ items ∧
      reduceOne range maxPoints index s points = .ok (some line) := by
  induction items generalizing lines with
  | nil =>
    obtain rfl : [] = lines := Except.ok.inj h
    simp
  | cons item items ih =>
    obtain ⟨first, rest, hfirst, hrest, rfl⟩ := reduceAll_cons_eq_ok.1 h
    rw [List.mem_append, ih hrest, Option.mem_toList]
    constructor
    · rintro (hline | ⟨index, s, points, hitem, hone⟩)
      · exact ⟨_, _, _, List.mem_cons_self, hfirst.trans (congrArg _ hline)⟩
      · exact ⟨index, s, points, List.mem_cons_of_mem item hitem, hone⟩
    · rintro ⟨index, s, points, hitem, hone⟩
      obtain rfl | hitem := List.mem_cons.1 hitem
      · exact .inl (Except.ok.inj (hfirst.symm.trans hone))
      · exact .inr ⟨index, s, points, hitem, hone⟩

theorem reduce_eq_ok (hmax : 0 < maxPoints) :
    reduce series maxPoints window = .ok lines ↔
      (rangeOf window series = none ∧ lines = []) ∨
        ∃ range, rangeOf window series = some range ∧
          reduceAll range maxPoints (seen window series) = .ok lines := by
  unfold reduce
  rw [if_neg hmax.ne']
  show (match rangeOf window series with
    | none => Except.ok []
    | some range => reduceAll range maxPoints (seen window series)) = .ok lines ↔ _
  cases rangeOf window series with
  | none => simp [eq_comm]
  | some range => simp

/-! Lines are found when the chunk of each of them is. -/

theorem exists_reduceOne_iff :
    (∃ line, reduceOne range maxPoints index s points = .ok line) ↔
      ∀ extent, timeExtent points = some extent → 0 < coverage range extent →
        ∃ chunk, chunkSize points.length (countedBefore maxPoints s) maxPoints
          (coverage range extent) = .ok chunk := by
  unfold reduceOne
  split
  next hextent => simp [hextent]
  next extent hextent =>
    dsimp only
    split
    next hcovers =>
      simp only [hextent, Option.some.injEq, forall_eq', hcovers, true_imp_iff]
      constructor
      · rintro ⟨line, hline⟩
        obtain ⟨reduced, hreduced, -⟩ := map_eq_ok_iff.1 hline
        obtain ⟨chunk, hchunk, -⟩ := reducePoints_eq_ok.1 hreduced
        exact ⟨chunk, hchunk⟩
      · rintro ⟨chunk, hchunk⟩
        exact ⟨_, map_eq_ok_iff.2 ⟨_, reducePoints_eq_ok.2 ⟨chunk, hchunk, rfl⟩, rfl⟩⟩
    next hcovers => simp [hextent, hcovers]

theorem exists_reduceAll_iff :
    (∃ lines, reduceAll range maxPoints items = .ok lines) ↔
      ∀ item ∈ items, ∃ line, reduceOne range maxPoints item.1 item.2.1 item.2.2 = .ok line := by
  induction items with
  | nil => simp [reduceAll]
  | cons item items ih =>
    rw [List.forall_mem_cons, ← ih]
    constructor
    · rintro ⟨lines, hlines⟩
      obtain ⟨line, rest, hline, hrest, -⟩ := reduceAll_cons_eq_ok.1 hlines
      exact ⟨⟨line, hline⟩, rest, hrest⟩
    · rintro ⟨⟨line, hline⟩, rest, hrest⟩
      exact ⟨_, reduceAll_cons_eq_ok.2 ⟨line, rest, hline, hrest, rfl⟩⟩

theorem exists_reduce_iff (hmax : 0 < maxPoints) :
    (∃ lines, reduce series maxPoints window = .ok lines) ↔
      ∀ s ∈ series, ∀ range extent, rangeOf window series = some range →
        timeExtent (visible window s) = some extent → 0 < coverage range extent →
          ∃ chunk, chunkSize (visible window s).length (countedBefore maxPoints s) maxPoints
            (coverage range extent) = .ok chunk := by
  simp only [reduce_eq_ok hmax]
  cases hrange : rangeOf window series with
  | none => simp
  | some range =>
    simp only [reduceCtorEq, false_and, Option.some.injEq, exists_eq_left', false_or]
    rw [exists_reduceAll_iff]
    constructor
    · rintro h s hs _ extent rfl hextent
      obtain ⟨index, hindex⟩ := List.mem_iff_getElem?.1 hs
      have hne : visible window s ≠ [] := by
        rintro hnil
        rw [hnil] at hextent
        cases hextent
      exact exists_reduceOne_iff.1 (h (index, s, visible window s)
        (mem_seen_iff.2 ⟨hindex, rfl, hne⟩)) extent hextent
    · rintro h ⟨index, s, points⟩ hitem
      obtain ⟨hindex, rfl, -⟩ := mem_seen_iff.1 hitem
      exact exists_reduceOne_iff.2 fun extent =>
        h s (List.mem_of_getElem? hindex) range extent rfl

/-- Every line is a reduction of a series. -/
theorem nonempty_reduction (hmax : 0 < maxPoints) (h : reduce series maxPoints window = .ok lines)
    (hline : line ∈ lines) : Nonempty (Reduction series maxPoints window line) := by
  obtain ⟨-, rfl⟩ | ⟨range, hrange, hall⟩ := (reduce_eq_ok hmax).1 h
  · cases hline
  · obtain ⟨index, s, points, hseen, hone⟩ := (mem_reduceAll_iff hall).1 hline
    obtain ⟨hsource, rfl, -⟩ := mem_seen_iff.1 hseen
    obtain ⟨extent, chunk, hextent, hcovers, hchunk, rfl⟩ := reduceOne_eq_some_iff.1 hone
    exact ⟨{
      source := s
      range := range
      extent := extent
      chunk := chunk
      source_eq := hsource
      name_eq := rfl
      offset_eq := rfl
      range_eq := hrange
      extent_eq := hextent
      covers := hcovers
      chunk_eq := hchunk
      points_eq := rfl }⟩

end

end PoolWatch.Series
