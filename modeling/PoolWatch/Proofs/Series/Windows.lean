import PoolWatch.Proofs.Series.Budget
/-!
# What a window selects

On points in the order of time, those before a boundary come first, and halving finds how many they
are.  So what is cut out of the points by the two ends of a window are the points in it, also when
the ends are the wrong way round.  Lines over a window are those of what the window selects.
-/

namespace PoolWatch.Series

open PoolWatch.Numeric

/-! ## Boundaries -/

section

variable {α : Type} {before : α → Bool} {xs : List α} {x : α}

/-- The elements before a boundary come first. -/
def SplitBy (before : α → Bool) (xs : List α) : Prop :=
  xs.Pairwise fun x y => before y = true → before x = true

theorem SplitBy.tail (h : SplitBy before (x :: xs)) : SplitBy before xs :=
  (List.pairwise_cons.1 h).2

theorem SplitBy.drop (h : SplitBy before xs) (n : Nat) : SplitBy before (xs.drop n) :=
  h.sublist (List.drop_sublist n xs)

theorem SplitBy.forall_not (h : SplitBy before (x :: xs)) (hx : before x = false) :
    ∀ y ∈ x :: xs, ¬ before y = true := by
  intro y hy hbefore
  obtain rfl | hy := List.mem_cons.1 hy
  · exact absurd hbefore (by rw [hx]; decide)
  · exact absurd ((List.pairwise_cons.1 h).1 y hy hbefore) (by rw [hx]; decide)

theorem SplitBy.take_countP (h : SplitBy before xs) :
    xs.take (xs.countP before) = xs.filter before := by
  induction xs with
  | nil => rfl
  | cons x xs ih =>
    cases hx : before x with
    | true =>
      rw [List.countP_cons_of_pos hx, List.filter_cons_of_pos hx, List.take_succ_cons, ih h.tail]
    | false =>
      rw [List.countP_eq_zero.2 (h.forall_not hx), List.take_zero,
        List.filter_eq_nil_iff.2 (h.forall_not hx)]

theorem SplitBy.drop_countP (h : SplitBy before xs) :
    xs.drop (xs.countP before) = xs.filter fun x => !before x := by
  induction xs with
  | nil => rfl
  | cons x xs ih =>
    cases hx : before x with
    | true =>
      rw [List.countP_cons_of_pos hx, List.filter_cons_of_neg (by simp [hx]), List.drop_succ_cons,
        ih h.tail]
    | false =>
      rw [List.countP_eq_zero.2 (h.forall_not hx), List.drop_zero]
      exact (List.filter_eq_self.2 fun y hy => by simpa using h.forall_not hx y hy).symm

theorem SplitBy.countP_drop (h : SplitBy before xs) (n : Nat) :
    (xs.drop n).countP before = xs.countP before - n := by
  induction xs generalizing n with
  | nil => simp
  | cons x xs ih =>
    cases n with
    | zero => rfl
    | succ n =>
      rw [List.drop_succ_cons, ih h.tail]
      cases hx : before x with
      | true => rw [List.countP_cons_of_pos hx, Nat.add_sub_add_right]
      | false =>
        have hnone := List.forall_mem_cons.1 (h.forall_not hx)
        rw [List.countP_eq_zero.2 (h.forall_not hx), List.countP_eq_zero.2 hnone.2, Nat.zero_sub,
          Nat.zero_sub]

theorem SplitBy.any_getElem?_iff (h : SplitBy before xs) (i : Nat) :
    xs[i]?.any before = true ↔ i < xs.countP before := by
  induction xs generalizing i with
  | nil => simp
  | cons x xs ih =>
    cases hx : before x with
    | true =>
      rw [List.countP_cons_of_pos hx]
      cases i with
      | zero => simp [hx]
      | succ i => rw [List.getElem?_cons_succ, ih h.tail, Nat.add_lt_add_iff_right]
    | false =>
      rw [List.countP_eq_zero.2 (h.forall_not hx)]
      refine iff_of_false (fun hany => ?_) (Nat.not_lt_zero i)
      obtain ⟨y, hy, hbefore⟩ := (Option.any_eq_true before (x :: xs)[i]?).1 hany
      exact h.forall_not hx y (List.mem_of_getElem? hy) hbefore

theorem SplitBy.bisectFrom (h : SplitBy before xs) {fuel : Nat} :
    ∀ {base size : Nat}, size ≤ fuel → (base = 0 ∨ base < xs.countP before) →
      xs.countP before ≤ base + size →
      let last := Series.bisectFrom before xs fuel base size
      (last = 0 ∨ last < xs.countP before) ∧ xs.countP before ≤ last + 1 := by
  induction fuel with
  | zero =>
    intro base size hsize hbase hcount
    rw [Series.bisectFrom]
    exact ⟨hbase, by omega⟩
  | succ fuel ih =>
    intro base size hsize hbase hcount
    rw [Series.bisectFrom]
    by_cases hone : size ≤ 1
    · rw [if_pos hone]
      exact ⟨hbase, by omega⟩
    · rw [if_neg hone]
      dsimp only
      by_cases hmiddle : base + size / 2 < xs.countP before
      · rw [if_pos ((h.any_getElem?_iff _).2 hmiddle)]
        exact ih (by omega) (.inr hmiddle) (by omega)
      · rw [if_neg (mt (h.any_getElem?_iff _).1 hmiddle)]
        exact ih (by omega) hbase (by omega)

theorem SplitBy.bisect_eq (h : SplitBy before xs) : bisect before xs = xs.countP before := by
  obtain ⟨hlast, hcount⟩ :=
    h.bisectFrom le_rfl (.inl rfl) (List.countP_le_length.trans_eq (Nat.zero_add _).symm)
  unfold bisect
  dsimp only at hlast hcount ⊢
  by_cases hbefore : Series.bisectFrom before xs xs.length 0 xs.length < xs.countP before
  · rw [if_pos ((h.any_getElem?_iff _).2 hbefore)]
    omega
  · rw [if_neg (mt (h.any_getElem?_iff _).1 hbefore)]
    omega

end

/-! ## Points in a window -/

/-- The points have times, and they are in the order of time. -/
structure IsOrdered (points : List Point) : Prop where
  numbers : ∀ p ∈ points, p.x.isNaN = false
  ascending : points.Pairwise fun p q => p.x ≤ q.x

instance (points : List Point) : Decidable (IsOrdered points) :=
  decidable_of_iff ((∀ p ∈ points, p.x.isNaN = false) ∧ points.Pairwise fun p q => p.x ≤ q.x)
    ⟨fun h => ⟨h.1, h.2⟩, fun h => ⟨h.numbers, h.ascending⟩⟩

/-- The points of a series that stand neither before a window nor behind it. -/
def within (window : Float × Float) (s : Series) : Series :=
  { s with points := s.points.filter fun p => ¬ p.x < window.1 ∧ p.x ≤ window.2 }

section

variable {points : List Point} {window : Float × Float} {s : Series}

theorem IsOrdered.filter (h : IsOrdered points) (inside : Point → Bool) :
    IsOrdered (points.filter inside) where
  numbers p hp := h.numbers p (List.mem_of_mem_filter hp)
  ascending := h.ascending.filter inside

theorem IsOrdered.splitBy_lt (h : IsOrdered points) (x : Float) :
    SplitBy (fun p => p.x < x) points :=
  h.ascending.imp fun hle hlt =>
    decide_eq_true (float_lt_of_le_of_lt hle (of_decide_eq_true hlt))

theorem IsOrdered.splitBy_le (h : IsOrdered points) (x : Float) :
    SplitBy (fun p => p.x ≤ x) points :=
  h.ascending.imp fun hle hle' =>
    decide_eq_true (float_le_trans hle (of_decide_eq_true hle'))

/-- A window whose ends cross is cut out as nothing, since then no point is left between them. -/
theorem IsOrdered.clip_eq (h : IsOrdered points) (window : Float × Float) :
    clip points window = points.filter fun p => ¬ p.x < window.1 ∧ p.x ≤ window.2 := by
  have hlow := h.splitBy_lt window.1
  have hhigh := h.splitBy_le window.2
  unfold clip
  rw [hlow.bisect_eq, hhigh.bisect_eq, List.drop_take, ← hhigh.countP_drop,
    (hhigh.drop _).take_countP, hlow.drop_countP, List.filter_filter]
  congr 1
  funext p
  simp [Bool.and_comm]

theorem visible_eq_within (h : IsOrdered s.points) :
    visible (some window) s = (s.within window).points :=
  h.clip_eq window

theorem visible_within (h : IsOrdered s.points) :
    visible (some window) (s.within window) = visible (some window) s := by
  rw [visible_eq_within (h.filter _), visible_eq_within h]
  simp [within]

theorem points_within (h : IsOrdered s.points) (hlow : window.1.isNaN = false) :
    (s.within window).points = s.points.filter fun p => window.1 ≤ p.x ∧ p.x ≤ window.2 := by
  refine List.filter_congr fun p hp => ?_
  have hlower : ¬ p.x < window.1 ↔ window.1 ≤ p.x :=
    ⟨float_le_of_not_lt (h.numbers p hp) hlow, not_float_lt_of_le⟩
  exact decide_eq_decide.2 (and_congr hlower Iff.rfl)

end

/-! ## Lines over a window -/

section

variable {series : List Series} {maxPoints : Nat} {window : Option (Float × Float)}
  {range : Float × Float} {f : Series → Series} {items : List (Nat × Series × List Point)}
  {lines : List Line} {points : List Point}

theorem numbered_map {α β : Type} (f : α → β) (start : Nat) (xs : List α) :
    numbered start (xs.map f) = (numbered start xs).map (Prod.map id f) := by
  induction xs generalizing start with
  | nil => rfl
  | cons x xs ih =>
    rw [List.map_cons, numbered, ih]
    rfl

theorem map_fst_numbered {α : Type} (start : Nat) (xs : List α) :
    (numbered start xs).map Prod.fst = List.range' start xs.length := by
  rw [numbered_eq, List.map_map]
  exact List.zipIdx_map_snd start xs

theorem seen_map (h : ∀ s ∈ series, visible window (f s) = visible window s) :
    seen window (series.map f) = (seen window series).map (Prod.map id (Prod.map f id)) := by
  unfold seen
  rw [numbered_map, List.filterMap_map, List.map_filterMap]
  refine List.filterMap_congr fun item hitem => ?_
  obtain ⟨index, s⟩ := item
  have hs : s ∈ series := by
    rw [numbered_eq] at hitem
    obtain ⟨⟨s', index'⟩, hzip, hswap⟩ := List.mem_map.1 hitem
    obtain ⟨rfl, rfl⟩ := Prod.mk.inj hswap
    exact List.mem_of_getElem? (List.mk_mem_zipIdx_iff_getElem?.1 hzip)
  dsimp only [Function.comp_apply, Prod.map_apply, id_eq]
  rw [h s hs]
  cases visible window s <;> rfl

theorem reduceAll_map (hname : ∀ s, (f s).name = s.name) (hoffset : ∀ s, (f s).offset = s.offset) :
    reduceAll range maxPoints (items.map (Prod.map id (Prod.map f id))) =
      reduceAll range maxPoints items := by
  induction items with
  | nil => rfl
  | cons item items ih =>
    obtain ⟨index, s, points⟩ := item
    rw [List.map_cons, reduceAll, ih, reduceAll]
    simp only [Prod.map_apply, id_eq, reduceOne, hname, hoffset]

theorem map_index_sublist (h : reduceAll range maxPoints items = .ok lines) :
    (lines.map (·.index)).Sublist (items.map Prod.fst) := by
  induction items generalizing lines with
  | nil =>
    obtain rfl : [] = lines := Except.ok.inj h
    exact .slnil
  | cons item items ih =>
    obtain ⟨first, rest, hfirst, hrest, rfl⟩ := reduceAll_cons_eq_ok.1 h
    cases first with
    | none => exact (ih hrest).cons _
    | some line =>
      obtain ⟨_, _, -, -, -, rfl⟩ := reduceOne_eq_some_iff.1 hfirst
      exact (ih hrest).cons_cons _

theorem pairwise_fst_seen (window : Option (Float × Float)) (series : List Series) :
    ((seen window series).map Prod.fst).Pairwise (· < ·) := by
  rw [List.pairwise_map]
  refine List.pairwise_filterMap.2 ?_
  have hnumbered : ((numbered 0 series).map Prod.fst).Pairwise (· < ·) := by
    rw [map_fst_numbered]
    exact List.pairwise_lt_range'
  refine (List.pairwise_map.1 hnumbered).imp ?_
  rintro ⟨i, s⟩ ⟨j, t⟩ hlt item hitem item' hitem'
  dsimp only at hitem hitem' hlt
  split at hitem
  · cases hitem
  · split at hitem'
    · cases hitem'
    · obtain rfl := Option.some.inj hitem
      obtain rfl := Option.some.inj hitem'
      exact hlt

theorem timeExtent_eq_none_iff : timeExtent points = none ↔ points = [] := by
  cases points with
  | nil => simp [timeExtent, hull]
  | cons p ps => simp [timeExtent, hull]

/-- The lines come in the order of their sources. -/
theorem pairwise_index (hmax : 0 < maxPoints) (h : reduce series maxPoints window = .ok lines) :
    lines.Pairwise fun l m => l.index < m.index := by
  obtain ⟨-, rfl⟩ | ⟨range, -, hall⟩ := (reduce_eq_ok hmax).1 h
  · exact .nil
  · exact List.pairwise_map.1 ((pairwise_fst_seen window series).sublist (map_index_sublist hall))

theorem exists_line_iff (hmax : 0 < maxPoints) (h : reduce series maxPoints window = .ok lines)
    {index : Nat} {s : Series} (hs : series[index]? = some s)
    (hrange : rangeOf window series = some range) :
    (∃ line ∈ lines, line.index = index) ↔
      ∃ extent, timeExtent (visible window s) = some extent ∧ 0 < coverage range extent := by
  constructor
  · rintro ⟨line, hline, rfl⟩
    obtain ⟨r⟩ := nonempty_reduction hmax h hline
    obtain rfl : r.source = s := Option.some.inj (r.source_eq.symm.trans hs)
    obtain rfl : r.range = range := Option.some.inj (r.range_eq.symm.trans hrange)
    exact ⟨r.extent, r.extent_eq, r.covers⟩
  · rintro ⟨extent, hextent, hcovers⟩
    have hfound := (exists_reduce_iff hmax).1 ⟨lines, h⟩ s (List.mem_of_getElem? hs)
    obtain ⟨chunk, hchunk⟩ := hfound range extent hrange hextent hcovers
    have hall : reduceAll range maxPoints (seen window series) = .ok lines := by
      obtain ⟨hnone, -⟩ | ⟨range', hrange', hall⟩ := (reduce_eq_ok hmax).1 h
      · cases hnone.symm.trans hrange
      · exact Option.some.inj (hrange'.symm.trans hrange) ▸ hall
    have hne : visible window s ≠ [] := fun hnil => by
      rw [timeExtent_eq_none_iff.2 hnil] at hextent
      cases hextent
    have hseen := mem_seen_iff.2 ⟨hs, rfl, hne⟩
    exact ⟨_, (mem_reduceAll_iff hall).2 ⟨_, _, _, hseen,
      reduceOne_eq_some_iff.2 ⟨extent, chunk, hextent, hcovers, hchunk, rfl⟩⟩, rfl⟩

end

/-- Over a window, series whose points are in the order of time have the same lines as when they are
left with the points in it: those from its lower to its upper end, if it begins at a number.  The
lines come in the order of the series, with their places, names and offsets, and a series has none
if and only if no point is left or the points that are left cover nothing. -/
theorem lines_of_window {series : List Series} (hordered : ∀ s ∈ series, IsOrdered s.points)
    {maxPoints : Nat} (hmax : 1 ≤ maxPoints) (window : Float × Float) :
    (window.1.isNaN = false → ∀ s ∈ series, (s.within window).points =
        s.points.filter fun p => window.1 ≤ p.x ∧ p.x ≤ window.2) ∧
      reduce series maxPoints (some window) =
        reduce (series.map (within window)) maxPoints (some window) ∧
      ((∀ s ∈ series, s.offset + s.points.length ≤ unsignedMax) →
        ∃ lines, reduce series maxPoints (some window) = .ok lines) ∧
      ∀ lines, reduce series maxPoints (some window) = .ok lines →
        (lines.Pairwise fun l m => l.index < m.index) ∧
          (∀ line ∈ lines, ∃ s, series[line.index]? = some s ∧ line.name = s.name ∧
            line.offset = s.offset) ∧
          ∀ index s, series[index]? = some s →
            ((∀ line ∈ lines, line.index ≠ index) ↔ (s.within window).points = [] ∨
              ∃ extent, timeExtent (s.within window).points = some extent ∧
                ¬ 0 < coverage window extent) := by
  have hrange (series : List Series) : rangeOf (some window) series = some window := rfl
  refine ⟨fun hlow s hs => points_within (hordered s hs) hlow, ?_,
    fun hfits => exists_reduce hfits maxPoints _,
    fun lines hlines => ⟨?_, fun line hline => ?_, ?_⟩⟩
  · have hseen := seen_map (f := within window) fun s hs => visible_within (hordered s hs)
    unfold reduce
    rw [if_neg (by omega), if_neg (by omega)]
    dsimp only [Option.or]
    rw [hseen]
    exact (reduceAll_map (f := within window) (fun _ => rfl) fun _ => rfl).symm
  · exact pairwise_index hmax hlines
  · obtain ⟨r⟩ := nonempty_reduction hmax hlines hline
    exact ⟨r.source, r.source_eq, r.name_eq, r.offset_eq⟩
  · intro index s hs
    have hpoints : visible (some window) s = (s.within window).points :=
      visible_eq_within (hordered s (List.mem_of_getElem? hs))
    have hline := exists_line_iff hmax hlines hs (hrange series)
    rw [hpoints] at hline
    have hmissing : (∀ line ∈ lines, line.index ≠ index) ↔
        ¬ ∃ line ∈ lines, line.index = index := by simp
    rw [hmissing, hline, ← timeExtent_eq_none_iff]
    cases timeExtent (s.within window).points <;> simp

/-- Of three series one ends before the window from one to three, and one has a single point in
it. -/
def around : List Series :=
  [⟨"gone", 0, [⟨-1, 1⟩, ⟨0, 1⟩]⟩, ⟨"there", 0, [⟨0, 1⟩, ⟨1, 2⟩, ⟨1, 4⟩, ⟨3, 5⟩, ⟨4, 6⟩]⟩,
    ⟨"dot", 0, [⟨0, 1⟩, ⟨2, 3⟩, ⟨7, 1⟩]⟩]

theorem lines_of_window_around :
    (∀ s ∈ around, IsOrdered s.points) ∧
      reduce around 9 (some (1, 3)) = .ok [⟨1, "there", 0, [⟨1, 2⟩, ⟨1, 4⟩, ⟨3, 5⟩]⟩] ∧
      reduce (around.map (within (1, 3))) 9 (some (1, 3)) =
        .ok [⟨1, "there", 0, [⟨1, 2⟩, ⟨1, 4⟩, ⟨3, 5⟩]⟩] ∧
      ∃ s extent, around[2]? = some s ∧ timeExtent (s.within (1, 3)).points = some extent ∧
        ¬ 0 < coverage (1, 3) extent := by
  have hordered : ∀ s ∈ around, IsOrdered s.points := by decide +kernel
  have hlines : reduce around 9 (some (1, 3)) =
      .ok [⟨1, "there", 0, [⟨1, 2⟩, ⟨1, 4⟩, ⟨3, 5⟩]⟩] := by decide +kernel
  obtain ⟨-, hsame, -, hspec⟩ := lines_of_window hordered (by decide : 1 ≤ 9) (1, 3)
  have hmissing := ((hspec _ hlines).2.2 2 _ rfl).1 (by decide)
  obtain hnone | ⟨extent, hextent, hcovers⟩ := hmissing
  · exact absurd hnone (by decide +kernel)
  · exact ⟨hordered, hlines, hsame ▸ hlines, _, extent, rfl, hextent, hcovers⟩

end PoolWatch.Series
