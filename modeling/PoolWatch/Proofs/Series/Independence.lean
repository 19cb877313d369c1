import PoolWatch.Proofs.Series.Extents
/-!
# Series do not depend on each other

All that a line takes from the other series is the range of all times, and of it only which numbers
its ends are.  So lists of series that reach over the same times reduce the series that they have
in common to the same points, and a list in another order has the same lines in another order.
-/

namespace PoolWatch.Series

open PoolWatch.Numeric

/-! ## What a series is reduced to -/

/-- Among some series, the points of a series become those of a line. -/
def ReducesTo (series : List Series) (maxPoints : Nat) (s : Series) (points : List Point) : Prop :=
  0 < maxPoints ∧ ∃ range extent chunk, domain series = some range ∧
    timeExtent s.points = some extent ∧ 0 < coverage range extent ∧
    chunkSize s.points.length (countedBefore maxPoints s) maxPoints (coverage range extent) =
      .ok chunk ∧
    points = chunkMeans s.points (countedBefore maxPoints s) chunk

/-- A line with some points is drawn for the series at a place. -/
def Shows (lines : List Line) (index : Nat) (points : List Point) : Prop :=
  ∃ line ∈ lines, line.index = index ∧ line.points = points

section

variable {series : List Series} {maxPoints : Nat} {lines : List Line}

theorem rangeOf_none : rangeOf none series = domain series := by
  have hzip : series.filterMap (fun s => timeExtent s.points) =
      series.zipIdx.filterMap fun item => timeExtent item.1.points := by
    conv_lhs => rw [← List.zipIdx_map_fst 0 series, List.filterMap_map]
    rfl
  have hextents : (seen none series).filterMap (fun item => timeExtent item.2.2) =
      series.filterMap fun s => timeExtent s.points := by
    rw [seen, numbered_eq, List.filterMap_map, List.filterMap_filterMap, hzip]
    refine List.filterMap_congr fun item _ => ?_
    obtain ⟨⟨name, offset, points⟩, index⟩ := item
    cases points <;> rfl
  exact congrArg hull hextents

theorem mem_reduce_iff (h : reduce series maxPoints none = .ok lines) {line : Line} :
    line ∈ lines ↔ ∃ s, series[line.index]? = some s ∧ line.name = s.name ∧
      line.offset = s.offset ∧ ReducesTo series maxPoints s line.points := by
  constructor
  · intro hline
    obtain rfl | hmax := Nat.eq_zero_or_pos maxPoints
    · obtain rfl := Except.ok.inj h
      cases hline
    · obtain ⟨r⟩ := nonempty_reduction hmax h hline
      exact ⟨r.source, r.source_eq, r.name_eq, r.offset_eq, hmax, r.range, r.extent, r.chunk,
        rangeOf_none.symm.trans r.range_eq, r.extent_eq, r.covers, r.chunk_eq, r.points_eq⟩
  · rintro ⟨s, hs, hname, hoffset, hmax, range, extent, chunk, hrange, hextent, hcovers, hchunk,
      hpoints⟩
    have hall : reduceAll range maxPoints (seen none series) = .ok lines := by
      obtain ⟨hnone, -⟩ | ⟨range', hrange', hall⟩ := (reduce_eq_ok hmax).1 h
      · cases hnone.symm.trans (rangeOf_none.trans hrange)
      · obtain rfl := Option.some.inj (hrange'.symm.trans (rangeOf_none.trans hrange))
        exact hall
    have hne : s.points ≠ [] := fun hnil => by
      rw [timeExtent_eq_none_iff.2 hnil] at hextent
      cases hextent
    refine (mem_reduceAll_iff hall).2 ⟨line.index, s, s.points, mem_seen_iff.2 ⟨hs, rfl, hne⟩,
      reduceOne_eq_some_iff.2 ⟨extent, chunk, hextent, hcovers, hchunk, ?_⟩⟩
    rw [← hname, ← hoffset, ← hpoints]

theorem shows_iff (h : reduce series maxPoints none = .ok lines) {index : Nat} {s : Series}
    (hs : series[index]? = some s) {points : List Point} :
    Shows lines index points ↔ ReducesTo series maxPoints s points := by
  constructor
  · rintro ⟨line, hline, rfl, rfl⟩
    obtain ⟨s', hs', -, -, hreduces⟩ := (mem_reduce_iff h).1 hline
    obtain rfl := Option.some.inj (hs'.symm.trans hs)
    exact hreduces
  · intro hreduces
    exact ⟨⟨index, s.name, s.offset, points⟩, (mem_reduce_iff h).2 ⟨s, hs, rfl, rfl, hreduces⟩,
      rfl, rfl⟩

end

/-! ## Series in common -/

section

variable {series series' : List Series} {s t : Series} {maxPoints : Nat}

theorem coverage_congr {range range' : Float × Float} (h : SameRange range range')
    (extent : Float × Float) : coverage range extent = coverage range' extent := by
  unfold coverage
  obtain heq | ⟨hnone, hnone'⟩ := h.2.sub_eq_or h.1
  · rw [heq]
  · dsimp only
    rw [if_neg hnone, if_neg hnone']

theorem countedBefore_congr (h : s.offset = t.offset) (maxPoints : Nat) :
    countedBefore maxPoints s = countedBefore maxPoints t := by
  unfold countedBefore
  rw [h]

theorem ReducesTo.of_sameTimes (hsame : SameTimes series series') (hpoints : s.points = t.points)
    (hoffset : s.offset = t.offset) {points : List Point}
    (h : ReducesTo series maxPoints s points) : ReducesTo series' maxPoints t points := by
  obtain ⟨hmax, range, extent, chunk, hd, hextent, hcovers, hchunk, hreduced⟩ := h
  obtain ⟨range', hd', hrange⟩ := hsame.exists_range hd
  rw [coverage_congr hrange] at hcovers hchunk
  rw [hpoints, countedBefore_congr hoffset] at hchunk hreduced
  rw [hpoints] at hextent
  exact ⟨hmax, range', extent, chunk, hd', hextent, hcovers, hchunk, hreduced⟩

theorem reducesTo_congr (hsame : SameTimes series series') (hpoints : s.points = t.points)
    (hoffset : s.offset = t.offset) {points : List Point} :
    ReducesTo series maxPoints s points ↔ ReducesTo series' maxPoints t points :=
  ⟨ReducesTo.of_sameTimes hsame hpoints hoffset,
    ReducesTo.of_sameTimes hsame.symm hpoints.symm hoffset.symm⟩

theorem exists_reduce_of_common (h : ∀ t ∈ series', ∃ series, SameTimes series series' ∧
      (∃ s ∈ series, s.points = t.points ∧ s.offset = t.offset) ∧
        ∃ lines, reduce series maxPoints none = .ok lines) :
    ∃ lines, reduce series' maxPoints none = .ok lines := by
  obtain rfl | hmax := Nat.eq_zero_or_pos maxPoints
  · exact ⟨[], rfl⟩
  · rw [exists_reduce_iff hmax]
    intro t ht range' extent hrange' hextent hcovers
    obtain ⟨series, hsame, ⟨s, hs, hpoints, hoffset⟩, hreduces⟩ := h t ht
    obtain ⟨range, hrange, hends⟩ := hsame.symm.exists_range (rangeOf_none.symm.trans hrange')
    rw [coverage_congr hends] at hcovers ⊢
    have hfound :=
      (exists_reduce_iff hmax).1 hreduces s hs range extent (rangeOf_none.trans hrange)
    rw [visible, hpoints, countedBefore_congr hoffset] at hfound
    exact hfound hextent hcovers

end

/-! ## Series in another order -/

/-- The places behind the first one are moved, and that one stays. -/
def movesBehind (σ : Equiv.Perm ℕ) : Equiv.Perm ℕ where
  toFun
    | 0 => 0
    | i + 1 => σ i + 1
  invFun
    | 0 => 0
    | i + 1 => σ.symm i + 1
  left_inv i := by cases i <;> simp
  right_inv i := by cases i <;> simp

theorem exists_moves_of_perm {α : Type} {xs ys : List α} (h : xs.Perm ys) :
    ∃ σ : Equiv.Perm ℕ, ∀ i, ys[σ i]? = xs[i]? := by
  induction h with
  | nil => exact ⟨.refl ℕ, fun _ => rfl⟩
  | cons x _ ih =>
    obtain ⟨σ, hσ⟩ := ih
    refine ⟨movesBehind σ, fun i => ?_⟩
    cases i with
    | zero => rfl
    | succ i => exact hσ i
  | swap x y xs =>
    refine ⟨Equiv.swap 0 1, fun i => ?_⟩
    match i with
    | 0 => rfl
    | 1 => rfl
    | i + 2 => rw [Equiv.swap_apply_of_ne_of_ne (by omega) (by omega)]; rfl
  | trans _ _ ih ih' =>
    obtain ⟨σ, hσ⟩ := ih
    obtain ⟨τ, hτ⟩ := ih'
    exact ⟨σ.trans τ, fun i => (hτ (σ i)).trans (hσ i)⟩

def moved (σ : Equiv.Perm ℕ) (line : Line) : Line := { line with index := σ line.index }

theorem moved_injective (σ : Equiv.Perm ℕ) : Function.Injective (moved σ) := by
  rintro ⟨i, name, offset, points⟩ ⟨j, name', offset', points'⟩ h
  obtain ⟨hindex, rfl, rfl, rfl⟩ := Line.mk.inj h
  obtain rfl : i = j := σ.injective hindex
  rfl

section

variable {series series' : List Series} {maxPoints : Nat} {lines lines' : List Line}

theorem nodup_of_reduce (h : reduce series maxPoints none = .ok lines) : lines.Nodup := by
  obtain rfl | hmax := Nat.eq_zero_or_pos maxPoints
  · obtain rfl := Except.ok.inj h
    exact .nil
  · refine (pairwise_index hmax h).imp fun hlt heq => ?_
    rw [heq] at hlt
    exact absurd hlt (lt_irrefl _)

theorem perm_of_moves (hsame : SameTimes series series') {σ : Equiv.Perm ℕ}
    (hσ : ∀ i, series'[σ i]? = series[i]?) (h : reduce series maxPoints none = .ok lines)
    (h' : reduce series' maxPoints none = .ok lines') : lines'.Perm (lines.map (moved σ)) := by
  refine (List.perm_ext_iff_of_nodup (nodup_of_reduce h')
    ((nodup_of_reduce h).map (moved_injective σ))).2 fun line' => ?_
  rw [mem_reduce_iff h', List.mem_map]
  constructor
  · rintro ⟨s, hs, hname, hoffset, hreduces⟩
    have hback : σ (σ.symm line'.index) = line'.index := σ.apply_symm_apply _
    refine ⟨{ line' with index := σ.symm line'.index },
      (mem_reduce_iff h).2 ⟨s, ?_, hname, hoffset, ?_⟩, ?_⟩
    · rw [← hσ, hback, hs]
    · exact (reducesTo_congr hsame rfl rfl).2 hreduces
    · rw [moved, hback]
  · rintro ⟨line, hline, rfl⟩
    obtain ⟨s, hs, hname, hoffset, hreduces⟩ := (mem_reduce_iff h).1 hline
    exact ⟨s, (hσ _).trans hs, hname, hoffset, (reducesTo_congr hsame rfl rfl).1 hreduces⟩

end

/-- Two lists of series over the same times show a series that they have in common with the same
points, or neither of them shows it.  Only a series by itself can overflow: a list is reduced if
each of its series is in a list over the same times that is.  If the series of a list are permuted,
the range of all times has the same ends, and the lines are the same but for their order and their
places. -/
theorem reduced_independently {A B : List Series} (hsame : SameTimes A B) (maxPoints : Nat) :
    (∀ i j s t, A[i]? = some s → B[j]? = some t → s.points = t.points → s.offset = t.offset →
      ∀ lines lines', reduce A maxPoints none = .ok lines →
        reduce B maxPoints none = .ok lines' →
          ∀ points, Shows lines i points ↔ Shows lines' j points) ∧
      ((∀ s ∈ A, ∃ C, SameTimes C A ∧ (∃ t ∈ C, t.points = s.points ∧ t.offset = s.offset) ∧
        ∃ lines, reduce C maxPoints none = .ok lines) →
          ∃ lines, reduce A maxPoints none = .ok lines) ∧
      ∀ C, A.Perm C → Option.Rel SameRange (domain A) (domain C) ∧
        ∃ σ : Equiv.Perm ℕ, (∀ i, C[σ i]? = A[i]?) ∧
          ∀ lines, reduce A maxPoints none = .ok lines →
            ∃ lines', reduce C maxPoints none = .ok lines' ∧
              lines'.Perm (lines.map (moved σ)) := by
  refine ⟨fun i j s t hs ht hpoints hoffset lines lines' h h' points => ?_,
    exists_reduce_of_common, fun C hperm => ?_⟩
  · rw [shows_iff h hs, shows_iff h' ht]
    exact reducesTo_congr hsame hpoints hoffset
  have hpermuted : SameTimes A C := .of_perm hsame.left hperm
  obtain ⟨σ, hσ⟩ := exists_moves_of_perm hperm
  refine ⟨hpermuted.rel_domain, σ, hσ, fun lines h => ?_⟩
  obtain ⟨lines', h'⟩ : ∃ lines', reduce C maxPoints none = .ok lines' :=
    exists_reduce_of_common fun s hs =>
      ⟨A, hpermuted, ⟨s, hperm.mem_iff.2 hs, rfl, rfl⟩, lines, h⟩
  exact ⟨lines', h', perm_of_moves hpermuted hσ h h'⟩

def inner : Series := ⟨"inner", 1, [⟨1, 1⟩, ⟨2, 5⟩, ⟨3, 3⟩]⟩

def frame : Series := ⟨"frame", 0, [⟨0, 0⟩, ⟨4, 1⟩]⟩

/-- These points reach over the same times as those of `frame`, from the other zero on. -/
def edges : Series := ⟨"edges", 7, [⟨4, 2⟩, ⟨-0.0, 1⟩]⟩

theorem spans_frame : Spans (allPoints [frame, inner]) (0, 4) :=
  ⟨by decide +kernel, by decide +kernel, ⟨⟨0, 0⟩, by decide +kernel, by decide +kernel⟩,
    ⟨4, 1⟩, by decide +kernel, by decide +kernel⟩

theorem spans_edges : Spans (allPoints [inner, edges]) (0, 4) :=
  ⟨by decide +kernel, by decide +kernel, ⟨⟨-0.0, 1⟩, by decide +kernel, by decide +kernel⟩,
    ⟨4, 2⟩, by decide +kernel, by decide +kernel⟩

theorem sameTimes_frame_edges : SameTimes [frame, inner] [inner, edges] :=
  ⟨by decide +kernel, by decide +kernel,
    fun _ => spans_frame.sameRange_iff.symm.trans spans_edges.sameRange_iff⟩

theorem inner_reduced_alike :
    (∃ lines, reduce [inner, edges] 4 none = .ok lines ∧ Shows lines 0 [⟨1, 1⟩, ⟨2, 4⟩]) ∧
      Option.Rel SameRange (domain [frame, inner]) (domain [inner, frame]) ∧
      ∃ lines, reduce [inner, frame] 4 none = .ok lines := by
  have hlines : reduce [frame, inner] 4 none = .ok [⟨0, "frame", 0, [⟨0, 0⟩, ⟨4, 1⟩]⟩,
      ⟨1, "inner", 1, [⟨1, 1⟩, ⟨2, 4⟩]⟩] := by decide +kernel
  have hshows : Shows [⟨0, "frame", 0, [⟨0, 0⟩, ⟨4, 1⟩]⟩, ⟨1, "inner", 1, [⟨1, 1⟩, ⟨2, 4⟩]⟩] 1
      [⟨1, 1⟩, ⟨2, 4⟩] :=
    ⟨_, List.mem_cons_of_mem _ List.mem_cons_self, rfl, rfl⟩
  obtain ⟨lines', hlines'⟩ : ∃ lines, reduce [inner, edges] 4 none = .ok lines :=
    exists_reduce (by decide) 4 none
  obtain ⟨hcommon, -, hmoved⟩ := reduced_independently sameTimes_frame_edges 4
  obtain ⟨hsame, _, -, hperm⟩ := hmoved [inner, frame] (.swap _ _ _)
  obtain ⟨lines'', hlines'', -⟩ := hperm _ hlines
  exact ⟨⟨lines', hlines', (hcommon 1 0 _ _ rfl rfl rfl rfl _ _ hlines hlines' _).1 hshows⟩,
    hsame, lines'', hlines''⟩

end PoolWatch.Series
