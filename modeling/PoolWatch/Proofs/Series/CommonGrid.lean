import PoolWatch.Proofs.Series.Extents
import PoolWatch.Proofs.Series.Spacing
/-!
# A common grid

Series whose points are one distance apart, and which all begin whole numbers of steps after the
least of their times, are aligned without loss: the offset of each is the number of these steps.  So
their lines are cut on the grid that is counted from the least time, whatever their lengths and
starts are.
-/

namespace PoolWatch.Series

open PoolWatch.Numeric

/-- The points of every series stand at whole numbers of at most 52 places, one distance apart, and
its first one a whole number of steps from the least of all times. -/
structure OnCommonGrid (series : List Series) (least : Int) (distance : Nat) : Prop where
  distance_pos : 1 ≤ distance
  isLeast : IsLeast {n | ∃ p ∈ allPoints series, StandsAt p.x n} least
  paced : ∀ s ∈ series, 2 ≤ s.points.length ∧
    ∃ start : Int, (distance : Int) ∣ start - least ∧ s.PacedFrom start distance

namespace OnCommonGrid

variable {series : List Series} {least : Int} {distance : Nat} {s : Series} {origin : Float}

/-! ## The least time -/

theorem exists_standsAt (h : OnCommonGrid series least distance) {p : Point}
    (hp : p ∈ allPoints series) : ∃ n : Int, StandsAt p.x n ∧ n.natAbs < 2 ^ 52 := by
  obtain ⟨s, hs, hp⟩ := mem_allPoints.1 hp
  obtain ⟨-, start, -, hpaced⟩ := h.paced s hs
  obtain ⟨i, hi⟩ := List.mem_iff_getElem?.1 hp
  exact ⟨_, hpaced.standsAt hi⟩

theorem natAbs_least_lt (h : OnCommonGrid series least distance) : least.natAbs < 2 ^ 52 := by
  obtain ⟨p, hp, hstands⟩ := h.isLeast.1
  obtain ⟨n, hn, hsmall⟩ := h.exists_standsAt hp
  exact hstands.unique hn ▸ hsmall

theorem exists_domain (h : OnCommonGrid series least distance) :
    ∃ origin last, domain series = some (origin, last) ∧ StandsAt origin least := by
  obtain ⟨p, hp, hstands⟩ := h.isLeast.1
  cases hd : domain series with
  | none =>
    rw [allPoints_eq_nil_of_domain hd] at hp
    cases hp
  | some d =>
    have hnumbers : ∀ q ∈ allPoints series, q.x.isNaN = false := by
      intro q hq
      obtain ⟨n, hn, -⟩ := h.exists_standsAt hq
      exact (isOfFormat_of_isFinite (standsAt_iff_value.1 hn).1).isNaN
    have hspans := spans_domain hnumbers hd
    obtain ⟨q, hq, hreached⟩ := hspans.exists_le
    obtain ⟨n, hn, -⟩ := h.exists_standsAt hq
    have hbelow : p.x ≤ q.x := (standsAt_le_iff hstands hn).2 (h.isLeast.2 ⟨q, hq, hn⟩)
    exact ⟨d.1, d.2, rfl, hstands.of_sameNumber
      ⟨hspans.fst_le p hp, float_le_trans hbelow hreached⟩⟩

/-! ## Offsets -/

theorem exists_steps (h : OnCommonGrid series least distance) (hs : s ∈ series) :
    ∃ steps : Nat, s.PacedFrom (least + distance * steps) distance := by
  obtain ⟨hlength, start, ⟨steps, hsteps⟩, hpaced⟩ := h.paced s hs
  have hfirst := List.getElem?_eq_getElem (l := s.points) (i := 0) (by omega)
  have hmem : s.points[0] ∈ allPoints series := mem_allPoints.2 ⟨s, hs, List.getElem_mem _⟩
  have hle := h.isLeast.2 ⟨_, hmem, (hpaced.standsAt hfirst).1⟩
  have hpos : (0 : Int) < distance := by exact_mod_cast h.distance_pos
  have hnonneg : 0 ≤ steps := by
    refine nonneg_of_mul_nonneg_right (a := (distance : Int)) ?_ hpos
    omega
  refine ⟨steps.toNat, ?_⟩
  rwa [Int.toNat_of_nonneg hnonneg, ← hsteps, add_sub_cancel]

theorem exists_align_eq (h : OnCommonGrid series least distance) (horigin : StandsAt origin least)
    (hs : s ∈ series) : ∃ steps : Nat, s.PacedFrom (least + distance * steps) distance ∧
      ∀ offset, align origin { s with offset := offset } = { s with offset := steps } := by
  have hlength := (h.paced s hs).1
  obtain ⟨steps, hpaced⟩ := h.exists_steps hs
  have hcount : stepsFrom origin s.points = steps :=
    stepsFrom_eq horigin h.natAbs_least_lt hlength h.distance_pos hpaced
  have hsome : ¬s.points.isEmpty = true := by
    rw [List.isEmpty_iff_length_eq_zero]
    omega
  refine ⟨steps, hpaced, fun offset => ?_⟩
  unfold align
  rw [if_neg hsome, hcount]

theorem exists_of_mem_aligned (h : OnCommonGrid series least distance)
    (hs : s ∈ Chart.aligned series) :
    2 ≤ s.points.length ∧ s.PacedFrom (least + distance * s.offset) distance := by
  obtain ⟨origin, last, hd, horigin⟩ := h.exists_domain
  unfold Chart.aligned at hs
  rw [hd] at hs
  obtain ⟨t, ht, rfl⟩ := List.mem_map.1 hs
  obtain ⟨steps, hpaced, halign⟩ := h.exists_align_eq horigin ht
  rw [halign t.offset]
  exact ⟨(h.paced t ht).1, hpaced⟩

/-! ## Lines -/

variable {maxPoints : Nat}

theorem exists_lines (h : OnCommonGrid series least distance) (maxPoints : Nat) :
    ∃ lines, reduce (Chart.aligned series) maxPoints none = .ok lines := by
  refine exists_reduce (fun s hs => ?_) maxPoints none
  obtain ⟨hlength, hpaced⟩ := h.exists_of_mem_aligned hs
  have hshort := hpaced.length_lt h.distance_pos
  have hfirst := (hpaced.standsAt (List.getElem?_eq_getElem (by omega : 0 < s.points.length))).2
  have hleast := h.natAbs_least_lt
  have hcount : (s.offset : Int) ≤ distance * s.offset := by
    exact_mod_cast Nat.le_mul_of_pos_left _ h.distance_pos
  unfold unsignedMax
  omega

variable {line : Line}

theorem standsAt_points (h : OnCommonGrid series least distance)
    (r : Reduction (Chart.aligned series) maxPoints none line) {i : Nat} {p : Point}
    (hp : r.points[i]? = some p) :
    StandsAt p.x (least + distance * (r.source.offset + i : Nat)) := by
  have hstands := ((h.exists_of_mem_aligned r.source_mem).2.standsAt hp).1
  have hsteps : least + distance * r.source.offset + (distance : Int) * i =
      least + distance * (r.source.offset + i : Nat) := by
    push_cast
    ring
  rwa [hsteps] at hstands

theorem tail_eq_nil (h : OnCommonGrid series least distance)
    (r : Reduction (Chart.aligned series) 1 none line) : line.points.tail = [] := by
  have hshort := (h.exists_of_mem_aligned r.source_mem).2.length_lt h.distance_pos
  have hsingle := (r.keeps_budget le_rfl fun _ => quotientKeeps_of_lt hshort).1.2
  rw [← List.length_eq_zero_iff, List.length_tail]
  omega

theorem exists_standsAt_of_mem_tail (h : OnCommonGrid series least distance) (hmax : 1 ≤ maxPoints)
    (r : Reduction (Chart.aligned series) maxPoints none line) {q : Point}
    (hq : q ∈ line.points.tail) :
    ∃ k : Nat, StandsAt q.x (least + distance * (r.chunk * k : Nat)) := by
  obtain rfl | hmany := Nat.eq_or_lt_of_le hmax
  · rw [h.tail_eq_nil r] at hq
    cases hq
  · obtain ⟨i, p, -, hp, ⟨k, hk⟩, hx⟩ := (r.exists_mem_tail_points hmany).1 ⟨q, hq, rfl⟩
    exact ⟨k, hx ▸ hk ▸ h.standsAt_points r hp⟩

end OnCommonGrid

/-- On a common grid the offset of every series becomes the number of steps from the least time to
its first point, whatever it was before.  The lines are found, and every chunk of a line after its
first one begins a multiple of the chunk's size of steps after the least time; a line that may have
two points or more begins a chunk at every such point of its source but the first.  These are the
lines that a chart shows. -/
theorem lines_share_grid {series : List Series} {least : Int} {distance : Nat}
    (h : OnCommonGrid series least distance) :
    (∃ origin last, domain series = some (origin, last) ∧ StandsAt origin least) ∧
      (∀ origin, StandsAt origin least → ∀ s ∈ series, ∃ steps : Nat,
        s.PacedFrom (least + distance * steps) distance ∧
          ∀ offset, align origin { s with offset := offset } = { s with offset := steps }) ∧
      ∀ maxPoints, ∃ lines, reduce (Chart.aligned series) maxPoints none = .ok lines ∧
        (∀ line ∈ lines, Nonempty (Reduction (Chart.aligned series) maxPoints none line) ∧
          ∀ r : Reduction (Chart.aligned series) maxPoints none line,
            (∀ q ∈ line.points.tail, ∃ k : Nat,
              StandsAt q.x (least + distance * (r.chunk * k : Nat))) ∧
            (2 ≤ maxPoints → ∀ n, line.BreaksAt n ↔
              r.Inside n ∧ (distance * r.chunk : Int) ∣ n - least)) ∧
        ∀ (c : Chart) (xLabel : String) (p : Picture),
          c.picture series maxPoints xLabel = .ok p → ∀ polyline ∈ p.lines,
            ∃ line ∈ lines, ∃ times values, polyline = c.polyline times values line := by
  refine ⟨h.exists_domain, fun origin horigin s hs => h.exists_align_eq horigin hs,
    fun maxPoints => ?_⟩
  obtain ⟨lines, hlines⟩ := h.exists_lines maxPoints
  refine ⟨lines, hlines, fun line hline => ?_, fun c xLabel p hp => ?_⟩
  · have hmax : 1 ≤ maxPoints := by
      by_contra hnone
      obtain rfl : maxPoints = 0 := by omega
      obtain rfl := Except.ok.inj hlines
      cases hline
    have hstep : (distance : Int) ≠ 0 := by exact_mod_cast (Nat.pos_iff_ne_zero.1 h.distance_pos)
    exact ⟨nonempty_reduction hmax hlines hline, fun r =>
      ⟨fun q hq => h.exists_standsAt_of_mem_tail hmax r hq, fun hmany n =>
        r.breaksAt_iff_of_standsAt hmany hstep fun i p => h.standsAt_points r⟩⟩
  · obtain ⟨lines', hlines', hdrawn⟩ := Chart.exists_polyline_eq hp
    obtain rfl := Except.ok.inj (hlines.symm.trans hlines')
    exact hdrawn

/-- Six readings a minute apart, with an offset that is not theirs. -/
def prompt : Series :=
  ⟨"prompt", 7, [1700000000, 1700000060, 1700000120, 1700000180, 1700000240, 1700000300].map
    (⟨·, 1⟩)⟩

/-- Four readings a minute apart, the first one two minutes later. -/
def tardy : Series :=
  ⟨"tardy", 99, [1700000120, 1700000180, 1700000240, 1700000300].map (⟨·, 1⟩)⟩

theorem onCommonGrid_prompt_tardy : OnCommonGrid [prompt, tardy] 1700000000 60 where
  distance_pos := by decide
  isLeast := by
    have horigin : StandsAt 1700000000 1700000000 := by decide +kernel
    have hfirst : ∀ p ∈ allPoints [prompt, tardy], 1700000000 ≤ p.x := by decide +kernel
    refine ⟨⟨⟨1700000000, 1⟩, by decide +kernel, horigin⟩, ?_⟩
    rintro n ⟨p, hp, hn⟩
    exact (standsAt_le_iff horigin hn).1 (hfirst p hp)
  paced := by
    intro s hs
    obtain rfl | rfl := List.mem_pair.1 hs
    · exact ⟨by decide, 1700000000, by decide, by decide +kernel⟩
    · exact ⟨by decide, 1700000120, by decide, by decide +kernel⟩

theorem aligned_prompt_tardy : Chart.aligned [prompt, tardy] =
    [{ prompt with offset := 0 }, { tardy with offset := 2 }] := by decide +kernel

theorem reduce_prompt_tardy : reduce (Chart.aligned [prompt, tardy]) 3 none =
    .ok [lineAt 0 { prompt with offset := 0 } [1700000000, 1700000120, 1700000240],
      lineAt 1 { tardy with offset := 2 } [1700000120, 1700000180]] := by decide +kernel

theorem prompt_and_tardy_share_grid :
    OnCommonGrid [prompt, tardy] 1700000000 60 ∧
      Chart.aligned [prompt, tardy] =
        [{ prompt with offset := 0 }, { tardy with offset := 2 }] ∧
      ∀ line ∈ [lineAt 0 { prompt with offset := 0 } [1700000000, 1700000120, 1700000240],
          lineAt 1 { tardy with offset := 2 } [1700000120, 1700000180]],
        ∃ r : Reduction (Chart.aligned [prompt, tardy]) 3 none line,
          ∀ n, line.BreaksAt n ↔ r.Inside n ∧ (60 * r.chunk : Int) ∣ n - 1700000000 := by
  refine ⟨onCommonGrid_prompt_tardy, aligned_prompt_tardy, fun line hline => ?_⟩
  obtain ⟨lines, hlines, hshared, -⟩ := (lines_share_grid onCommonGrid_prompt_tardy).2.2 3
  obtain rfl := Except.ok.inj (reduce_prompt_tardy.symm.trans hlines)
  obtain ⟨⟨r⟩, hbreaks⟩ := hshared line hline
  exact ⟨r, (hbreaks r).2 (by decide)⟩

end PoolWatch.Series
