import PoolWatch.Proofs.Axis.Scale
import PoolWatch.Proofs.Numeric.FloatSame
import PoolWatch.Proofs.Series.Windows
/-!
# The range of all times

The range that series share reaches from the least to the greatest time of all their points.  As
numbers its ends do not depend on how the points are distributed over the series, nor on the order
of either.
-/

namespace PoolWatch

open PoolWatch.Numeric

/-- The ends of the ranges are the same numbers. -/
def SameRange (d d' : Float × Float) : Prop := SameNumber d.1 d'.1 ∧ SameNumber d.2 d'.2

namespace Series

/-! ## Hulls -/

/-- No range reaches further, and each end is that of a range. -/
structure IsHull (rs : List (Float × Float)) (d : Float × Float) : Prop where
  fst_le : ∀ r ∈ rs, d.1 ≤ r.1
  le_snd : ∀ r ∈ rs, r.2 ≤ d.2
  exists_fst : ∃ r ∈ rs, r.1 = d.1
  exists_snd : ∃ r ∈ rs, r.2 = d.2

/-- The ends of a range are numbers. -/
def HasEnds (r : Float × Float) : Prop := r.1.isNaN = false ∧ r.2.isNaN = false

theorem HasEnds.isHull {r : Float × Float} (h : HasEnds r) : IsHull [r] r where
  fst_le := List.forall_mem_singleton.2 (float_le_iff.2 ⟨h.1, h.1, le_rfl⟩)
  le_snd := List.forall_mem_singleton.2 (float_le_iff.2 ⟨h.2, h.2, le_rfl⟩)
  exists_fst := ⟨r, List.mem_singleton_self r, rfl⟩
  exists_snd := ⟨r, List.mem_singleton_self r, rfl⟩

theorem HasEnds.join {h r : Float × Float} (hh : HasEnds h) (hr : HasEnds r) :
    HasEnds (lesser h.1 r.1, greater h.2 r.2) := by
  constructor
  · show (lesser h.1 r.1).isNaN = false
    obtain heq | heq := lesser_eq_or h.1 r.1
    · rw [heq, hh.1]
    · rw [heq, hr.1]
  · show (greater h.2 r.2).isNaN = false
    obtain heq | heq := greater_eq_or h.2 r.2
    · rw [heq, hh.2]
    · rw [heq, hr.2]

theorem IsHull.of_join {h r d : Float × Float} {rs : List (Float × Float)} (hh : HasEnds h)
    (hr : HasEnds r) (hd : IsHull ((lesser h.1 r.1, greater h.2 r.2) :: rs) d) :
    IsHull (h :: r :: rs) d := by
  obtain ⟨hfst, hrsfst⟩ := List.forall_mem_cons.1 hd.fst_le
  obtain ⟨hsnd, hrssnd⟩ := List.forall_mem_cons.1 hd.le_snd
  refine ⟨?_, ?_, ?_, ?_⟩
  · exact List.forall_mem_cons.2 ⟨float_le_trans hfst (lesser_le_left hh.1 hr.1),
      List.forall_mem_cons.2 ⟨float_le_trans hfst (lesser_le_right hr.1), hrsfst⟩⟩
  · exact List.forall_mem_cons.2 ⟨float_le_trans (le_greater_left hh.2 hr.2) hsnd,
      List.forall_mem_cons.2 ⟨float_le_trans (le_greater_right hr.2) hsnd, hrssnd⟩⟩
  · obtain ⟨r', hr', heq⟩ := hd.exists_fst
    obtain rfl | hr' := List.mem_cons.1 hr'
    · obtain hlesser | hlesser := lesser_eq_or h.1 r.1
      · exact ⟨h, by simp, hlesser.symm.trans heq⟩
      · exact ⟨r, by simp, hlesser.symm.trans heq⟩
    · exact ⟨r', by simp [hr'], heq⟩
  · obtain ⟨r', hr', heq⟩ := hd.exists_snd
    obtain rfl | hr' := List.mem_cons.1 hr'
    · obtain hgreater | hgreater := greater_eq_or h.2 r.2
      · exact ⟨h, by simp, hgreater.symm.trans heq⟩
      · exact ⟨r, by simp, hgreater.symm.trans heq⟩
    · exact ⟨r', by simp [hr'], heq⟩

theorem isHull_hull {rs : List (Float × Float)} (hrs : ∀ r ∈ rs, HasEnds r) {d : Float × Float}
    (h : hull rs = some d) : IsHull rs d := by
  have hjoined : ∀ (rs : List (Float × Float)) (start : Float × Float), HasEnds start →
      (∀ r ∈ rs, HasEnds r) → IsHull (start :: rs)
        (rs.foldl (fun h r => (lesser h.1 r.1, greater h.2 r.2)) start) := by
    intro rs
    induction rs with
    | nil => exact fun start hstart _ => hstart.isHull
    | cons r rs ih =>
      intro start hstart hrs
      obtain ⟨hr, hrs⟩ := List.forall_mem_cons.1 hrs
      exact (ih _ (hstart.join hr) hrs).of_join hstart hr
  cases rs with
  | nil => cases h
  | cons r rs =>
    obtain ⟨hr, hrs⟩ := List.forall_mem_cons.1 hrs
    obtain rfl := Option.some.inj h
    exact hjoined rs r hr hrs

/-! ## Least and greatest times -/

/-- A range reaches from the least to the greatest time of some points. -/
structure Spans (points : List Point) (d : Float × Float) : Prop where
  fst_le : ∀ p ∈ points, d.1 ≤ p.x
  le_snd : ∀ p ∈ points, p.x ≤ d.2
  exists_le : ∃ p ∈ points, p.x ≤ d.1
  exists_ge : ∃ p ∈ points, d.2 ≤ p.x

section

variable {points : List Point} {d d' : Float × Float}

theorem Spans.sameRange_iff (h : Spans points d) : SameRange d d' ↔ Spans points d' := by
  constructor
  · rintro ⟨hfst, hsnd⟩
    obtain ⟨p, hp, hple⟩ := h.exists_le
    obtain ⟨q, hq, hqge⟩ := h.exists_ge
    exact {
      fst_le := fun p hp => float_le_trans hfst.2 (h.fst_le p hp)
      le_snd := fun p hp => float_le_trans (h.le_snd p hp) hsnd.1
      exists_le := ⟨p, hp, float_le_trans hple hfst.1⟩
      exists_ge := ⟨q, hq, float_le_trans hsnd.2 hqge⟩ }
  · intro h'
    obtain ⟨p, hp, hple⟩ := h.exists_le
    obtain ⟨p', hp', hple'⟩ := h'.exists_le
    obtain ⟨q, hq, hqge⟩ := h.exists_ge
    obtain ⟨q', hq', hqge'⟩ := h'.exists_ge
    exact ⟨⟨float_le_trans (h.fst_le p' hp') hple', float_le_trans (h'.fst_le p hp) hple⟩,
      ⟨float_le_trans hqge (h'.le_snd q hq), float_le_trans hqge' (h.le_snd q' hq')⟩⟩

theorem Spans.of_mem_iff {points' : List Point} (hmem : ∀ p, p ∈ points ↔ p ∈ points')
    (h : Spans points d) : Spans points' d where
  fst_le p hp := h.fst_le p ((hmem p).2 hp)
  le_snd p hp := h.le_snd p ((hmem p).2 hp)
  exists_le := by simpa only [hmem] using h.exists_le
  exists_ge := by simpa only [hmem] using h.exists_ge

theorem Spans.hasEnds (h : Spans points d) : HasEnds d := by
  obtain ⟨p, -, hple⟩ := h.exists_le
  obtain ⟨q, -, hqge⟩ := h.exists_ge
  exact ⟨(float_le_iff.1 hple).2.1, (float_le_iff.1 hqge).1⟩

theorem spans_timeExtent (hpoints : ∀ p ∈ points, p.x.isNaN = false)
    (h : timeExtent points = some d) : Spans points d := by
  have hhull : IsHull (points.map fun p => (p.x, p.x)) d := by
    refine isHull_hull (fun r hr => ?_) h
    obtain ⟨p, hp, rfl⟩ := List.mem_map.1 hr
    exact ⟨hpoints p hp, hpoints p hp⟩
  have hmem {p : Point} (hp : p ∈ points) : (p.x, p.x) ∈ points.map fun p => (p.x, p.x) :=
    List.mem_map.2 ⟨p, hp, rfl⟩
  have hself {p : Point} (hp : p ∈ points) : p.x ≤ p.x :=
    float_le_iff.2 ⟨hpoints p hp, hpoints p hp, le_rfl⟩
  refine ⟨fun p hp => hhull.fst_le (p.x, p.x) (hmem hp),
    fun p hp => hhull.le_snd (p.x, p.x) (hmem hp), ?_, ?_⟩
  · obtain ⟨r, hr, heq⟩ := hhull.exists_fst
    obtain ⟨p, hp, rfl⟩ := List.mem_map.1 hr
    exact ⟨p, hp, heq ▸ hself hp⟩
  · obtain ⟨r, hr, heq⟩ := hhull.exists_snd
    obtain ⟨p, hp, rfl⟩ := List.mem_map.1 hr
    exact ⟨p, hp, heq ▸ hself hp⟩

end

/-! ## The times of all series -/

def allPoints (series : List Series) : List Point := series.flatMap (·.points)

section

variable {series : List Series} {d : Float × Float}

theorem mem_allPoints {p : Point} : p ∈ allPoints series ↔ ∃ s ∈ series, p ∈ s.points :=
  List.mem_flatMap

theorem allPoints_eq_nil_of_domain (h : domain series = none) : allPoints series = [] := by
  have hextents : series.filterMap (fun s => timeExtent s.points) = [] := by
    unfold domain at h
    cases hrs : series.filterMap (fun s => timeExtent s.points) with
    | nil => rfl
    | cons r rs =>
      rw [hrs] at h
      cases h
  exact List.flatMap_eq_nil_iff.2 fun s hs =>
    timeExtent_eq_none_iff.1 (List.filterMap_eq_nil_iff.1 hextents s hs)

theorem spans_domain (hseries : ∀ p ∈ allPoints series, p.x.isNaN = false)
    (h : domain series = some d) : Spans (allPoints series) d := by
  have hextent {s : Series} (hs : s ∈ series) {e : Float × Float}
      (he : timeExtent s.points = some e) : Spans s.points e :=
    spans_timeExtent (fun p hp => hseries p (mem_allPoints.2 ⟨s, hs, hp⟩)) he
  have hhull : IsHull (series.filterMap fun s => timeExtent s.points) d := by
    refine isHull_hull (fun r hr => ?_) h
    obtain ⟨s, hs, he⟩ := List.mem_filterMap.1 hr
    exact (hextent hs he).hasEnds
  have hreached {p : Point} (hp : p ∈ allPoints series) : d.1 ≤ p.x ∧ p.x ≤ d.2 := by
    obtain ⟨s, hs, hp⟩ := mem_allPoints.1 hp
    cases he : timeExtent s.points with
    | none =>
      rw [timeExtent_eq_none_iff.1 he] at hp
      cases hp
    | some e =>
      have hmem : e ∈ series.filterMap fun s => timeExtent s.points :=
        List.mem_filterMap.2 ⟨s, hs, he⟩
      exact ⟨float_le_trans (hhull.fst_le e hmem) ((hextent hs he).fst_le p hp),
        float_le_trans ((hextent hs he).le_snd p hp) (hhull.le_snd e hmem)⟩
  refine ⟨fun p hp => (hreached hp).1, fun p hp => (hreached hp).2, ?_, ?_⟩
  · obtain ⟨e, hmem, heq⟩ := hhull.exists_fst
    obtain ⟨s, hs, he⟩ := List.mem_filterMap.1 hmem
    obtain ⟨p, hp, hple⟩ := (hextent hs he).exists_le
    exact ⟨p, mem_allPoints.2 ⟨s, hs, hp⟩, heq ▸ hple⟩
  · obtain ⟨e, hmem, heq⟩ := hhull.exists_snd
    obtain ⟨s, hs, he⟩ := List.mem_filterMap.1 hmem
    obtain ⟨p, hp, hpge⟩ := (hextent hs he).exists_ge
    exact ⟨p, mem_allPoints.2 ⟨s, hs, hp⟩, heq ▸ hpge⟩

end

/-- The times of two lists of series are numbers, and the least and the greatest of them are the
same in both, if there are any. -/
structure SameTimes (series series' : List Series) : Prop where
  left : ∀ p ∈ allPoints series, p.x.isNaN = false
  right : ∀ p ∈ allPoints series', p.x.isNaN = false
  spans_iff : ∀ d, Spans (allPoints series) d ↔ Spans (allPoints series') d

namespace SameTimes

variable {series series' : List Series}

theorem symm (h : SameTimes series series') : SameTimes series' series :=
  ⟨h.right, h.left, fun d => (h.spans_iff d).symm⟩

theorem of_perm (h : ∀ p ∈ allPoints series, p.x.isNaN = false) (hperm : series.Perm series') :
    SameTimes series series' := by
  have hmem (p : Point) : p ∈ allPoints series ↔ p ∈ allPoints series' :=
    (hperm.flatMap_right _).mem_iff
  exact {
    left := h
    right := fun p hp => h p ((hmem p).2 hp)
    spans_iff := fun d => ⟨.of_mem_iff hmem, .of_mem_iff fun p => (hmem p).symm⟩ }

theorem exists_range (h : SameTimes series series') {d : Float × Float}
    (hd : domain series = some d) : ∃ d', domain series' = some d' ∧ SameRange d d' := by
  have hspans := (h.spans_iff d).1 (spans_domain h.left hd)
  cases hd' : domain series' with
  | none =>
    obtain ⟨p, hp, -⟩ := hspans.exists_le
    rw [allPoints_eq_nil_of_domain hd'] at hp
    cases hp
  | some d' => exact ⟨d', rfl, hspans.sameRange_iff.2 (spans_domain h.right hd')⟩

theorem rel_domain (h : SameTimes series series') :
    Option.Rel SameRange (domain series) (domain series') := by
  cases hd : domain series with
  | none =>
    cases hd' : domain series' with
    | none => exact .none
    | some d' =>
      obtain ⟨d, hsome, -⟩ := h.symm.exists_range hd'
      cases hd.symm.trans hsome
  | some d =>
    obtain ⟨d', hd', hsame⟩ := h.exists_range hd
    rw [hd']
    exact .some hsame

end SameTimes

end Series

end PoolWatch
