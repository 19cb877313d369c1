import PoolWatch.Axis.Step
import PoolWatch.Proofs.Calendar.Dates
/-!
# Multiples of a step

The instants of a step between two instants are those on its grid, ascending, up to a number of
them.  If the grid is that of the multiples of a number of milliseconds in local time, they are
listed whenever the one after the last of them still fits 64 bits.
-/

namespace PoolWatch

open PoolWatch.Numeric

namespace TimeStep

/-! ## Listing a grid -/

/-- The list has the first instants of a grid between two instants, up to a number of them. -/
structure Lists (grid : Int → Prop) (lo hi : Int) (room : Nat) (ts : List Int) : Prop where
  ascending : ts.Pairwise (· < ·)
  sound : ∀ t ∈ ts, lo ≤ t ∧ t ≤ hi ∧ grid t
  length_le : ts.length ≤ room
  complete : ∀ t, lo ≤ t → t ≤ hi → grid t → t ∉ ts → ts.length = room ∧ ∀ s ∈ ts, s < t

namespace Lists

variable {grid : Int → Prop} {lo lo' hi s t : Int} {room : Nat} {ts : List Int}

theorem nil_of_no_room : Lists grid lo hi 0 [] :=
  ⟨.nil, by simp, le_rfl, fun _ _ _ _ _ => ⟨rfl, by simp⟩⟩

theorem nil (h : ∀ t, lo ≤ t → t ≤ hi → ¬ grid t) : Lists grid lo hi room [] :=
  ⟨.nil, by simp, Nat.zero_le _, fun t hlo hhi ht _ => absurd ht (h t hlo hhi)⟩

theorem skip (h : Lists grid lo' hi room ts) (hle : lo ≤ lo')
    (hgap : ∀ t, lo ≤ t → grid t → lo' ≤ t) : Lists grid lo hi room ts where
  ascending := h.ascending
  sound t ht := ⟨hle.trans (h.sound t ht).1, (h.sound t ht).2⟩
  length_le := h.length_le
  complete t hlo hhi ht := h.complete t (hgap t hlo ht) hhi ht

theorem cons (h : Lists grid lo' hi room ts) (hs : grid s) (hhi : s ≤ hi) (hlt : s < lo')
    (hgap : ∀ t, s < t → grid t → lo' ≤ t) : Lists grid s hi (room + 1) (s :: ts) where
  ascending := List.pairwise_cons.2 ⟨fun t ht => hlt.trans_le (h.sound t ht).1, h.ascending⟩
  sound t ht := by
    obtain rfl | ht := List.mem_cons.1 ht
    · exact ⟨le_rfl, hhi, hs⟩
    · exact ⟨hlt.le.trans (h.sound t ht).1, (h.sound t ht).2⟩
  length_le := Nat.succ_le_succ h.length_le
  complete t hlo htop ht hnot := by
    obtain ⟨hne, hnot⟩ := not_or.1 (mt List.mem_cons.2 hnot)
    have hafter : s < t := lt_of_le_of_ne hlo (Ne.symm hne)
    obtain ⟨hlength, hbefore⟩ := h.complete t (hgap t hafter ht) htop ht hnot
    exact ⟨congrArg (· + 1) hlength, List.forall_mem_cons.2 ⟨hafter, hbefore⟩⟩

theorem mem_iff (h : Lists grid t t room ts) (hroom : 0 < room) : t ∈ ts ↔ grid t := by
  refine ⟨fun ht => (h.sound t ht).2.2, fun ht => ?_⟩
  by_contra hnot
  obtain ⟨hlength, hbefore⟩ := h.complete t le_rfl le_rfl ht hnot
  obtain ⟨s, hs⟩ := List.exists_mem_of_length_pos (hlength ▸ hroom)
  exact (hbefore s hs).not_ge (h.sound s hs).1

end Lists

/-! ## Sums that fit 64 bits -/

theorem checkInstant_of_le {n : Int} (hlow : signedMin ≤ n) (hhigh : n ≤ signedMax) :
    checkInstant n = .ok n :=
  checkInstant_eq_ok.2 ⟨rfl, hlow, hhigh⟩

/-- A number of 64 bits. -/
def IsSigned (n : Int) : Prop := signedMin ≤ n ∧ n ≤ signedMax

theorem bind_checkInstant_eq_ok_iff {α : Type} {n : Int} {f : Int → Except Overflow α} {b : α} :
    checkInstant n >>= f = .ok b ↔ IsSigned n ∧ f n = .ok b := by
  constructor
  · intro h
    obtain ⟨m, hm, h⟩ := bind_eq_ok_iff.1 h
    obtain ⟨rfl, hn⟩ := checkInstant_eq_ok.1 hm
    exact ⟨hn, h⟩
  · rintro ⟨hn, h⟩
    exact bind_eq_ok_iff.2 ⟨n, checkInstant_eq_ok.2 ⟨rfl, hn⟩, h⟩

/-! ## Multiples of a step -/

def localMultiples (step origin offset t : Int) : Prop := step ∣ t + offset - origin

/-- The last multiple of a step away from the origin that is not after a time. -/
def multipleBelow (step origin t : Int) : Int := (t - origin) / step * step + origin

/-- The first multiple of a step away from the origin that is not before a time. -/
def multipleAbove (step origin t : Int) : Int :=
  if multipleBelow step origin t < t then multipleBelow step origin t + step
  else multipleBelow step origin t

/-- How many times there are from one up to the last, a step apart, or the room if there are
more. -/
def listed (step last : Int) (room : Nat) (x : Int) : Nat := min room ((last - x) / step + 1).toNat

theorem add_step_le {step origin x y : Int} (hx : step ∣ x - origin) (hy : step ∣ y - origin)
    (hlt : x < y) : x + step ≤ y := by
  have hdvd : step ∣ (y - origin) - (x - origin) := Int.dvd_sub hy hx
  have := Int.le_of_dvd (by omega) hdvd
  omega

section

variable {step origin offset last lo hi t x : Int} {room : Nat} {ts : List Int}

theorem dvd_add_step (h : step ∣ x - origin) : step ∣ x + step - origin := by
  have hsum : x + step - origin = x - origin + step := by omega
  exact hsum ▸ Int.dvd_add h (Int.dvd_refl step)

theorem dvd_multipleBelow (step origin t : Int) :
    step ∣ multipleBelow step origin t - origin := by
  rw [multipleBelow, Int.add_sub_cancel]
  exact Int.dvd_mul_left _ _

theorem multipleBelow_le (origin t : Int) (hpos : 0 < step) :
    multipleBelow step origin t ≤ t := by
  have hle := Int.ediv_mul_le (t - origin) hpos.ne'
  unfold multipleBelow
  omega

theorem lt_multipleBelow_add (origin t : Int) (hpos : 0 < step) :
    t < multipleBelow step origin t + step := by
  have hlt := Int.lt_ediv_add_one_mul_self (t - origin) hpos
  rw [Int.add_mul, Int.one_mul] at hlt
  unfold multipleBelow
  omega

theorem multipleAbove_spec (origin t : Int) (hpos : 0 < step) :
    t ≤ multipleAbove step origin t ∧ multipleAbove step origin t < t + step ∧
      step ∣ multipleAbove step origin t - origin := by
  have hle := multipleBelow_le origin t hpos
  have hlt := lt_multipleBelow_add origin t hpos
  have hdvd := dvd_multipleBelow step origin t
  unfold multipleAbove
  split
  · exact ⟨hlt.le, by omega, dvd_add_step hdvd⟩
  · exact ⟨by omega, by omega, hdvd⟩

theorem listed_of_lt (hpos : 0 < step) (h : last < x) : listed step last room x = 0 := by
  have hneg : (last - x) / step < 0 := Int.ediv_lt_of_lt_mul hpos (by omega)
  unfold listed
  omega

theorem listed_succ (hpos : 0 < step) (h : x ≤ last) :
    listed step last (room + 1) x = listed step last room (x + step) + 1 := by
  have hnonneg : 0 ≤ (last - x) / step := Int.ediv_nonneg (by omega) hpos.le
  have hnext : (last - x) / step = (last - (x + step)) / step + 1 := by
    rw [← Int.add_mul_ediv_right _ 1 hpos.ne']
    congr 1
    omega
  unfold listed
  omega

theorem listed_mul_le (hpos : 0 < step) (h : 0 < listed step last room x) :
    (listed step last room x : Int) * step ≤ last - x + step := by
  have hcount : (listed step last room x : Int) - 1 ≤ (last - x) / step := by
    unfold listed at *
    omega
  have hmul := (Int.mul_le_mul_of_nonneg_right hcount hpos.le).trans
    (Int.ediv_mul_le (last - x) hpos.ne')
  rw [Int.sub_mul] at hmul
  omega

theorem every_succ_eq_ok_iff (h : x ≤ last) :
    every step offset last (room + 1) x = .ok ts ↔
      IsSigned (x - offset) ∧ IsSigned (x + step) ∧
        ∃ rest, every step offset last room (x + step) = .ok rest ∧ (x - offset) :: rest = ts := by
  rw [every, if_pos h, bind_checkInstant_eq_ok_iff, bind_checkInstant_eq_ok_iff, bind_eq_ok_iff]
  simp only [pure, Except.pure, Except.ok.injEq]

/-- The times are listed if the one after the last of them fits. -/
theorem exists_every_iff (hpos : 0 < step) (hlast : last ≤ signedMax + offset) (room : Nat) :
    ∀ x, IsSigned x → signedMin ≤ x - offset →
      ((∃ ts, every step offset last room x = .ok ts) ↔
        x + listed step last room x * step ≤ signedMax) := by
  induction room with
  | zero =>
    intro x hx _
    have hnone : listed step last 0 x = 0 := Nat.zero_min _
    rw [hnone, Int.natCast_zero, Int.zero_mul, Int.add_zero]
    exact iff_of_true ⟨[], rfl⟩ hx.2
  | succ room ih =>
    intro x hx hlow
    by_cases hle : x ≤ last
    · have hlist : (∃ ts, every step offset last (room + 1) x = .ok ts) ↔
          IsSigned (x + step) ∧ ∃ ts, every step offset last room (x + step) = .ok ts := by
        have hutc : IsSigned (x - offset) := ⟨hlow, by omega⟩
        simp only [every_succ_eq_ok_iff hle, hutc, true_and]
        exact ⟨fun ⟨_, hnext, rest, hrest, _⟩ => ⟨hnext, rest, hrest⟩,
          fun ⟨hnext, rest, hrest⟩ => ⟨_, hnext, rest, hrest, rfl⟩⟩
      have hsum : x + (listed step last (room + 1) x : Int) * step =
          x + step + listed step last room (x + step) * step := by
        rw [listed_succ hpos hle, Int.natCast_add, Int.add_mul]
        omega
      have hmul : 0 ≤ (listed step last room (x + step) : Int) * step :=
        Int.mul_nonneg (Int.natCast_nonneg _) hpos.le
      have hmin := hx.1
      rw [hlist, hsum]
      constructor
      · rintro ⟨hnext, hrest⟩
        exact (ih _ hnext (by omega)).1 hrest
      · intro hfits
        have hnext : IsSigned (x + step) := ⟨by omega, by omega⟩
        exact ⟨hnext, (ih _ hnext (by omega)).2 hfits⟩
    · rw [every, if_neg hle, listed_of_lt hpos (Int.not_le.1 hle), Int.natCast_zero, Int.zero_mul,
        Int.add_zero]
      exact iff_of_true ⟨[], rfl⟩ hx.2

theorem lists_of_every (hpos : 0 < step) (room : Nat) :
    ∀ x ts, step ∣ x - origin → every step offset last room x = .ok ts →
      Lists (localMultiples step origin offset) (x - offset) (last - offset) room ts := by
  induction room with
  | zero =>
    intro x ts _ h
    obtain rfl : [] = ts := Except.ok.inj h
    exact .nil_of_no_room
  | succ room ih =>
    intro x ts hgrid h
    by_cases hle : x ≤ last
    · obtain ⟨-, -, rest, hrest, rfl⟩ := (every_succ_eq_ok_iff hle).1 h
      refine (ih _ _ (dvd_add_step hgrid) hrest).cons ?_ (by omega) (by omega) fun t hlt ht => ?_
      · rwa [localMultiples, Int.sub_add_cancel]
      · have := add_step_le hgrid ht (by omega)
        omega
    · rw [every, if_neg hle] at h
      obtain rfl : [] = ts := Except.ok.inj h
      exact .nil fun t hlo hhi => by omega

theorem firstMultiple_eq_ok_iff :
    firstMultiple step origin t = .ok x ↔
      IsSigned (t - origin) ∧ IsSigned (multipleBelow step origin t - origin) ∧
        IsSigned (multipleBelow step origin t) ∧ IsSigned x ∧ multipleAbove step origin t = x := by
  have hdistance : multipleBelow step origin t - origin = (t - origin) / step * step :=
    Int.add_sub_cancel _ _
  rw [firstMultiple, bind_checkInstant_eq_ok_iff, bind_checkInstant_eq_ok_iff,
    bind_checkInstant_eq_ok_iff, hdistance]
  refine and_congr_right fun _ => and_congr_right fun _ => and_congr_right fun hbelow => ?_
  change (if multipleBelow step origin t < t then _ else _) = _ ↔ _
  rw [multipleAbove]
  split
  · rw [checkInstant_eq_ok]
    constructor
    · rintro ⟨rfl, hx⟩
      exact ⟨hx, rfl⟩
    · rintro ⟨hx, rfl⟩
      exact ⟨rfl, hx⟩
  · constructor
    · intro h
      obtain rfl := Except.ok.inj h
      exact ⟨hbelow, rfl⟩
    · rintro ⟨-, rfl⟩
      rfl

/-- All sums fit 64 bits that are made for the multiples of a step from a local time to another. -/
structure GridFits (step origin first last : Int) : Prop where
  start : IsSigned first
  stop : IsSigned last
  distance : IsSigned (first - origin)
  belowDistance : IsSigned (multipleBelow step origin first - origin)
  below : IsSigned (multipleBelow step origin first)
  next : multipleAbove step origin first +
    listed step last maxInstants (multipleAbove step origin first) * step ≤ signedMax

theorem gridInstants_eq_ok_iff :
    gridInstants step origin offset lo hi = .ok ts ↔
      IsSigned (lo + offset) ∧
        firstMultiple step origin (lo + offset) =
          .ok (multipleAbove step origin (lo + offset)) ∧
        IsSigned (hi + offset) ∧
        every step offset (hi + offset) maxInstants (multipleAbove step origin (lo + offset)) =
          .ok ts := by
  rw [gridInstants, bind_checkInstant_eq_ok_iff, bind_eq_ok_iff]
  simp only [bind_checkInstant_eq_ok_iff]
  refine and_congr_right fun _ => ⟨?_, fun h => ⟨_, h⟩⟩
  rintro ⟨x, hx, h⟩
  obtain ⟨-, -, -, -, rfl⟩ := firstMultiple_eq_ok_iff.1 hx
  exact ⟨hx, h⟩

theorem exists_gridInstants_iff (hpos : 0 < step) (hlo : signedMin ≤ lo) (hhi : hi ≤ signedMax) :
    (∃ ts, gridInstants step origin offset lo hi = .ok ts) ↔
      GridFits step origin (lo + offset) (hi + offset) := by
  obtain ⟨hle, -, -⟩ := multipleAbove_spec origin (lo + offset) hpos
  have hlast : hi + offset ≤ signedMax + offset := Int.add_le_add_right hhi offset
  have hevery := exists_every_iff hpos hlast maxInstants (multipleAbove step origin (lo + offset))
  simp only [gridInstants_eq_ok_iff, firstMultiple_eq_ok_iff, and_true]
  constructor
  · rintro ⟨ts, hstart, ⟨hdistance, hfloor, hbelow, hx⟩, hstop, h⟩
    exact ⟨hstart, hstop, hdistance, hfloor, hbelow, (hevery hx (by omega)).1 ⟨ts, h⟩⟩
  · intro h
    have hmul : 0 ≤ (listed step (hi + offset) maxInstants
        (multipleAbove step origin (lo + offset)) : Int) * step :=
      Int.mul_nonneg (Int.natCast_nonneg _) hpos.le
    have hx : IsSigned (multipleAbove step origin (lo + offset)) :=
      ⟨h.start.1.trans hle, (Int.le_add_of_nonneg_right hmul).trans h.next⟩
    obtain ⟨ts, hts⟩ := (hevery hx (by omega)).2 h.next
    exact ⟨ts, h.start, ⟨h.distance, h.belowDistance, h.below, hx⟩, h.stop, hts⟩

theorem lists_of_gridInstants (hpos : 0 < step)
    (h : gridInstants step origin offset lo hi = .ok ts) :
    Lists (localMultiples step origin offset) lo hi maxInstants ts := by
  obtain ⟨-, -, -, h⟩ := gridInstants_eq_ok_iff.1 h
  obtain ⟨hle, hlt, hgrid⟩ := multipleAbove_spec origin (lo + offset) hpos
  have hlists := lists_of_every hpos maxInstants _ _ hgrid h
  rw [Int.add_sub_cancel] at hlists
  refine hlists.skip (by omega) fun t ht hon => ?_
  by_contra hearly
  have := add_step_le hon hgrid (by omega)
  omega

end

/-! ## Moderate times -/

theorem signedMin_eq : signedMin = -signedMax - 1 := rfl

/-- So far from the ends of 64 bits that the sum of a few such numbers fits. -/
structure Moderate (n : Int) : Prop where
  low : signedMin ≤ 8 * n
  high : 8 * n ≤ signedMax

theorem moderate_of_inRange {t : Int} (h : Calendar.inRange t) : Moderate t := by
  have hfirst : signedMin ≤ 8 * Calendar.firstInstant := by decide
  have hlast : 8 * Calendar.lastInstant ≤ signedMax := by decide
  obtain ⟨hlow, hhigh⟩ := Calendar.inRange_iff.1 h
  constructor <;> omega

theorem Moderate.isSigned {n : Int} (h : Moderate n) : IsSigned n := by
  have hlow := h.low
  have hhigh := h.high
  simp only [IsSigned, signedMin, signedMax] at *
  omega

/-- The neighbours of a moderate time on a grid of multiples fit 64 bits. -/
structure StepFits (step origin : Int) : Prop where
  pos : 0 < step
  below : ∀ x, signedMin ≤ 4 * (x + step) → step ∣ x - origin →
    signedMin ≤ x ∧ signedMin ≤ x - origin
  above : ∀ x, 4 * x ≤ signedMax → step ∣ x - origin → x + step ≤ signedMax

theorem stepFits_zero {step : Int} (hpos : 0 < step) (hle : step ≤ signedMax) :
    StepFits step 0 where
  pos := hpos
  below x hx hdvd := by
    -- a long step has no multiple between its opposite and zero
    have hmin := signedMin_eq
    have hgrid : step ∣ -step - 0 := by simp
    by_cases hlt : x < -step
    · have := add_step_le hdvd hgrid hlt
      omega
    · omega
  above x hx hdvd := by
    by_cases hlt : 0 < x
    · have := add_step_le (Int.dvd_zero step) hdvd hlt
      omega
    · omega

theorem stepFits_week : StepFits week firstSunday where
  pos := by decide
  below x hx _ := by
    simp only [week, firstSunday, signedMin, Calendar.day_eq] at *
    omega
  above x hx _ := by
    simp only [week, signedMax, Calendar.day_eq] at *
    omega

section

variable {step origin offset lo hi : Int}

theorem gridFits_of_moderate (hfits : StepFits step origin) (horigin : Moderate origin)
    (hoffset : Moderate offset) (hlo : Moderate lo) (hhi : Moderate hi) :
    GridFits step origin (lo + offset) (hi + offset) := by
  have hmin := signedMin_eq
  have horigin := And.intro horigin.low horigin.high
  have hoffset := And.intro hoffset.low hoffset.high
  have hlo := And.intro hlo.low hlo.high
  have hhi := And.intro hhi.low hhi.high
  have hpos := hfits.pos
  have hle := multipleBelow_le origin (lo + offset) hpos
  have hlt := lt_multipleBelow_add origin (lo + offset) hpos
  have hbelow := dvd_multipleBelow step origin (lo + offset)
  obtain ⟨hfloor, hdistance⟩ := hfits.below _ (by omega) hbelow
  refine ⟨⟨by omega, by omega⟩, ⟨by omega, by omega⟩, ⟨by omega, by omega⟩,
    ⟨hdistance, by omega⟩, ⟨hfloor, by omega⟩, ?_⟩
  obtain ⟨-, -, hgrid⟩ := multipleAbove_spec origin (lo + offset) hpos
  generalize hx : multipleAbove step origin (lo + offset) = x at hgrid
  obtain hnone | hsome := Nat.eq_zero_or_pos (listed step (hi + offset) maxInstants x)
  · rw [hnone, Int.natCast_zero, Int.zero_mul, Int.add_zero, ← hx, multipleAbove]
    split
    · exact hfits.above _ (by omega) hbelow
    · omega
  · -- the one before the one that is not listed any more is not after the last time
    have hle := listed_mul_le hpos hsome
    generalize (listed step (hi + offset) maxInstants x : Int) = n at hle
    have hdvd : step ∣ x + n * step - step - origin := by
      have hsum : x + n * step - step - origin = x - origin + (n - 1) * step := by
        rw [Int.sub_mul]
        omega
      exact hsum ▸ Int.dvd_add hgrid (Int.dvd_mul_left _ _)
    have := hfits.above _ (by omega) hdvd
    omega

theorem gridInstants_lists (hfits : StepFits step origin) (horigin : Moderate origin)
    (hoffset : Moderate offset) (hlo : Moderate lo) (hhi : Moderate hi) :
    ∃ ts, gridInstants step origin offset lo hi = .ok ts ∧
      Lists (localMultiples step origin offset) lo hi maxInstants ts := by
  obtain ⟨ts, hts⟩ := (exists_gridInstants_iff hfits.pos hlo.isSigned.1 hhi.isSigned.2).2
    (gridFits_of_moderate hfits horigin hoffset hlo hhi)
  exact ⟨ts, hts, lists_of_gridInstants hfits.pos hts⟩

end

end TimeStep

end PoolWatch
