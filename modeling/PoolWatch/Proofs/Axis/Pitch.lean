import Mathlib.Data.List.Destutter
import PoolWatch.Axis.Ticks
import PoolWatch.Proofs.Numeric.FloatPacking
/-!
# The pitch of ticks

Thinning leaves out ticks and nothing else, it keeps the first one, and of two neighbours that it
leaves the second is not closer to the first than the pitch.  It does so whatever the positions
and the pitch are, and therefore on every axis.
-/

namespace PoolWatch

open PoolWatch.Numeric

namespace Tick

/-! ## A regular choice -/

theorem everyNth_sublist {α : Type} (stride skip : Nat) (xs : List α) :
    (everyNth stride skip xs).Sublist xs := by
  fun_induction everyNth with
  | case1 => exact List.Sublist.refl _
  | case2 x xs ih => exact ih.cons_cons x
  | case3 skip x xs ih => exact ih.cons x

theorem head?_everyNth {α : Type} (stride : Nat) (xs : List α) :
    (everyNth stride 0 xs).head? = xs.head? := by
  cases xs <;> rfl

/-! ## The pitch -/

section

variable (pitch : Float32)

theorem cons_spacedFrom (last : Tick) (ts : List Tick) :
    last :: spacedFrom pitch last ts = ts.destutter' (fun a b => ¬a.gap b < pitch) last := by
  -- a tick that is left out does not become the last one
  fun_induction spacedFrom with
  | case1 last => rfl
  | case2 last t ts hclose ih => rw [List.destutter'_cons_neg _ (not_not.2 hclose), ih]
  | case3 last t ts hfar ih => rw [List.destutter'_cons_pos _ hfar, ih]

theorem spaced_eq (ts : List Tick) :
    spaced pitch ts = ts.destutter fun a b => ¬a.gap b < pitch := by
  cases ts with
  | nil => rfl
  | cons t ts => exact cons_spacedFrom pitch t ts

theorem head?_spaced (ts : List Tick) : (spaced pitch ts).head? = ts.head? := by
  cases ts <;> rfl

/-! ## Thinning -/

theorem thin_sublist (ts : List Tick) : (thin pitch ts).Sublist ts := by
  unfold thin
  split
  · exact List.Sublist.refl _
  · rw [spaced_eq]
    exact (List.destutter_sublist _ _).trans (everyNth_sublist _ _ _)

theorem head?_thin (ts : List Tick) : (thin pitch ts).head? = ts.head? := by
  unfold thin
  split
  · rfl
  · rw [head?_spaced, head?_everyNth]

theorem isChain_of_length_lt_two {α : Type} {R : α → α → Prop} {xs : List α}
    (h : xs.length < 2) : xs.IsChain R := by
  match xs, h with
  | [], _ => exact List.isChain_nil
  | [x], _ => exact List.isChain_singleton x

theorem isChain_thin (ts : List Tick) :
    (thin pitch ts).IsChain fun a b => ¬a.gap b < pitch := by
  unfold thin
  split
  next h =>
    obtain hshort | hpitch := h
    · exact isChain_of_length_lt_two hshort
    · -- no distance is below a pitch that is not positive
      have hfar : ∀ a b : Tick, ¬a.gap b < pitch := fun _ _ => not_abs_lt_of_le_zero hpitch
      exact (List.pairwise_of_forall hfar).isChain
  next =>
    rw [spaced_eq]
    exact List.isChain_destutter _ _

end

end Tick

/-! ## Axes -/

namespace Axis

variable {a : Axis} {domain : Float × Float} {range : Float32 × Float32} {ticks : List Tick}

theorem isChain_timeTicks (h : a.timeTicks domain range = .ok ticks) :
    ticks.IsChain fun s t => ¬s.gap t < a.minPitch := by
  unfold timeTicks at h
  dsimp only at h
  split at h
  · split at h
    · cases h
      exact List.isChain_singleton _
    · obtain ⟨instants, -, rfl⟩ := map_eq_ok_iff.1 h
      exact Tick.isChain_thin _ _
  · cases h
    exact List.isChain_nil

theorem isChain_valueTicks (h : a.valueTicks domain range = .ok ticks) :
    ticks.IsChain fun s t => ¬s.gap t < a.minPitch := by
  unfold valueTicks at h
  dsimp only at h
  split at h
  · split at h
    · obtain ⟨label, -, rfl⟩ := map_eq_ok_iff.1 h
      exact List.isChain_singleton _
    · obtain ⟨values, -, rfl⟩ := map_eq_ok_iff.1 h
      exact Tick.isChain_thin _ _
  · cases h
    exact List.isChain_nil

/-- Thinned ticks are some of the given ones, the first among them, and no two neighbours are
closer than the pitch.  So the ticks of an axis keep its pitch. -/
theorem ticks_keep_pitch :
    (∀ (pitch : Float32) (ts : List Tick),
      (Tick.thin pitch ts).Sublist ts ∧ (Tick.thin pitch ts).head? = ts.head? ∧
      (Tick.thin pitch ts).IsChain fun s t => ¬(t.px - s.px).abs < pitch) ∧
    ∀ (a : Axis) (domain : Float × Float) (range : Float32 × Float32) (ticks : List Tick),
      a.timeTicks domain range = .ok ticks ∨ a.valueTicks domain range = .ok ticks →
      ticks.IsChain fun s t => ¬(t.px - s.px).abs < a.minPitch := by
  refine ⟨fun pitch ts => ⟨Tick.thin_sublist pitch ts, Tick.head?_thin pitch ts,
    Tick.isChain_thin pitch ts⟩, fun a domain range ticks h => ?_⟩
  obtain htime | hvalue := h
  · exact isChain_timeTicks htime
  · exact isChain_valueTicks hvalue

theorem ticks_of_a_minute_keep_pitch :
    let times : List Tick := [⟨0, 64, "1970"⟩, ⟨40, 24, "00:00:40"⟩]
    let values : List Tick := [⟨5, 50, "5"⟩]
    Axis.standard.timeTicks (64, 0) (64, 0) = .ok times ∧
    Axis.standard.valueTicks (5, 5) (0, 100) = .ok values ∧
    (times.IsChain fun s t => ¬(t.px - s.px).abs < Axis.standard.minPitch) ∧
    values.IsChain fun s t => ¬(t.px - s.px).abs < Axis.standard.minPitch := by
  intro times values
  have htimes : Axis.standard.timeTicks (64, 0) (64, 0) = .ok times := by decide +kernel
  have hvalues : Axis.standard.valueTicks (5, 5) (0, 100) = .ok values := by decide +kernel
  exact ⟨htimes, hvalues, ticks_keep_pitch.2 _ _ _ times (.inl htimes),
    ticks_keep_pitch.2 _ _ _ values (.inr hvalues)⟩

end Axis

end PoolWatch
