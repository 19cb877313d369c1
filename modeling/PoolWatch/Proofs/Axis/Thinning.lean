import PoolWatch.Proofs.Axis.Pitch
import PoolWatch.Proofs.Numeric.FloatDivision
/-!
# Thinning what is thin

Ticks whose neighbours keep the pitch are left as they are: their least distance is not below the
pitch, so every one of them is chosen, and none is too close to the one before it.  So thinning
changes nothing exactly when the pitch is kept, and thinning once more changes nothing.
-/

namespace PoolWatch.Tick

open PoolWatch.Numeric

/-! ## The least distance -/

theorem lesser32_eq_or (x y : Float32) : lesser32 x y = x ∨ lesser32 x y = y := by
  unfold lesser32
  split
  · exact .inl rfl
  · exact .inr rfl

theorem not_infinity_lt (x : Float32) : ¬Float32.ofBits 0x7f800000 < x := fun hlt =>
  absurd (float32_lt_iff.1 hlt).2.2 (not_lt_of_ge (place_le_infinity _))

section

variable {pitch : Float32} {ts : List Tick}

theorem not_lt_of_mem_gaps (h : ts.IsChain fun a b => ¬a.gap b < pitch) :
    ∀ x ∈ ts.zipWith gap ts.tail, ¬x < pitch := by
  induction ts with
  | nil => exact fun x hx => absurd hx List.not_mem_nil
  | cons t ts ih =>
    cases ts with
    | nil => exact fun x hx => absurd hx List.not_mem_nil
    | cons u us =>
      obtain ⟨hfar, hrest⟩ := List.isChain_cons_cons.1 h
      exact List.forall_mem_cons.2 ⟨hfar, ih hrest⟩

theorem not_leastGap_lt (h : ts.IsChain fun a b => ¬a.gap b < pitch) : ¬leastGap ts < pitch := by
  refine List.foldlRecOn (motive := fun x : Float32 => ¬x < pitch) _ _ (not_infinity_lt pitch)
    fun least hleast x hx => ?_
  obtain heq | heq := lesser32_eq_or least x
  · rwa [heq]
  · rw [heq]
    exact not_lt_of_mem_gaps h x hx

/-! ## The regular choice -/

theorem stride_of_isChain (h : ts.IsChain fun a b => ¬a.gap b < pitch) : stride pitch ts = 1 := by
  unfold stride
  dsimp only
  split
  next hleast =>
    exact Nat.max_eq_right (toUnsigned_up_div32_le_one (not_leastGap_lt h) hleast.1 hleast.2)
  next => rfl

theorem everyNth_one {α : Type} (xs : List α) : everyNth 1 0 xs = xs := by
  induction xs with
  | nil => rfl
  | cons x xs ih => exact congrArg (x :: ·) ih

/-! ## Thinning -/

theorem thin_of_isChain (h : ts.IsChain fun a b => ¬a.gap b < pitch) : thin pitch ts = ts := by
  unfold thin
  split
  · rfl
  · rw [stride_of_isChain h, everyNth_one, spaced_eq]
    exact List.destutter_of_isChain _ _ h

theorem thin_eq_self_iff : thin pitch ts = ts ↔ ts.IsChain fun a b => ¬a.gap b < pitch :=
  ⟨fun h => h ▸ isChain_thin pitch ts, thin_of_isChain⟩

end

/-- Thinning once more changes nothing: of thinned ticks every one is chosen, and none is too close
to the one before it.  Ticks are left as they are exactly when no two neighbours are closer than the
pitch. -/
theorem thin_idempotent (pitch : Float32) (ts : List Tick) :
    thin pitch (thin pitch ts) = thin pitch ts ∧
      (stride pitch (thin pitch ts) = 1 ∧ spaced pitch (thin pitch ts) = thin pitch ts) ∧
      (thin pitch ts = ts ↔ ts.IsChain fun s t => ¬(t.px - s.px).abs < pitch) := by
  have hkept := isChain_thin pitch ts
  refine ⟨thin_of_isChain hkept, ⟨stride_of_isChain hkept, ?_⟩, thin_eq_self_iff⟩
  rw [spaced_eq]
  exact List.destutter_of_isChain _ _ hkept

end PoolWatch.Tick
