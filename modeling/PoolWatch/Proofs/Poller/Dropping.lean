import PoolWatch.Proofs.Poller.Settlement
/-!
# Dropped pollers

A poller is closed exactly if it was dropped, be it from outside or by an observer while it was
called, and a closed poller applies no result any more.
-/

namespace PoolWatch

variable {α σ : Type}

/-- An observer called in a log drops its poller. -/
def CallsDrop (b : Behaviour α σ) (log : List (Event α σ)) : Prop :=
  ∃ call ∈ calls log, .drop ∈ (b.react call.observer call.delivery).commands

theorem callsDrop_append (b : Behaviour α σ) (first second : List (Event α σ)) :
    CallsDrop b (first ++ second) ↔ CallsDrop b first ∨ CallsDrop b second := by
  simp only [CallsDrop, calls_append, List.mem_append, or_and_right, exists_or]

theorem not_callsDrop_of_isMute (b : Behaviour α σ) {events : List (Event α σ)}
    (h : ∀ e ∈ events, e.IsMute) : ¬CallsDrop b events := by
  simp [CallsDrop, calls_of_isMute h]

/-- A poller was dropped, from outside or by an observer that it called. -/
def WasDropped (b : Behaviour α σ) (actions : List (Action α σ)) (log : List (Event α σ)) : Prop :=
  .move .drop ∈ actions ∨ CallsDrop b log

namespace Poller

theorem closed_subscribe (p : Poller α σ) (role : Role α σ) :
    (p.subscribe role).1.closed = p.closed := by
  unfold subscribe
  dsimp only
  split <;> rfl

theorem closed_obeyAll (p : Poller α σ) (commands : List (Command α σ)) :
    (p.obeyAll commands).1.closed = true ↔ p.closed = true ∨ .drop ∈ commands := by
  induction commands generalizing p with
  | nil => simp [obeyAll]
  | cons command commands ih =>
    rw [obeyAll, List.mem_cons]
    dsimp only
    rw [ih]
    cases command with
    | observe observer => simp [obey, closed_subscribe]
    | waitFor accepts => simp [obey, closed_subscribe]
    | setShouldFetch enabled => simp [obey, setShouldFetch]
    | stop => simp [obey, closed_stop]
    | drop => simp [obey, drop]

theorem closed_call (b : Behaviour α σ) (p : Poller α σ) (result : Outcome α)
    (s : Subscription α σ) :
    (p.call b result s).1.closed = true ↔
      p.closed = true ∨ CallsDrop b (p.call b result s).2.2 := by
  obtain ⟨ticket, role⟩ := s
  cases role with
  | cancelled => simp [call, CallsDrop]
  | waiter accepts =>
    cases result with
    | failure error => simp [call, CallsDrop]
    | success value => cases h : accepts value <;> simp [call, CallsDrop, h]
  | observer observer =>
    have hnone := calls_of_isMute
      (AreAbandonments.obeyAll p (b.react observer ⟨result, p.current⟩).commands).isMute
    simp [call, CallsDrop, hnone, closed_obeyAll]

theorem closed_notify (b : Behaviour α σ) (p : Poller α σ) (result : Outcome α)
    (taken : List (Subscription α σ)) :
    (p.notify b result taken).1.closed = true ↔
      p.closed = true ∨ CallsDrop b (p.notify b result taken).2.2 := by
  induction taken generalizing p with
  | nil => simp [notify, CallsDrop]
  | cons s rest ih =>
    rw [notify, callsDrop_append]
    dsimp only
    rw [ih, closed_call, or_assoc]

theorem closed_complete (b : Behaviour α σ) (p : Poller α σ) (run seq : Nat)
    (result : Outcome α) :
    (p.complete b run seq result).1.closed = true ↔
      p.closed = true ∨ CallsDrop b (p.complete b run seq result).2 := by
  cases hstale : p.isStale run seq with
  | true =>
    rw [complete_of_isStale b hstale]
    simp [discard, CallsDrop]
  | false =>
    rw [complete_of_fresh b hstale]
    dsimp only
    set next := (p.accepted seq result).notify b result p.subscribers
    have happlied : ¬CallsDrop b [.applied run seq result] := by simp [CallsDrop]
    have hreturned : ¬CallsDrop b (next.1.putBack next.2.1).2 :=
      not_callsDrop_of_isMute b (AreAbandonments.putBack next.1 next.2.1).isMute
    rw [closed_putBack, closed_notify, ← List.singleton_append, callsDrop_append,
      callsDrop_append]
    simp only [happlied, hreturned, false_or, or_false]
    rfl

theorem closed_move (p : Poller α σ) (m : Move α σ) :
    (p.move m).1.closed = true ↔ p.closed = true ∨ m = .drop := by
  cases m with
  | start => simp [move, closed_start]
  | stop => simp [move, closed_stop]
  | drop => simp [move, drop]
  | setShouldFetch enabled => simp [move, setShouldFetch]
  | subscribe role => simp [move, closed_subscribe]
  | cancel ticket => simp [move, cancel]
  | tick run => simp [move, (p.tick_frame run).2.1]

theorem closed_act (b : Behaviour α σ) (p : Poller α σ) (action : Action α σ) :
    (p.act b action).1.closed = true ↔
      p.closed = true ∨ action = .move .drop ∨ CallsDrop b (happenings (p.act b action).2) := by
  cases action with
  | complete run seq result =>
    show (p.complete b run seq result).1.closed = true ↔ _
    rw [closed_complete]
    simp [act]
  | move m =>
    have hmute := not_callsDrop_of_isMute b (p.isMute_move m)
    have hhappenings : happenings (p.act b (.move m)).2 = (p.move m).2 := by
      simp [act, happenings_map_registered]
    show (p.move m).1.closed = true ↔ _
    rw [closed_move, hhappenings]
    simp [hmute]

end Poller

namespace Story

theorem closed_run (b : Behaviour α σ) (policy : Policy) (actions : List (Action α σ)) :
    ((fresh policy).run b actions).poller.closed = true ↔
      WasDropped b actions (happenings ((fresh policy).run b actions).entries) := by
  induction actions using List.reverseRecOn with
  | nil => simp [run, fresh, WasDropped, CallsDrop, happenings]
  | append_singleton actions action ih =>
    rw [run_append]
    show ((((fresh policy).run b actions).poller.act b action).1.closed = true) ↔
      WasDropped b (actions ++ [action]) (happenings (((fresh policy).run b actions).entries ++
        (((fresh policy).run b actions).poller.act b action).2))
    rw [Poller.closed_act, ih, happenings_append, WasDropped, WasDropped, callsDrop_append,
      List.mem_append, List.mem_singleton]
    constructor
    · rintro ((h | h) | rfl | h)
      · exact Or.inl (Or.inl h)
      · exact Or.inr (Or.inl h)
      · exact Or.inl (Or.inr rfl)
      · exact Or.inr (Or.inr h)
    · rintro ((h | h) | h | h)
      · exact Or.inl (Or.inl h)
      · exact Or.inr (Or.inl h.symm)
      · exact Or.inl (Or.inr h)
      · exact Or.inr (Or.inr h)

theorem results_of_closed {b : Behaviour α σ} {story : Story α σ}
    (htold : Told b story.poller story.entries) (hclosed : story.poller.closed = true)
    (more : List (Action α σ)) : results (story.run b more).entries = results story.entries := by
  induction more generalizing story with
  | nil => rfl
  | cons action more ih =>
    have hadvances := Advances.act b story.poller action
    have hnone := hadvances.results_of_idle (htold.isTidy hclosed).1
    have hclosed' := (Poller.closed_act b story.poller action).2 (Or.inl hclosed)
    have htold' : Told b (story.act b action).poller (story.act b action).entries :=
      htold.advance hadvances
    have hrest := ih htold' hclosed'
    show results ((story.act b action).run b more).entries = results story.entries
    rw [hrest]
    show results (story.entries ++ (story.poller.act b action).2) = results story.entries
    rw [results_append, hnone, List.append_nil]

end Story

end PoolWatch
