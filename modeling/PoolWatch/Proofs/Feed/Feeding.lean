import PoolWatch.Feed
import PoolWatch.Proofs.History.Recording
import PoolWatch.Proofs.Poller.Timing
/-!
# The feeding observer

The observer that feeds a history is never done, so every completion that applies a result calls it
and puts it back, at the head of the subscribers.  It is therefore told of every pool that is shown,
once and in order, and what it is told is what the history has recorded.
-/

namespace PoolWatch

variable {σ : Type}

def Event.shown? {α σ : Type} : Event α σ → Option α
  | .applied _ _ result => result.value?
  | _ => none

/-- The pools shown in a log, in the order in which their fetches were applied. -/
def shownPools {α σ : Type} (log : List (Event α σ)) : List α := log.filterMap Event.shown?

def Event.fed? : Event (List Group) (FeedObserver σ) → Option (List Group)
  | .called _ .feeder delivery _ => delivery.result.value?
  | _ => none

/-- The pools that the feeding observer was told of, in order. -/
def fedPools (log : List (Event (List Group) (FeedObserver σ))) : List (List Group) :=
  log.filterMap Event.fed?

theorem shownPools_cons {α : Type} (e : Event α σ) (log : List (Event α σ)) :
    shownPools (e :: log) = e.shown?.toList ++ shownPools log := by
  cases h : e.shown? <;> simp [shownPools, h]

theorem fedPools_cons (e : Event (List Group) (FeedObserver σ))
    (log : List (Event (List Group) (FeedObserver σ))) :
    fedPools (e :: log) = e.fed?.toList ++ fedPools log := by
  cases h : e.fed? <;> simp [fedPools, h]

@[simp] theorem shownPools_append {α : Type} (a b : List (Event α σ)) :
    shownPools (a ++ b) = shownPools a ++ shownPools b :=
  List.filterMap_append

@[simp] theorem fedPools_append (a b : List (Event (List Group) (FeedObserver σ))) :
    fedPools (a ++ b) = fedPools a ++ fedPools b :=
  List.filterMap_append

theorem shownPools_of_isMute {α : Type} {events : List (Event α σ)}
    (h : ∀ e ∈ events, e.IsMute) : shownPools events = [] := by
  refine filterMap_eq_nil_of_forall (fun e hmute => ?_) h
  cases e <;> first | rfl | cases hmute

theorem shownPools_of_isQuiet {α : Type} {events : List (Event α σ)}
    (h : ∀ e ∈ events, e.IsQuiet) : shownPools events = [] := by
  refine filterMap_eq_nil_of_forall (fun e hquiet => ?_) h
  cases e <;> first | rfl | cases hquiet

theorem fedPools_of_isMute {events : List (Event (List Group) (FeedObserver σ))}
    (h : ∀ e ∈ events, e.IsMute) : fedPools events = [] := by
  refine filterMap_eq_nil_of_forall (fun e hmute => ?_) h
  cases e <;> first | rfl | cases hmute

def Call.fed? (call : Call (List Group) (FeedObserver σ)) : Option (List Group) :=
  match call.observer with
  | .feeder => call.delivery.result.value?
  | .other _ => none

theorem fedPools_eq_calls (events : List (Event (List Group) (FeedObserver σ))) :
    fedPools events = (calls events).filterMap Call.fed? := by
  rw [calls, List.filterMap_filterMap]
  refine List.filterMap_congr fun e _ => ?_
  cases e with
  | called ticket observer delivery done => cases observer <;> rfl
  | _ => rfl

/-! ## What the history takes -/

theorem foldl_take (h : History) (events : List (Event (List Group) (FeedObserver σ))) :
    events.foldl History.take h =
      (fedPools events).foldl (fun h groups => (h.record groups).2) h := by
  induction events generalizing h with
  | nil => rfl
  | cons e events ih =>
    rw [List.foldl_cons, ih, fedPools_cons, List.foldl_append]
    congr 1
    cases e with
    | called ticket observer delivery done =>
      obtain ⟨result, state⟩ := delivery
      cases observer <;> cases result <;> rfl
    | _ => rfl

/-! ## The feeding observer stays -/

/-- A role that does not feed the history. -/
def Role.IsBeside (role : Role (List Group) (FeedObserver σ)) : Prop := role ≠ .observer .feeder

/-- The feeding observer is the first of the subscribers, and the only one of its kind. -/
def IsFeeding (subscribers : List (Subscription (List Group) (FeedObserver σ))) : Prop :=
  ∃ others, subscribers = ⟨0, .observer .feeder⟩ :: others ∧ ∀ s ∈ others, s.role.IsBeside

/-- As long as a poller is not dropped it has its feeding observer, which was told of every pool
that was shown. -/
structure Fed (p : Poller (List Group) (FeedObserver σ))
    (log : List (Event (List Group) (FeedObserver σ))) : Prop where
  isTidy : p.IsTidy
  isFeeding : p.closed = false → IsFeeding p.subscribers
  fedPools_eq : fedPools log = shownPools log

theorem isBeside_forFeed (role : Role (List Group) σ) : role.forFeed.IsBeside := by
  cases role <;> exact fun h => by cases h

theorem isBeside_commanded (commands : List (Command (List Group) σ)) :
    ∀ role ∈ commanded (commands.map Command.forFeed), role.IsBeside := by
  intro role hrole
  rw [commanded, List.filterMap_map, List.mem_filterMap] at hrole
  obtain ⟨command, -, hcommand⟩ := hrole
  cases command <;> cases hcommand <;> exact fun h => by cases h

theorem isBeside_registers (b : Behaviour (List Group) σ)
    (e : Event (List Group) (FeedObserver σ)) :
    ∀ role ∈ e.registers (FeedObserver.behaviour b), role.IsBeside := by
  intro role hrole
  cases e with
  | called ticket observer delivery done =>
    cases observer with
    | feeder => cases hrole
    | other observer => exact isBeside_commanded _ role hrole
  | _ => cases hrole

theorem isBeside_enroll {ticket : Nat} {roles : List (Role (List Group) (FeedObserver σ))}
    (h : ∀ role ∈ roles, role.IsBeside) : ∀ s ∈ enroll ticket roles, s.role.IsBeside := by
  induction roles generalizing ticket with
  | nil => exact fun s hs => absurd hs List.not_mem_nil
  | cons role roles ih =>
    obtain ⟨hrole, hrest⟩ := List.forall_mem_cons.1 h
    exact List.forall_mem_cons.2 ⟨hrole, ih hrest⟩

theorem IsFeeding.append {subscribers others : List (Subscription (List Group) (FeedObserver σ))}
    (h : IsFeeding subscribers) (hothers : ∀ s ∈ others, s.role.IsBeside) :
    IsFeeding (subscribers ++ others) := by
  obtain ⟨first, rfl, hfirst⟩ := h
  exact ⟨first ++ others, rfl, List.forall_mem_append.2 ⟨hfirst, hothers⟩⟩

theorem isBeside_of_stay? {b : Behaviour (List Group) σ} {delivery : Delivery (List Group)}
    {s s' : Subscription (List Group) (FeedObserver σ)} (h : s.role.IsBeside)
    (hstay : s.stay? (FeedObserver.behaviour b) delivery = some s') : s'.role.IsBeside := by
  unfold Subscription.stay? at hstay
  split at hstay
  · cases hstay
  · split at hstay
    · cases hstay
    · cases hstay
      exact h
  next observer hrole =>
    cases observer with
    | feeder => exact absurd hrole h
    | other observer =>
      dsimp only at hstay
      split at hstay
      · cases hstay
      · cases hstay
        exact fun h => by cases h

theorem IsFeeding.filterMap_stay? {subscribers : List (Subscription (List Group) (FeedObserver σ))}
    (h : IsFeeding subscribers) (b : Behaviour (List Group) σ) (delivery : Delivery (List Group)) :
    IsFeeding (subscribers.filterMap (Subscription.stay? (FeedObserver.behaviour b) delivery)) := by
  obtain ⟨others, rfl, hothers⟩ := h
  refine ⟨others.filterMap (Subscription.stay? (FeedObserver.behaviour b) delivery), rfl, ?_⟩
  intro s hs
  obtain ⟨s', hmem, hstay⟩ := List.mem_filterMap.1 hs
  exact isBeside_of_stay? (hothers s' hmem) hstay

theorem IsFeeding.filterMap_call? {subscribers : List (Subscription (List Group) (FeedObserver σ))}
    (h : IsFeeding subscribers) (b : Behaviour (List Group) σ) (delivery : Delivery (List Group)) :
    (subscribers.filterMap (Subscription.call? (FeedObserver.behaviour b) delivery)).filterMap
      Call.fed? = delivery.result.value?.toList := by
  obtain ⟨others, rfl, hothers⟩ := h
  have hnone : (others.filterMap (Subscription.call? (FeedObserver.behaviour b) delivery)).filterMap
      Call.fed? = [] := by
    rw [List.filterMap_filterMap, List.filterMap_eq_nil_iff]
    rintro ⟨ticket, role⟩ hmem
    have hbeside := hothers _ hmem
    cases role with
    | cancelled => rfl
    | waiter accepts => rfl
    | observer observer =>
      cases observer with
      | feeder => exact absurd rfl hbeside
      | other observer => rfl
  have hfirst : Subscription.call? (FeedObserver.behaviour b) delivery ⟨0, .observer .feeder⟩ =
      some ⟨0, .feeder, delivery, false⟩ := rfl
  have hfed : Call.fed? (⟨0, .feeder, delivery, false⟩ : Call (List Group) (FeedObserver σ)) =
      delivery.result.value? := rfl
  rw [List.filterMap_cons_some hfirst]
  cases hvalue : delivery.result.value? with
  | none => rw [List.filterMap_cons_none (hfed.trans hvalue), hnone, Option.toList_none]
  | some groups => rw [List.filterMap_cons_some (hfed.trans hvalue), hnone, Option.toList_some]

/-! ## What a poller goes through -/

namespace Fed

variable {p : Poller (List Group) (FeedObserver σ)}
  {log : List (Event (List Group) (FeedObserver σ))}

theorem fedPools_mute (h : Fed p log) {events : List (Event (List Group) (FeedObserver σ))}
    (hmute : ∀ e ∈ events, e.IsMute) : fedPools (log ++ events) = shownPools (log ++ events) := by
  rw [fedPools_append, shownPools_append, fedPools_of_isMute hmute, shownPools_of_isMute hmute,
    h.fedPools_eq]

theorem enrolls (h : Fed p log) {p' : Poller (List Group) (FeedObserver σ)}
    {roles : List (Role (List Group) (FeedObserver σ))}
    {events : List (Event (List Group) (FeedObserver σ))} (henrolls : Enrolls p p' roles)
    (hroles : ∀ role ∈ roles, role.IsBeside) (hmute : ∀ e ∈ events, e.IsMute) :
    Fed p' (log ++ events) where
  isTidy := henrolls.isTidy h.isTidy
  isFeeding hopen := by
    obtain ⟨hopen', hsubscribers⟩ := henrolls.subscribers hopen
    rw [hsubscribers]
    exact (h.isFeeding hopen').append (isBeside_enroll hroles)
  fedPools_eq := h.fedPools_mute hmute

theorem move (h : Fed p log) (m : Move (List Group) (FeedObserver σ))
    (hrole : ∀ role ∈ m.role?, role.IsBeside) :
    Fed (p.move m).1 (log ++ (p.move m).2) := by
  have hmute := p.isMute_move m
  have hnone : ∀ role ∈ ([] : List (Role (List Group) (FeedObserver σ))), role.IsBeside :=
    fun _ hmem => absurd hmem List.not_mem_nil
  cases m with
  | start => exact h.enrolls (.start p) hnone hmute
  | stop => exact h.enrolls (.stop p) hnone hmute
  | drop => exact h.enrolls (.drop p) hnone hmute
  | setShouldFetch enabled =>
    have henrolls : Enrolls p (p.setShouldFetch enabled) [] :=
      ⟨rfl, rfl, (Enrolls.refl p).subscribers, id⟩
    exact h.enrolls henrolls hnone hmute
  | subscribe role =>
    exact h.enrolls (.subscribe p role) (List.forall_mem_singleton.2 (hrole role rfl)) hmute
  | cancel ticket =>
    refine ⟨fun hclosed => ?_, fun hopen => ?_, h.fedPools_mute hmute⟩
    · have hnone := (h.isTidy hclosed).2
      exact ⟨(h.isTidy hclosed).1, by simp [Poller.move, Poller.cancel, hnone]⟩
    · obtain ⟨others, hsubscribers, hothers⟩ := h.isFeeding hopen
      refine ⟨(Poller.cancel { p with subscribers := others } ticket).subscribers, ?_, ?_⟩
      · simp [Poller.move, Poller.cancel, hsubscribers]
      · intro s hs
        obtain ⟨⟨t, role⟩, hmem, rfl⟩ := List.mem_map.1 hs
        have hbeside := hothers _ hmem
        dsimp only
        split
        · split
          · exact fun h => by cases h
          · exact hbeside
        · exact hbeside
  | tick run =>
    obtain ⟨-, hclosed, hrunning, hsubscribers⟩ := p.tick_frame run
    refine ⟨fun hclosed' => ?_, fun hopen => ?_, h.fedPools_mute hmute⟩
    · have htidy := h.isTidy (hclosed.symm.trans hclosed')
      exact ⟨hrunning.trans htidy.1, hsubscribers.trans htidy.2⟩
    · show IsFeeding (p.tick run).1.subscribers
      rw [hsubscribers]
      exact h.isFeeding (hclosed.symm.trans hopen)

theorem complete (h : Fed p log) (b : Behaviour (List Group) σ) (run seq : Nat)
    (result : Outcome (List Group)) :
    Fed (p.complete (FeedObserver.behaviour b) run seq result).1
      (log ++ (p.complete (FeedObserver.behaviour b) run seq result).2) := by
  cases hstale : p.isStale run seq with
  | true =>
    rw [Poller.complete_of_isStale _ hstale]
    have henrolls : Enrolls p p.discard [] := ⟨rfl, rfl, (Enrolls.refl p).subscribers, id⟩
    refine h.enrolls henrolls ?_ ?_
    · exact fun _ hmem => absurd hmem List.not_mem_nil
    · exact List.forall_mem_singleton.2 trivial
  | false =>
    obtain ⟨told, htold, happlies⟩ :=
      Poller.applies_complete (FeedObserver.behaviour b) hstale result
    have hopen : p.closed = false := h.isTidy.closed_of_fresh hstale
    refine ⟨happlies.isTidy h.isTidy, fun hopen' => ?_, ?_⟩
    · rw [(happlies.subscribers hopen').2]
      refine ((h.isFeeding hopen).filterMap_stay? b _).append (isBeside_enroll ?_)
      intro role hrole
      obtain ⟨e, -, hrole⟩ := List.mem_flatMap.1 hrole
      exact isBeside_registers b e role hrole
    · have hfed : fedPools told = result.value?.toList := by
        rw [fedPools_eq_calls, happlies.calls]
        exact (h.isFeeding hopen).filterMap_call? b _
      calc fedPools (log ++ (p.complete (FeedObserver.behaviour b) run seq result).2)
          = fedPools log ++ fedPools told := by rw [htold, fedPools_append, fedPools_cons]; rfl
        _ = shownPools log ++ result.value?.toList := by rw [h.fedPools_eq, hfed]
        _ = shownPools (log ++ (p.complete (FeedObserver.behaviour b) run seq result).2) := by
          rw [htold, shownPools_append, shownPools_cons, shownPools_of_isQuiet happlies.isQuiet,
            List.append_nil]
          rfl

end Fed

end PoolWatch
