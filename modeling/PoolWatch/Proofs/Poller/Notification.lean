import PoolWatch.Proofs.Poller.Moves
/-!
# Notifications

While a completion tells its subscribers they are out of the poller, and what an observer registers
meanwhile goes into a list of its own.  A notification is therefore described by three facts: what
becomes of each subscriber, which calls are made, and what is registered on the way.
-/

namespace PoolWatch

variable {α σ : Type}

structure Call (α σ : Type) where
  ticket : Nat
  observer : σ
  delivery : Delivery α
  done : Bool
  deriving DecidableEq

@[simp] def Event.call? : Event α σ → Option (Call α σ)
  | .called ticket observer delivery done => some ⟨ticket, observer, delivery, done⟩
  | _ => none

def calls (log : List (Event α σ)) : List (Call α σ) := log.filterMap Event.call?

@[simp] theorem calls_nil : calls ([] : List (Event α σ)) = [] := rfl

@[simp] theorem calls_cons (e : Event α σ) (log : List (Event α σ)) :
    calls (e :: log) = e.call?.toList ++ calls log := by
  cases e <;> rfl

@[simp] theorem calls_append (a b : List (Event α σ)) : calls (a ++ b) = calls a ++ calls b :=
  List.filterMap_append

/-! ## One subscriber -/

namespace Subscription

/-- What stays of a subscriber that was told something. -/
def stay? (b : Behaviour α σ) (delivery : Delivery α) (s : Subscription α σ) :
    Option (Subscription α σ) :=
  match s.role with
  | .cancelled => none
  | .waiter accepts => if delivery.result.value?.any accepts then none else some s
  | .observer observer =>
    let reply := b.react observer delivery
    if reply.done then none else some { s with role := .observer reply.observer }

def call? (b : Behaviour α σ) (delivery : Delivery α) (s : Subscription α σ) :
    Option (Call α σ) :=
  match s.role with
  | .observer observer =>
    some ⟨s.ticket, observer, delivery, (b.react observer delivery).done⟩
  | _ => none

theorem ticket_of_stay? {b : Behaviour α σ} {delivery : Delivery α} {s s' : Subscription α σ}
    (h : s.stay? b delivery = some s') : s'.ticket = s.ticket := by
  unfold stay? at h
  split at h
  · cases h
  · split at h
    · cases h
    · cases h
      rfl
  · dsimp only at h
    split at h
    · cases h
    · cases h
      rfl

theorem ticket_of_call? {b : Behaviour α σ} {delivery : Delivery α} {s : Subscription α σ}
    {call : Call α σ} (h : s.call? b delivery = some call) : call.ticket = s.ticket := by
  unfold call? at h
  split at h
  · cases h
    rfl
  · cases h

theorem delivery_of_call? {b : Behaviour α σ} {delivery : Delivery α} {s : Subscription α σ}
    {call : Call α σ} (h : s.call? b delivery = some call) : call.delivery = delivery := by
  unfold call? at h
  split at h
  · cases h
    rfl
  · cases h

end Subscription

/-! ## Registrations -/

/-- Subscribers under tickets that are given out in order. -/
def enroll : Nat → List (Role α σ) → List (Subscription α σ)
  | _, [] => []
  | ticket, role :: roles => ⟨ticket, role⟩ :: enroll (ticket + 1) roles

theorem enroll_append (ticket : Nat) (a b : List (Role α σ)) :
    enroll ticket (a ++ b) = enroll ticket a ++ enroll (ticket + a.length) b := by
  induction a generalizing ticket with
  | nil => rfl
  | cons role a ih =>
    simp only [List.cons_append, enroll, ih, List.length_cons]
    congr 3
    omega

theorem bounds_of_mem_enroll {ticket : Nat} {roles : List (Role α σ)} {s : Subscription α σ}
    (h : s ∈ enroll ticket roles) : ticket ≤ s.ticket ∧ s.ticket < ticket + roles.length := by
  induction roles generalizing ticket with
  | nil => cases h
  | cons role roles ih =>
    rw [enroll, List.mem_cons] at h
    rw [List.length_cons]
    rcases h with rfl | h
    · exact ⟨Nat.le_refl _, Nat.lt_add_of_pos_right (Nat.succ_pos _)⟩
    · have := ih h
      omega

theorem pairwise_enroll (ticket : Nat) (roles : List (Role α σ)) :
    (enroll ticket roles).Pairwise fun s t => s.ticket < t.ticket := by
  induction roles generalizing ticket with
  | nil => exact .nil
  | cons role roles ih =>
    rw [enroll, List.pairwise_cons]
    refine ⟨fun s hs => ?_, ih (ticket + 1)⟩
    exact (bounds_of_mem_enroll hs).1

def commanded (commands : List (Command α σ)) : List (Role α σ) :=
  commands.filterMap fun
    | .observe observer => some (.observer observer)
    | .waitFor accepts => some (.waiter accepts)
    | _ => none

theorem commanded_cons (command : Command α σ) (commands : List (Command α σ)) :
    commanded (command :: commands) = commanded [command] ++ commanded commands := by
  cases command <;> rfl

/-- A poller that was dropped is idle and keeps no subscriber. -/
def Poller.IsTidy (p : Poller α σ) : Prop :=
  p.closed = true → p.running = false ∧ p.subscribers = []

theorem Poller.IsTidy.closed_of_fresh {p : Poller α σ} (h : p.IsTidy) {run seq : Nat}
    (hfresh : p.isStale run seq = false) : p.closed = false := by
  cases hclosed : p.closed with
  | false => rfl
  | true =>
    have hover : p.isStale run seq = true :=
      isStale_of_over (fun hlive => Bool.eq_false_iff.1 (h hclosed).1 hlive.1) seq
    exact absurd (hfresh.symm.trans hover) Bool.false_ne_true

/-- Between two states of a poller only these roles were registered, and perhaps it was stopped or
dropped. -/
structure Enrolls (p p' : Poller α σ) (roles : List (Role α σ)) : Prop where
  current : p'.current = p.current
  nextTicket : p'.nextTicket = p.nextTicket + roles.length
  subscribers : p'.closed = false →
    p.closed = false ∧ p'.subscribers = p.subscribers ++ enroll p.nextTicket roles
  isTidy : p.IsTidy → p'.IsTidy

namespace Enrolls

theorem refl (p : Poller α σ) : Enrolls p p [] :=
  ⟨rfl, rfl, fun h => ⟨h, by simp [enroll]⟩, id⟩

theorem trans {p p' p'' : Poller α σ} {a b : List (Role α σ)} (h : Enrolls p p' a)
    (h' : Enrolls p' p'' b) : Enrolls p p'' (a ++ b) where
  current := h'.current.trans h.current
  nextTicket := by
    rw [h'.nextTicket, h.nextTicket, List.length_append]
    omega
  subscribers hopen := by
    obtain ⟨hopen', hsubscribers'⟩ := h'.subscribers hopen
    obtain ⟨hopen'', hsubscribers⟩ := h.subscribers hopen'
    refine ⟨hopen'', ?_⟩
    rw [hsubscribers', hsubscribers, h.nextTicket, enroll_append, List.append_assoc]
  isTidy htidy := h'.isTidy (h.isTidy htidy)

theorem stop (p : Poller α σ) : Enrolls p p.stop [] := by
  unfold Poller.stop
  split
  · exact ⟨rfl, rfl, fun h => ⟨h, by simp [enroll]⟩, fun htidy hclosed => ⟨rfl, (htidy hclosed).2⟩⟩
  · exact .refl p

theorem start (p : Poller α σ) : Enrolls p p.start [] := by
  unfold Poller.start
  split
  · exact .refl p
  · next hopen =>
    have hstop := stop p
    refine ⟨hstop.current, hstop.nextTicket, hstop.subscribers, fun _ hclosed => ?_⟩
    exact absurd (p.closed_stop.symm.trans hclosed) hopen

theorem drop (p : Poller α σ) : Enrolls p p.drop.1 [] where
  current := (stop p).current
  nextTicket := (stop p).nextTicket
  subscribers hopen := by cases hopen
  isTidy _ _ := ⟨p.running_stop, rfl⟩

theorem subscribe (p : Poller α σ) (role : Role α σ) : Enrolls p (p.subscribe role).1 [role] := by
  unfold Poller.subscribe
  dsimp only
  split
  · next hclosed =>
    exact ⟨rfl, rfl, fun hopen => absurd hclosed (Bool.eq_false_iff.1 hopen), id⟩
  · next hopen =>
    exact ⟨rfl, rfl, fun h => ⟨h, rfl⟩, fun _ hclosed => absurd hclosed hopen⟩

theorem obey (p : Poller α σ) (command : Command α σ) :
    Enrolls p (p.obey command).1 (commanded [command]) := by
  cases command with
  | observe observer => exact subscribe p (.observer observer)
  | waitFor accepts => exact subscribe p (.waiter accepts)
  | setShouldFetch enabled => exact ⟨rfl, rfl, (refl p).subscribers, id⟩
  | stop => exact stop p
  | drop => exact drop p

theorem obeyAll (p : Poller α σ) (commands : List (Command α σ)) :
    Enrolls p (p.obeyAll commands).1 (commanded commands) := by
  induction commands generalizing p with
  | nil => exact .refl p
  | cons command commands ih =>
    rw [commanded_cons]
    exact (obey p command).trans (ih (p.obey command).1)

end Enrolls

/-! ## Subscribers that are told -/

def Event.registers (b : Behaviour α σ) : Event α σ → List (Role α σ)
  | .called _ observer delivery _ => commanded (b.react observer delivery).commands
  | _ => []

/-- Neither a call nor the application of a result. -/
def Event.IsMute : Event α σ → Prop
  | .called .. | .applied .. => False
  | _ => True

section

variable {events : List (Event α σ)}

theorem calls_of_isMute (h : ∀ e ∈ events, e.IsMute) : calls events = [] := by
  refine filterMap_eq_nil_of_forall (fun e hmute => ?_) h
  cases e <;> first | rfl | cases hmute

theorem registers_of_isMute (b : Behaviour α σ) (h : ∀ e ∈ events, e.IsMute) :
    events.flatMap (Event.registers b) = [] := by
  rw [List.flatMap_eq_nil_iff]
  intro e he
  have hmute := h e he
  cases e <;> first | rfl | cases hmute

theorem applications_of_isMute (h : ∀ e ∈ events, e.IsMute) : applications events = [] := by
  refine filterMap_eq_nil_of_forall (fun e hmute => ?_) h
  cases e <;> first | rfl | cases hmute

end

namespace AreAbandonments

theorem isMute {events : List (Event α σ)} (h : AreAbandonments events) :
    ∀ e ∈ events, e.IsMute := by
  intro e he
  obtain ⟨ticket, rfl⟩ := h e he
  trivial

theorem subscribe (p : Poller α σ) (role : Role α σ) : AreAbandonments (p.subscribe role).2 := by
  unfold Poller.subscribe
  dsimp only
  split
  · exact areAbandonments _
  · simp [AreAbandonments]

theorem putBack (p : Poller α σ) (kept : List (Subscription α σ)) :
    AreAbandonments (p.putBack kept).2 := by
  unfold Poller.putBack
  split
  · exact areAbandonments kept
  · simp [AreAbandonments]

theorem obeyAll (p : Poller α σ) (commands : List (Command α σ)) :
    AreAbandonments (p.obeyAll commands).2 := by
  induction commands generalizing p with
  | nil => simp [AreAbandonments, Poller.obeyAll]
  | cons command commands ih =>
    intro e he
    rw [Poller.obeyAll, List.mem_append] at he
    rcases he with he | he
    · cases command with
      | observe observer => exact subscribe p (.observer observer) e he
      | waitFor accepts => exact subscribe p (.waiter accepts) e he
      | setShouldFetch enabled => cases he
      | stop => cases he
      | drop => exact areAbandonments p.subscribers e he
    · exact ih _ e he

end AreAbandonments

/-- What a notification of some subscribers leads to: the poller afterwards, the subscribers that
stay, and the events. -/
structure Notifies (b : Behaviour α σ) (result : Outcome α) (p : Poller α σ)
    (taken : List (Subscription α σ))
    (next : Poller α σ × List (Subscription α σ) × List (Event α σ)) : Prop where
  enrolls : Enrolls p next.1 (next.2.2.flatMap (Event.registers b))
  kept : next.2.1 = taken.filterMap (Subscription.stay? b ⟨result, p.current⟩)
  calls : calls next.2.2 = taken.filterMap (Subscription.call? b ⟨result, p.current⟩)
  isQuiet : ∀ e ∈ next.2.2, e.IsQuiet

namespace Notifies

theorem nil (b : Behaviour α σ) (result : Outcome α) (p : Poller α σ) :
    Notifies b result p [] (p, [], []) :=
  ⟨.refl p, rfl, rfl, by simp⟩

theorem append {b : Behaviour α σ} {result : Outcome α} {p p' p'' : Poller α σ}
    {taken taken' kept kept' : List (Subscription α σ)} {events events' : List (Event α σ)}
    (h : Notifies b result p taken (p', kept, events))
    (h' : Notifies b result p' taken' (p'', kept', events')) :
    Notifies b result p (taken ++ taken') (p'', kept ++ kept', events ++ events') := by
  have hcurrent : p'.current = p.current := h.enrolls.current
  constructor
  · rw [List.flatMap_append]
    exact h.enrolls.trans h'.enrolls
  · rw [List.filterMap_append, ← h.kept, ← hcurrent, ← h'.kept]
  · rw [calls_append, List.filterMap_append, ← h.calls, ← hcurrent, ← h'.calls]
  · intro e he
    rcases List.mem_append.1 he with he | he
    · exact h.isQuiet e he
    · exact h'.isQuiet e he

theorem call (b : Behaviour α σ) (p : Poller α σ) (result : Outcome α) (s : Subscription α σ) :
    Notifies b result p [s]
      ((p.call b result s).1, (p.call b result s).2.1.toList, (p.call b result s).2.2) := by
  obtain ⟨ticket, role⟩ := s
  cases role with
  | cancelled => exact ⟨.refl p, rfl, rfl, by simp [Poller.call]⟩
  | waiter accepts =>
    cases result with
    | failure error => exact ⟨.refl p, rfl, rfl, by simp [Poller.call]⟩
    | success value =>
      by_cases haccepts : accepts value = true
      · constructor <;> simp [Poller.call, haccepts, Subscription.stay?, Subscription.call?,
          Outcome.value?, Event.registers, Enrolls.refl, Event.IsQuiet]
      · constructor <;> simp [Poller.call, haccepts, Subscription.stay?, Subscription.call?,
          Outcome.value?, Enrolls.refl]
  | observer observer =>
    constructor
    · show Enrolls p (p.obeyAll (b.react observer ⟨result, p.current⟩).commands).1 _
      rw [Poller.call, List.flatMap_cons,
        registers_of_isMute b (AreAbandonments.obeyAll _ _).isMute, List.append_nil]
      exact Enrolls.obeyAll p _
    · simp only [Poller.call, Subscription.stay?, List.filterMap_cons, List.filterMap_nil]
      split <;> simp_all
    · simp only [Poller.call, calls_cons, calls_of_isMute (AreAbandonments.obeyAll _ _).isMute,
        Event.call?, List.append_nil]
      rfl
    · intro e he
      rcases List.mem_cons.1 he with rfl | he
      · trivial
      · exact (AreAbandonments.obeyAll _ _).isQuiet e he

theorem notify (b : Behaviour α σ) (result : Outcome α) (p : Poller α σ)
    (taken : List (Subscription α σ)) : Notifies b result p taken (p.notify b result taken) := by
  induction taken generalizing p with
  | nil => exact nil b result p
  | cons s rest ih => exact (call b p result s).append (ih (p.call b result s).1)

end Notifies

/-! ## Completions -/

/-- What an applied result leads to: the poller afterwards, and the events that follow the
application. -/
structure Applies (b : Behaviour α σ) (p : Poller α σ) (result : Outcome α) (p' : Poller α σ)
    (told : List (Event α σ)) : Prop where
  nextTicket : p'.nextTicket = p.nextTicket + (told.flatMap (Event.registers b)).length
  subscribers : p'.closed = false → p.closed = false ∧
    p'.subscribers =
      p.subscribers.filterMap (Subscription.stay? b ⟨result, result.shown⟩) ++
        enroll p.nextTicket (told.flatMap (Event.registers b))
  isTidy : p.IsTidy → p'.IsTidy
  calls : calls told = p.subscribers.filterMap (Subscription.call? b ⟨result, result.shown⟩)
  isQuiet : ∀ e ∈ told, e.IsQuiet

namespace Poller

/-- The poller in which subscribers are told a result. -/
def accepted (p : Poller α σ) (seq : Nat) (result : Outcome α) : Poller α σ :=
  { p with
    appliedSeq := some seq
    current := result.shown
    subscribers := []
    stats := { p.stats with completed := p.stats.completed + 1 } }

theorem accept?_of_fresh {p : Poller α σ} {run seq : Nat} (hfresh : p.isStale run seq = false)
    (result : Outcome α) :
    p.accept? run seq result = some (p.accepted seq result, p.subscribers) := by
  rw [accept?, hfresh, if_neg Bool.false_ne_true, accepted]

theorem nextTicket_putBack (p : Poller α σ) (kept : List (Subscription α σ)) :
    (p.putBack kept).1.nextTicket = p.nextTicket := by
  unfold putBack
  split <;> rfl

theorem applies_complete (b : Behaviour α σ) {p : Poller α σ} {run seq : Nat}
    (hfresh : p.isStale run seq = false) (result : Outcome α) :
    ∃ told, (p.complete b run seq result).2 = .applied run seq result :: told ∧
      Applies b p result (p.complete b run seq result).1 told := by
  unfold complete
  rw [accept?_of_fresh hfresh]
  dsimp only
  have hnotify := Notifies.notify b result (p.accepted seq result) p.subscribers
  generalize (p.accepted seq result).notify b result p.subscribers = next at hnotify ⊢
  obtain ⟨p', kept, events⟩ := next
  obtain ⟨henrolls, hkept, hcalls, hquiet⟩ := hnotify
  dsimp only at henrolls hkept hcalls hquiet ⊢
  refine ⟨events ++ (p'.putBack kept).2, rfl, ?_⟩
  have hreturned := AreAbandonments.putBack p' kept
  have hregisters : (events ++ (p'.putBack kept).2).flatMap (Event.registers b) =
      events.flatMap (Event.registers b) := by
    rw [List.flatMap_append, registers_of_isMute b hreturned.isMute, List.append_nil]
  constructor
  · rw [hregisters, nextTicket_putBack, henrolls.nextTicket]
    rfl
  · intro hopen
    rw [hregisters]
    unfold putBack at hopen ⊢
    split at hopen
    · next hclosed => exact absurd hclosed (Bool.eq_false_iff.1 hopen)
    · next hclosed =>
      obtain ⟨hopen', hsubscribers⟩ := henrolls.subscribers hopen
      refine ⟨hopen', ?_⟩
      rw [if_neg hclosed, hsubscribers, hkept]
      rfl
  · intro htidy
    have htidy' : p'.IsTidy := henrolls.isTidy fun hclosed => ⟨(htidy hclosed).1, rfl⟩
    unfold putBack
    split
    · exact htidy'
    · next hopen => exact fun hclosed => absurd hclosed hopen
  · rw [calls_append, calls_of_isMute hreturned.isMute, List.append_nil, hcalls]
    rfl
  · intro e he
    rcases List.mem_append.1 he with he | he
    · exact hquiet e he
    · exact hreturned.isQuiet e he

theorem isMute_move (p : Poller α σ) (m : Move α σ) : ∀ e ∈ (p.move m).2, e.IsMute := by
  cases m with
  | drop => exact (areAbandonments p.subscribers).isMute
  | subscribe role => exact (AreAbandonments.subscribe p role).isMute
  | tick run =>
    intro e he
    rw [move, tick] at he
    split at he
    · split at he
      · rw [List.mem_singleton.1 he]
        trivial
      · rw [List.mem_singleton.1 he]
        trivial
    · cases he
  | _ =>
    intro e he
    cases he

end Poller

end PoolWatch
