import PoolWatch.Proofs.Poller.Dropping
/-!
# Waiting for a value

A wait is pending until a result with a value that it accepts is applied, however many other
results are applied or dropped before and however often the poller is stopped and started.  If the
poller is dropped first, the wait is closed.  The invariant says of each wait so far which events
have ended it, and that the poller keeps it as long as there are none.
-/

namespace PoolWatch

variable {α σ : Type}

/-! ## What an action does to the waits -/

/-- What remains of the subscribers under a ticket after an action with these entries. -/
def remaining (b : Behaviour α σ) (p : Poller α σ) (new : List (Entry α σ)) (ticket : Nat) :
    List (Subscription α σ) :=
  (underTicket ticket p.subscribers).filterMap (Subscription.after? b (results new)) ++
    underTicket ticket (enroll p.nextTicket (registrations new))

theorem filter_resolutions (ticket : Nat) (outcomes : List (Outcome α))
    (subscribers : List (Subscription α σ)) :
    (subscribers.filterMap (Subscription.resolution? outcomes)).filter (fun r => r.1 = ticket) =
      (underTicket ticket subscribers).filterMap (Subscription.resolution? outcomes) := by
  rw [underTicket, List.filter_filterMap, List.filterMap_filter]
  congr 1
  ext s : 1
  obtain ⟨t, role⟩ := s
  cases role with
  | waiter accepts =>
    by_cases h : t = ticket <;> cases hfirst : accepted? accepts outcomes <;>
      simp [h, hfirst, Subscription.resolution?, Option.filter]
  | _ => simp [Subscription.resolution?, Option.filter]

theorem underTicket_after? (b : Behaviour α σ) (ticket : Nat) (outcomes : List (Outcome α))
    (subscribers : List (Subscription α σ)) :
    underTicket ticket (subscribers.filterMap (Subscription.after? b outcomes)) =
      (underTicket ticket subscribers).filterMap (Subscription.after? b outcomes) :=
  underTicket_filterMap (fun _ _ => Subscription.ticket_of_after?) ticket subscribers

theorem underTicket_move {p : Poller α σ} {m : Move α σ} {ticket : Nat}
    (hkept : m ≠ .cancel ticket) (hopen : (p.move m).1.closed = false) :
    underTicket ticket (p.move m).1.subscribers =
      underTicket ticket (p.subscribers ++ enroll p.nextTicket m.role?.toList) := by
  cases m with
  | start => exact congrArg (underTicket ticket) ((Enrolls.start p).subscribers hopen).2
  | stop => exact congrArg (underTicket ticket) ((Enrolls.stop p).subscribers hopen).2
  | drop => exact congrArg (underTicket ticket) ((Enrolls.drop p).subscribers hopen).2
  | setShouldFetch enabled =>
    exact congrArg (underTicket ticket) (List.append_nil p.subscribers).symm
  | subscribe role =>
    exact congrArg (underTicket ticket) ((Enrolls.subscribe p role).subscribers hopen).2
  | tick run =>
    rw [Poller.move, (p.tick_frame run).2.2.2]
    exact congrArg (underTicket ticket) (List.append_nil p.subscribers).symm
  | cancel other =>
    have hother : other ≠ ticket := fun h => hkept (congrArg Move.cancel h)
    show underTicket ticket (p.subscribers.map _) = underTicket ticket (p.subscribers ++ [])
    rw [List.append_nil]
    induction p.subscribers with
    | nil => rfl
    | cons s subscribers ih =>
      obtain ⟨t, role⟩ := s
      rw [List.map_cons, underTicket_cons, underTicket_cons, ih]
      cases role with
      | waiter accepts =>
        by_cases hcancelled : t = other
        · subst hcancelled
          simp [hother]
        · simp [hcancelled]
      | _ => rfl

/-- The waits under a ticket that an action resolves or lets go, and what remains there unless the
poller is closed or the wait given up. -/
structure Settles (b : Behaviour α σ) (p : Poller α σ) (action : Action α σ) (ticket : Nat) :
    Prop where
  resolutions : (resolutions (happenings (p.act b action).2)).filter (fun r => r.1 = ticket) =
    (underTicket ticket p.subscribers).filterMap
      (Subscription.resolution? (results (p.act b action).2))
  abandoned : ((abandoned (happenings (p.act b action).2)).filter (fun t => t = ticket)).Perm
    (if (p.act b action).1.closed = true then waiters (remaining b p (p.act b action).2 ticket)
    else [])
  subscribers : action ≠ .move (.cancel ticket) → (p.act b action).1.closed = false →
    underTicket ticket (p.act b action).1.subscribers = remaining b p (p.act b action).2 ticket

namespace Settles

variable {b : Behaviour α σ} {p : Poller α σ} {ticket : Nat}

theorem of_silent {action : Action α σ} (hresults : results (p.act b action).2 = [])
    (hnone : PoolWatch.resolutions (happenings (p.act b action).2) = [])
    (hgo : LetsGo p (p.act b action).1 (registrations (p.act b action).2)
      (happenings (p.act b action).2))
    (hsubscribers : action ≠ .move (.cancel ticket) → (p.act b action).1.closed = false →
      underTicket ticket (p.act b action).1.subscribers =
        underTicket ticket
          (p.subscribers ++ enroll p.nextTicket (registrations (p.act b action).2))) :
    Settles b p action ticket := by
  have hafter : Subscription.after? (α := α) (σ := σ) b [] = some :=
    funext (Subscription.after?_nil b)
  have hresolution : Subscription.resolution? (α := α) (σ := σ) [] = fun _ => none :=
    funext Subscription.resolution?_nil
  have hremaining : remaining b p (p.act b action).2 ticket =
      underTicket ticket
        (p.subscribers ++ enroll p.nextTicket (registrations (p.act b action).2)) := by
    rw [remaining, hresults, hafter, List.filterMap_some, underTicket_append]
  constructor
  · rw [hnone, hresults, hresolution, List.filterMap_none]
    rfl
  · rw [hremaining, hgo, ← filter_waiters]
    split <;> exact .refl _
  · rw [hremaining]
    exact hsubscribers

theorem move (htidy : p.IsTidy) (m : Move α σ) : Settles b p (.move m) ticket := by
  have hmute := p.isMute_move m
  have hhappenings : happenings (p.act b (.move m)).2 = (p.move m).2 := by
    simp [Poller.act, happenings_map_registered]
  have hregistrations : registrations (p.act b (.move m)).2 = m.role?.toList := by
    simp [Poller.act, registrations_map_registered, registers_of_isMute b hmute]
  refine of_silent ?_ ?_ ?_ ?_
  · rw [results, hhappenings, applications_of_isMute hmute, List.map_nil]
  · rw [hhappenings]
    cases m with
    | drop => exact (areAbandonments p.subscribers).resolutions
    | subscribe role => exact (AreAbandonments.subscribe p role).resolutions
    | tick run =>
      rw [Poller.move, Poller.tick]
      split
      · split <;> rfl
      · rfl
    | _ => rfl
  · rw [hhappenings, hregistrations]
    exact LetsGo.move htidy m
  · intro hkept hopen
    rw [hregistrations]
    exact underTicket_move (fun h => hkept (congrArg Action.move h)) hopen

theorem complete (htidy : p.IsTidy) (run seq : Nat) (result : Outcome α) :
    Settles b p (.complete run seq result) ticket := by
  cases hstale : p.isStale run seq with
  | true =>
    have hact : p.act b (.complete run seq result) =
        (p.discard, [.event (.discarded run seq result)]) := by
      rw [Poller.act, Poller.complete_of_isStale b hstale]
      rfl
    refine of_silent ?_ ?_ ?_ ?_
    · rw [hact]
      rfl
    · rw [hact]
      rfl
    · rw [hact]
      exact LetsGo.nothing htidy rfl rfl
    · rw [hact]
      exact fun _ _ => congrArg (underTicket ticket) (List.append_nil p.subscribers).symm
  | false =>
    obtain ⟨told, htold, happlies⟩ := Poller.applies_complete b hstale result
    obtain ⟨told', htold', hresolved, hgo⟩ := Poller.settles_complete b htidy hstale result
    obtain rfl : told' = told := (List.cons.inj (htold'.symm.trans htold)).2
    have hnew : (p.act b (.complete run seq result)).2 =
        chronicle b (.applied run seq result :: told') := by
      show chronicle b (p.complete b run seq result).2 = _
      rw [htold]
    have hhappenings : happenings (p.act b (.complete run seq result)).2 =
        .applied run seq result :: told' := by
      rw [hnew, happenings_chronicle]
    have hresults : results (p.act b (.complete run seq result)).2 = [result] := by
      rw [results, hhappenings]
      show ((⟨run, seq⟩, result) :: applications told').map Prod.snd = [result]
      rw [applications_of_isQuiet happlies.isQuiet]
      rfl
    have hregistrations : registrations (p.act b (.complete run seq result)).2 =
        told'.flatMap (Event.registers b) := by
      rw [hnew, registrations_chronicle]
      rfl
    have hremaining : remaining b p (p.act b (.complete run seq result)).2 ticket =
        underTicket ticket (p.subscribers.filterMap (Subscription.after? b [result]) ++
          enroll p.nextTicket (told'.flatMap (Event.registers b))) := by
      rw [remaining, hresults, hregistrations, underTicket_append, underTicket_after?]
    have hpoller : (p.act b (.complete run seq result)).1 = (p.complete b run seq result).1 := rfl
    constructor
    · rw [hhappenings, hresults, resolutions_cons, hresolved]
      exact filter_resolutions ticket [result] p.subscribers
    · rw [hhappenings, hremaining, ← filter_waiters, abandoned_cons, hpoller]
      refine (hgo.filter _).trans ?_
      split <;> exact .refl _
    · intro _ hopen
      have hafter : Subscription.stay? b ⟨result, result.shown⟩ =
          Subscription.after? b [result] :=
        funext fun s => (s.after?_singleton b result).symm
      rw [hpoller] at hopen ⊢
      rw [(happlies.subscribers hopen).2, hremaining, hafter]

theorem act (b : Behaviour α σ) (htidy : p.IsTidy) (action : Action α σ) (ticket : Nat) :
    Settles b p action ticket := by
  cases action with
  | move m => exact move htidy m
  | complete run seq result => exact complete htidy run seq result

end Settles

/-! ## The invariant -/

/-- The waiter under a ticket, unless it has accepted one of some outcomes. -/
def stillWaiting (ticket : Nat) (accepts : α → Bool) (outcomes : List (Outcome α)) :
    List (Subscription α σ) :=
  match accepted? accepts outcomes with
  | some _ => []
  | none => [⟨ticket, .waiter accepts⟩]

theorem filterMap_after?_stillWaiting (b : Behaviour α σ) (ticket : Nat) (accepts : α → Bool)
    (before after : List (Outcome α)) :
    (stillWaiting ticket accepts before).filterMap (Subscription.after? b after) =
      stillWaiting ticket accepts (before ++ after) := by
  rw [stillWaiting, stillWaiting, accepted?_append]
  cases accepted? accepts before with
  | some value => rfl
  | none => cases h : accepted? accepts after <;> simp [Subscription.after?, h]

theorem filterMap_resolution?_stillWaiting (ticket : Nat) (accepts : α → Bool)
    (before after : List (Outcome α)) :
    (accepted? accepts (before ++ after)).toList.map (fun value => (ticket, value)) =
      (accepted? accepts before).toList.map (fun value => (ticket, value)) ++
        (stillWaiting (σ := σ) ticket accepts before).filterMap
          (Subscription.resolution? after) := by
  rw [stillWaiting, accepted?_append]
  cases accepted? accepts before with
  | some value => rfl
  | none => cases h : accepted? accepts after <;> simp [Subscription.resolution?, h]

theorem eq_of_perm_stillWaiting {ticket : Nat} {accepts : α → Bool} {outcomes : List (Outcome α)}
    {closed : Bool} {tickets : List Nat}
    (h : tickets.Perm
      (if closed = true then waiters (stillWaiting (σ := σ) ticket accepts outcomes) else [])) :
    tickets =
      if closed = true then waiters (stillWaiting (σ := σ) ticket accepts outcomes) else [] := by
  unfold stillWaiting at h ⊢
  cases closed with
  | false => exact h.eq_nil
  | true =>
    cases haccepted : accepted? accepts outcomes with
    | some value =>
      rw [haccepted] at h
      exact h.eq_nil
    | none =>
      rw [haccepted] at h
      exact List.perm_singleton.1 h

/-- The events that end the wait under a ticket: at most one, which resolves it with the first value
accepted, or lets it go if there is none and the poller is closed.  Until then it is kept. -/
structure IsAwaited (p : Poller α σ) (entries : List (Entry α σ)) (ticket : Nat)
    (accepts : α → Bool) (outcomes : List (Outcome α)) : Prop where
  resolutions : (resolutions (happenings entries)).filter (fun r => r.1 = ticket) =
    (accepted? accepts outcomes).toList.map fun value => (ticket, value)
  abandoned : (abandoned (happenings entries)).filter (fun t => t = ticket) =
    if p.closed = true then waiters (stillWaiting (σ := σ) ticket accepts outcomes) else []
  kept : p.closed = false →
    underTicket ticket p.subscribers = stillWaiting ticket accepts outcomes

/-- No event ends a wait under a ticket not given out yet, and every wait so far that was not given
up is awaited. -/
structure Attended (p : Poller α σ) (entries : List (Entry α σ)) (actions : List (Action α σ)) :
    Prop where
  unborn : ∀ ticket, p.nextTicket ≤ ticket →
    (resolutions (happenings entries)).filter (fun r => r.1 = ticket) = [] ∧
      (abandoned (happenings entries)).filter (fun t => t = ticket) = []
  isAwaited : ∀ before accepts after, entries = before ++ .registered (.waiter accepts) :: after →
    .move (.cancel (registrations before).length) ∉ actions →
    IsAwaited p entries (registrations before).length accepts (results after)

theorem attended_fresh (policy : Policy) : Attended { policy : Poller α σ } [] [] where
  unborn ticket _ := ⟨rfl, rfl⟩
  isAwaited before accepts after h := by simp at h

section

variable {b : Behaviour α σ} {p : Poller α σ} {entries : List (Entry α σ)}

theorem remaining_of_old (b : Behaviour α σ) {ticket : Nat} (hticket : ticket < p.nextTicket)
    (new : List (Entry α σ)) :
    remaining b p new ticket =
      (underTicket ticket p.subscribers).filterMap (Subscription.after? b (results new)) := by
  have hnone : underTicket ticket (enroll p.nextTicket (registrations new)) = [] := by
    apply underTicket_eq_nil
    intro s hs
    have := bounds_of_mem_enroll hs
    omega
  rw [remaining, hnone, List.append_nil]

theorem Told.underTicket_eq_nil (htold : Told b p entries) {ticket : Nat}
    (hticket : p.nextTicket ≤ ticket) : underTicket ticket p.subscribers = [] := by
  apply PoolWatch.underTicket_eq_nil
  intro s hs
  have := htold.ticket_lt s hs
  omega

theorem IsAwaited.advance (htold : Told b p entries) {ticket : Nat} {accepts : α → Bool}
    {outcomes : List (Outcome α)} (hticket : ticket < p.nextTicket)
    (h : IsAwaited p entries ticket accepts outcomes) {action : Action α σ}
    (hkept : action ≠ .move (.cancel ticket)) :
    IsAwaited (p.act b action).1 (entries ++ (p.act b action).2) ticket accepts
      (outcomes ++ results (p.act b action).2) := by
  have hadvances := Advances.act b p action
  have hsettles := Settles.act b htold.isTidy action ticket
  cases hclosed : p.closed with
  | true =>
    -- Nothing is applied any more, and nobody is left.
    obtain ⟨hidle, hnone⟩ := htold.isTidy hclosed
    have hresults := hadvances.results_of_idle hidle
    have hclosed' : (p.act b action).1.closed = true := by
      by_contra hopen
      rw [Bool.not_eq_true] at hopen
      have := (hadvances.subscribers hopen).1
      simp [hclosed] at this
    have hunder : underTicket ticket p.subscribers = [] := by rw [hnone]; rfl
    have hremaining := remaining_of_old b hticket (p.act b action).2
    rw [hunder, List.filterMap_nil] at hremaining
    have hresolutions := hsettles.resolutions
    rw [hunder, List.filterMap_nil] at hresolutions
    have habandoned := hsettles.abandoned
    rw [hremaining, if_pos hclosed'] at habandoned
    constructor
    · rw [happenings_append, resolutions_append, List.filter_append, h.resolutions, hresolutions,
        hresults, List.append_nil, List.append_nil]
    · rw [happenings_append, abandoned_append, List.filter_append, h.abandoned,
        habandoned.eq_nil, hresults, if_pos hclosed, if_pos hclosed', List.append_nil,
        List.append_nil]
    · intro hopen
      simp [hclosed'] at hopen
  | false =>
    have hremaining : remaining b p (p.act b action).2 ticket =
        stillWaiting ticket accepts (outcomes ++ results (p.act b action).2) := by
      rw [remaining_of_old b hticket, h.kept hclosed, filterMap_after?_stillWaiting]
    constructor
    · rw [happenings_append, resolutions_append, List.filter_append, h.resolutions,
        hsettles.resolutions, h.kept hclosed, filterMap_resolution?_stillWaiting]
    · have habandoned := hsettles.abandoned
      rw [hremaining] at habandoned
      rw [happenings_append, abandoned_append, List.filter_append, h.abandoned]
      simp only [hclosed, Bool.false_eq_true, if_false, List.nil_append]
      exact eq_of_perm_stillWaiting habandoned
    · intro hopen
      rw [hsettles.subscribers hkept hopen, hremaining]

theorem isAwaited_new (htold : Told b p entries) {actions : List (Action α σ)}
    (hattended : Attended p entries actions) {action : Action α σ} (earlier : List (Entry α σ))
    {later : List (Entry α σ)} {accepts : α → Bool}
    (hsplit : (p.act b action).2 = earlier ++ .registered (.waiter accepts) :: later)
    (hkept : action ≠ .move (.cancel (registrations (entries ++ earlier)).length)) :
    IsAwaited (p.act b action).1 (entries ++ (p.act b action).2)
      (registrations (entries ++ earlier)).length accepts (results later) := by
  have hadvances := Advances.act b p action
  have hticket : (registrations (entries ++ earlier)).length =
      p.nextTicket + (registrations earlier).length := by
    rw [registrations_append, List.length_append, htold.nextTicket]
  rw [hticket] at hkept ⊢
  have hsettles := Settles.act b htold.isTidy action
    (p.nextTicket + (registrations earlier).length)
  have hold := hattended.unborn (p.nextTicket + (registrations earlier).length)
    (Nat.le_add_right _ _)
  have hunder :=
    htold.underTicket_eq_nil (Nat.le_add_right p.nextTicket (registrations earlier).length)
  have hregistrations : registrations (p.act b action).2 =
      registrations earlier ++ .waiter accepts :: registrations later := by
    rw [hsplit, registrations_append]
    rfl
  have hremaining : remaining b p (p.act b action).2
      (p.nextTicket + (registrations earlier).length) =
      stillWaiting (p.nextTicket + (registrations earlier).length) accepts [] := by
    rw [remaining, hunder, hregistrations, underTicket_enroll]
    rfl
  rw [hadvances.results_after earlier _ later hsplit]
  constructor
  · rw [happenings_append, resolutions_append, List.filter_append, hold.1, hsettles.resolutions,
      hunder]
    rfl
  · have habandoned := hsettles.abandoned
    rw [hremaining] at habandoned
    rw [happenings_append, abandoned_append, List.filter_append, hold.2, List.nil_append]
    exact eq_of_perm_stillWaiting habandoned
  · intro hopen
    rw [hsettles.subscribers hkept hopen, hremaining]

theorem Attended.advance (htold : Told b p entries) {actions : List (Action α σ)}
    (h : Attended p entries actions) (action : Action α σ) :
    Attended (p.act b action).1 (entries ++ (p.act b action).2) (actions ++ [action]) where
  unborn ticket hticket := by
    have hadvances := Advances.act b p action
    have hsettles := Settles.act b htold.isTidy action ticket
    rw [hadvances.nextTicket] at hticket
    have hold := h.unborn ticket (by omega)
    have hunder : underTicket ticket p.subscribers = [] := htold.underTicket_eq_nil (by omega)
    have hremaining : remaining b p (p.act b action).2 ticket = [] := by
      rw [remaining, hunder, List.filterMap_nil, List.nil_append]
      apply underTicket_eq_nil
      intro s hs
      have := bounds_of_mem_enroll hs
      omega
    have habandoned := hsettles.abandoned
    rw [hremaining] at habandoned
    constructor
    · rw [happenings_append, resolutions_append, List.filter_append, hold.1, hsettles.resolutions,
        hunder]
      rfl
    · rw [happenings_append, abandoned_append, List.filter_append, hold.2, List.nil_append]
      split at habandoned <;> exact habandoned.eq_nil
  isAwaited before accepts after hsplit hkept := by
    rw [List.mem_append, List.mem_singleton, not_or] at hkept
    -- The registration stands among the new entries, at their head, or among the old ones.
    rw [List.append_eq_append_iff] at hsplit
    rcases hsplit with ⟨earlier, rfl, hsplit⟩ | ⟨later, hsplit, hafter⟩
    · exact isAwaited_new htold h earlier hsplit (Ne.symm hkept.2)
    · rw [List.cons_eq_append_iff] at hafter
      rcases hafter with ⟨rfl, hnew⟩ | ⟨later', rfl, rfl⟩
      · rw [List.append_nil] at hsplit
        subst hsplit
        have hawaited := isAwaited_new htold h [] hnew
        rw [List.append_nil] at hawaited
        exact hawaited (Ne.symm hkept.2)
      · rw [results_append]
        refine (h.isAwaited before accepts later' hsplit hkept.1).advance htold ?_
          (Ne.symm hkept.2)
        rw [htold.nextTicket, hsplit, registrations_append, List.length_append]
        exact Nat.lt_add_of_pos_right (Nat.succ_pos _)

end

theorem attended_run (b : Behaviour α σ) (policy : Policy) (actions : List (Action α σ)) :
    Attended ((Story.fresh policy).run b actions).poller
      ((Story.fresh policy).run b actions).entries actions := by
  induction actions using List.reverseRecOn with
  | nil => exact attended_fresh policy
  | append_singleton actions action ih =>
    have htold : Told b ((Story.fresh policy).run b actions).poller
        ((Story.fresh policy).run b actions).entries := Told.run (told_fresh b policy) actions
    rw [Story.run_append]
    exact ih.advance htold action

/-! ## What the one who waits sees -/

/-- What the events of a log mean for the wait with a ticket. -/
def verdicts (ticket : Nat) (log : List (Event α σ)) : List (WaitState α) :=
  log.filterMap (Wait.verdict? ticket)

theorem perm_verdicts (ticket : Nat) (log : List (Event α σ)) :
    (verdicts ticket log).Perm
      (((resolutions log).filter fun r => r.1 = ticket).map (fun r => .resolved r.2) ++
        ((abandoned log).filter fun t => t = ticket).map fun _ => .closed) := by
  induction log with
  | nil => exact .nil
  | cons e log ih =>
    rw [verdicts, List.filterMap_cons, ← verdicts]
    cases e with
    | resolved t value => by_cases h : t = ticket <;> simpa [Wait.verdict?, h] using ih
    | abandoned t =>
      by_cases h : t = ticket
      · simpa [Wait.verdict?, h] using (ih.cons WaitState.closed).trans List.perm_middle.symm
      · simpa [Wait.verdict?, h] using ih
    | _ => simpa [Wait.verdict?] using ih

/-- What becomes of a wait with these outcomes. -/
def waitState (accepts : α → Bool) (outcomes : List (Outcome α)) (closed : Bool) : WaitState α :=
  match accepted? accepts outcomes with
  | some value => .resolved value
  | none => if closed then .closed else .pending

theorem IsAwaited.state_settle {p : Poller α σ} {entries : List (Entry α σ)} {ticket : Nat}
    {accepts : α → Bool} {outcomes : List (Outcome α)}
    (h : IsAwaited p entries ticket accepts outcomes) :
    (Wait.settle (happenings entries).reverse { ticket }).state =
      waitState accepts outcomes p.closed := by
  have hperm := perm_verdicts ticket (happenings entries)
  rw [h.resolutions, h.abandoned, List.map_map] at hperm
  have hstate : (Wait.settle (happenings entries).reverse { ticket }).state =
      (verdicts ticket (happenings entries)).getLast?.getD .pending := by
    rw [← List.head?_reverse, verdicts, ← List.filterMap_reverse, List.head?_filterMap]
    rfl
  rw [hstate, waitState]
  unfold stillWaiting at hperm
  cases haccepted : accepted? accepts outcomes with
  | some value =>
    have hone : verdicts ticket (happenings entries) = [.resolved value] := by
      refine List.perm_singleton.1 (hperm.trans ?_)
      cases p.closed <;> simp [haccepted, waiters]
    rw [hone]
    rfl
  | none =>
    rw [haccepted] at hperm
    cases hclosed : p.closed with
    | true =>
      rw [hclosed] at hperm
      rw [List.perm_singleton.1 hperm]
      rfl
    | false =>
      rw [hclosed] at hperm
      rw [hperm.eq_nil]
      rfl

namespace Story

/-- Whatever a poller has been through, a wait that was not given up has the first value that it
accepts among the results applied since it began.  If there is none, it is closed when the poller
has been dropped, and otherwise it is pending and the poller keeps it.  After a drop no result is
applied any more. -/
theorem waits_end_with_first_accepted (b : Behaviour α σ) (policy : Policy)
    (actions : List (Action α σ)) :
    let story := (fresh policy).run b actions
    let log := happenings story.entries
    (∀ before accepts after,
      story.entries = before ++ .registered (.waiter accepts) :: after →
      .move (.cancel (registrations before).length) ∉ actions →
      let wait : Wait α := Wait.settle log.reverse { ticket := (registrations before).length }
      (∀ value, wait.state = .resolved value ↔ accepted? accepts (results after) = some value) ∧
      (wait.state = .closed ↔
        accepted? accepts (results after) = none ∧ WasDropped b actions log) ∧
      (wait.state = .pending ↔
        accepted? accepts (results after) = none ∧ ¬WasDropped b actions log) ∧
      (wait.state = .pending →
        ⟨(registrations before).length, .waiter accepts⟩ ∈ story.poller.subscribers)) ∧
    (WasDropped b actions log →
      ∀ more, results (story.run b more).entries = results story.entries) := by
  intro story log
  have hdropped : story.poller.closed = true ↔ WasDropped b actions log :=
    closed_run b policy actions
  constructor
  · intro before accepts after hsplit hkept wait
    have hawaited := (attended_run b policy actions).isAwaited before accepts after hsplit hkept
    have hstate : wait.state = waitState accepts (results after) story.poller.closed :=
      hawaited.state_settle
    rw [hstate, ← hdropped, waitState]
    cases haccepted : accepted? accepts (results after) with
    | some value => simp
    | none =>
      cases hclosed : story.poller.closed with
      | true => simp
      | false =>
        have hunder := hawaited.kept hclosed
        rw [stillWaiting, haccepted] at hunder
        have hmem : ⟨(registrations before).length, .waiter accepts⟩ ∈
            underTicket (registrations before).length story.poller.subscribers := by
          rw [hunder]
          exact List.mem_cons_self
        have hmem := List.mem_of_mem_filter hmem
        simp [hmem]
  · intro hdrop more
    exact results_of_closed ((told_fresh b policy).run actions) (hdropped.2 hdrop) more

/-- The first wait passes over a small value and a restart, and the second one is let go. -/
theorem waits_end_over_two_runs :
    let b : Behaviour Nat Nat := ⟨fun n _ => ⟨true, n, []⟩⟩
    let actions : List (Action Nat Nat) :=
      [.move (.subscribe (.waiter (3 ≤ ·))), .move .start, .move (.tick 1),
        .complete 1 0 (.success 1), .move .start, .move (.tick 3), .complete 3 1 (.success 5),
        .move (.subscribe (.waiter (3 ≤ ·))), .move .drop]
    let story := (fresh {}).run b actions
    let state := fun ticket =>
      (Wait.settle (happenings story.entries).reverse { ticket }).state
    (.move (.cancel 0) ∉ actions ∧ state 0 = .resolved 5) ∧
    (.move (.cancel 1) ∉ actions ∧ state 1 = .closed) ∧
    results (story.run b [.move .start, .move (.tick 5), .complete 5 4 (.success 7)]).entries =
      [.success 1, .success 5] := by
  intro b actions story state
  obtain ⟨hwaits, hlast⟩ := waits_end_with_first_accepted b {} actions
  have hentries : story.entries =
      [.registered (.waiter (3 ≤ ·)), .event (.issued 1 0), .event (.applied 1 0 (.success 1)),
        .event (.issued 3 1), .event (.applied 3 1 (.success 5)), .event (.resolved 0 5),
        .registered (.waiter (3 ≤ ·)), .event (.abandoned 1)] := by
    -- The kernel evaluates closed terms only.
    unfold story actions b
    rfl
  have hdropped : WasDropped b actions (happenings story.entries) := Or.inl (by simp [actions])
  have hkept : ∀ ticket, .move (.cancel ticket) ∉ actions := by simp [actions]
  have hfirst : state 0 = .resolved 5 :=
    ((hwaits [] _ _ hentries (hkept 0)).1 5).2 (by decide)
  have hsecond : state 1 = .closed :=
    (hwaits [_, _, _, _, _, _] _ _ hentries (hkept 1)).2.1.2 ⟨by decide, hdropped⟩
  refine ⟨⟨hkept 0, hfirst⟩, ⟨hkept 1, hsecond⟩, ?_⟩
  rw [hlast hdropped, hentries]
  rfl

end Story

end PoolWatch
