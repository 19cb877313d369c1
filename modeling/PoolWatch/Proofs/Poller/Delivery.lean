import PoolWatch.Proofs.Poller.Story
import Mathlib.Data.List.Basic
/-!
# Deliveries to observers

An observer is told every result that is applied after its registration, in order, until it says
that it is done.  The invariant behind this says of each registration so far that the calls made
under its ticket are the ones due, and that what the poller keeps under that ticket is what the
observer has become.
-/

namespace PoolWatch

variable {α σ : Type}

/-- The calls due to an observer for some results, and no more once it is done. -/
def dueCalls (b : Behaviour α σ) (ticket : Nat) : σ → List (Outcome α) → List (Call α σ)
  | _, [] => []
  | observer, result :: rest =>
    let reply := b.react observer ⟨result, result.shown⟩
    ⟨ticket, observer, ⟨result, result.shown⟩, reply.done⟩ ::
      if reply.done then [] else dueCalls b ticket reply.observer rest

/-- What an observer has become after some results, unless it is done. -/
def standing? (b : Behaviour α σ) : σ → List (Outcome α) → Option σ
  | observer, [] => some observer
  | observer, result :: rest =>
    let reply := b.react observer ⟨result, result.shown⟩
    if reply.done then none else standing? b reply.observer rest

theorem dueCalls_append (b : Behaviour α σ) (ticket : Nat) (observer : σ)
    (before after : List (Outcome α)) :
    dueCalls b ticket observer (before ++ after) = dueCalls b ticket observer before ++
      (standing? b observer before).toList.flatMap fun o => dueCalls b ticket o after := by
  induction before generalizing observer with
  | nil => simp [dueCalls, standing?]
  | cons result before ih =>
    simp only [List.cons_append, dueCalls, standing?]
    by_cases hdone : (b.react observer ⟨result, result.shown⟩).done = true
    · simp [hdone]
    · simp only [hdone, ih]
      rfl

theorem standing?_append (b : Behaviour α σ) (observer : σ) (before after : List (Outcome α)) :
    standing? b observer (before ++ after) =
      (standing? b observer before).bind fun o => standing? b o after := by
  induction before generalizing observer with
  | nil => simp [standing?]
  | cons result before ih =>
    simp only [List.cons_append, standing?]
    by_cases hdone : (b.react observer ⟨result, result.shown⟩).done = true
    · simp [hdone]
    · simp only [hdone, ih]
      rfl

theorem ticket_of_mem_dueCalls {b : Behaviour α σ} {ticket : Nat} {observer : σ}
    {outcomes : List (Outcome α)} {call : Call α σ}
    (h : call ∈ dueCalls b ticket observer outcomes) : call.ticket = ticket := by
  induction outcomes generalizing observer with
  | nil => cases h
  | cons result rest ih =>
    rw [dueCalls, List.mem_cons] at h
    rcases h with rfl | h
    · rfl
    · split at h
      · cases h
      · exact ih h

def Subscription.due (b : Behaviour α σ) (outcomes : List (Outcome α)) (s : Subscription α σ) :
    List (Call α σ) :=
  match s.role with
  | .observer observer => dueCalls b s.ticket observer outcomes
  | _ => []

theorem Subscription.ticket_of_mem_due {b : Behaviour α σ} {outcomes : List (Outcome α)}
    {s : Subscription α σ} {call : Call α σ} (h : call ∈ s.due b outcomes) :
    call.ticket = s.ticket := by
  unfold due at h
  split at h
  · exact ticket_of_mem_dueCalls h
  · cases h

theorem Subscription.due_nil (b : Behaviour α σ) (s : Subscription α σ) : s.due b [] = [] := by
  obtain ⟨ticket, role⟩ := s
  cases role <;> rfl

theorem Subscription.due_singleton (b : Behaviour α σ) (result : Outcome α)
    (s : Subscription α σ) :
    s.due b [result] = (s.call? b ⟨result, result.shown⟩).toList := by
  obtain ⟨ticket, role⟩ := s
  cases role <;> simp [due, call?, dueCalls]

/-! ## What an action does -/

/-- What one action does to the subscribers of a poller: which entries it adds, which calls it
makes, and what the poller keeps. -/
structure Advances (b : Behaviour α σ) (p p' : Poller α σ) (new : List (Entry α σ)) : Prop where
  nextTicket : p'.nextTicket = p.nextTicket + (registrations new).length
  subscribers : p'.closed = false → p.closed = false ∧
    ∃ change : Subscription α σ → Option (Subscription α σ),
      (∀ s s', change s = some s' → s'.ticket = s.ticket) ∧
      (∀ ticket observer, change ⟨ticket, .observer observer⟩ =
        (standing? b observer (results new)).map fun o => ⟨ticket, .observer o⟩) ∧
      p'.subscribers =
        p.subscribers.filterMap change ++ enroll p.nextTicket (registrations new)
  isTidy : p.IsTidy → p'.IsTidy
  due : calls (happenings new) = p.subscribers.flatMap (Subscription.due b (results new))
  results_of_idle : p.running = false → results new = []
  /-- What is registered while a result is told is not told that result. -/
  results_after : ∀ earlier role later,
    new = earlier ++ .registered role :: later → results later = []

namespace Advances

theorem of_silent (b : Behaviour α σ) {p p' : Poller α σ} {new : List (Entry α σ)}
    (hresults : results new = []) (hcalls : calls (happenings new) = [])
    (hnextTicket : p'.nextTicket = p.nextTicket + (registrations new).length)
    (change : Subscription α σ → Subscription α σ) (hticket : ∀ s, (change s).ticket = s.ticket)
    (hobserver : ∀ ticket observer,
      change ⟨ticket, .observer observer⟩ = ⟨ticket, .observer observer⟩)
    (hsubscribers : p'.closed = false → p.closed = false ∧
      p'.subscribers = p.subscribers.map change ++ enroll p.nextTicket (registrations new))
    (htidy : p.IsTidy → p'.IsTidy) : Advances b p p' new where
  nextTicket := hnextTicket
  subscribers hopen := by
    obtain ⟨hopen', hsubscribers⟩ := hsubscribers hopen
    refine ⟨hopen', some ∘ change, ?_, ?_, ?_⟩
    · rintro s s' h
      cases h
      exact hticket s
    · intro ticket observer
      rw [hresults, Function.comp_apply, hobserver]
      rfl
    · rw [hsubscribers, List.filterMap_eq_map]
  isTidy := htidy
  due := by
    rw [hcalls, hresults]
    simp [Subscription.due_nil]
  results_of_idle _ := hresults
  results_after earlier role later hsplit := by
    rw [hsplit, results_append, List.append_eq_nil_iff] at hresults
    exact hresults.2

theorem of_enrolls (b : Behaviour α σ) {p p' : Poller α σ} {new : List (Entry α σ)}
    (hresults : results new = []) (hcalls : calls (happenings new) = [])
    (h : Enrolls p p' (registrations new)) : Advances b p p' new := by
  refine of_silent b hresults hcalls h.nextTicket id (fun _ => rfl) (fun _ _ => rfl) ?_ h.isTidy
  rw [List.map_id]
  exact h.subscribers

theorem move (b : Behaviour α σ) (p : Poller α σ) (m : Move α σ) :
    Advances b p (p.act b (.move m)).1 (p.act b (.move m)).2 := by
  have hmute := p.isMute_move m
  have hhappenings : happenings (p.act b (.move m)).2 = (p.move m).2 := by
    simp [Poller.act, happenings_map_registered]
  have hregistrations : registrations (p.act b (.move m)).2 = m.role?.toList := by
    simp [Poller.act, registrations_map_registered, registers_of_isMute b hmute]
  have hresults : results (p.act b (.move m)).2 = [] := by
    rw [results, hhappenings, applications_of_isMute hmute, List.map_nil]
  have hcalls : calls (happenings (p.act b (.move m)).2) = [] := by
    rw [hhappenings, calls_of_isMute hmute]
  cases m with
  | start => exact of_enrolls b hresults hcalls (hregistrations ▸ Enrolls.start p)
  | stop => exact of_enrolls b hresults hcalls (hregistrations ▸ Enrolls.stop p)
  | drop => exact of_enrolls b hresults hcalls (hregistrations ▸ Enrolls.drop p)
  | setShouldFetch enabled =>
    refine of_enrolls b hresults hcalls ?_
    rw [hregistrations]
    exact ⟨rfl, rfl, (Enrolls.refl p).subscribers, id⟩
  | subscribe role =>
    exact of_enrolls b hresults hcalls (hregistrations ▸ Enrolls.subscribe p role)
  | cancel ticket =>
    refine of_silent b hresults hcalls rfl _ (fun s => ?_) (fun _ _ => rfl)
      (fun hopen => ⟨hopen, (List.append_nil _).symm⟩) fun htidy hclosed => ?_
    · split
      · split <;> rfl
      · rfl
    · have hnone := (htidy hclosed).2
      exact ⟨(htidy hclosed).1, by simp [Poller.act, Poller.move, Poller.cancel, hnone]⟩
  | tick run =>
    obtain ⟨hnextTicket, hclosed, hrunning, hsubscribers⟩ := p.tick_frame run
    refine of_silent b hresults hcalls ?_ id (fun _ => rfl) (fun _ _ => rfl) ?_ ?_
    · rw [hregistrations]
      exact hnextTicket
    · intro hopen
      refine ⟨hclosed.symm.trans hopen, ?_⟩
      rw [hregistrations, List.map_id]
      exact hsubscribers.trans (List.append_nil _).symm
    · intro htidy hclosed'
      have h := htidy (hclosed.symm.trans hclosed')
      exact ⟨hrunning.trans h.1, hsubscribers.trans h.2⟩

theorem discard (b : Behaviour α σ) {p : Poller α σ} {run seq : Nat}
    (hstale : p.isStale run seq = true) (result : Outcome α) :
    Advances b p (p.act b (.complete run seq result)).1 (p.act b (.complete run seq result)).2 := by
  rw [Poller.act, Poller.complete_of_isStale b hstale]
  exact of_enrolls b rfl rfl ⟨rfl, rfl, (Enrolls.refl p).subscribers, id⟩

theorem apply (b : Behaviour α σ) {p : Poller α σ} {run seq : Nat}
    (hfresh : p.isStale run seq = false) (result : Outcome α) :
    Advances b p (p.act b (.complete run seq result)).1 (p.act b (.complete run seq result)).2 := by
  obtain ⟨told, hnew, h⟩ := Poller.applies_act b hfresh result
  have hregistrations : registrations (p.act b (.complete run seq result)).2 =
      told.flatMap (Event.registers b) := by
    rw [hnew]
    exact registrations_chronicle b told
  have hnone : results (chronicle b told) = [] := results_chronicle_of_isQuiet b h.isQuiet
  have hresults : results (p.act b (.complete run seq result)).2 = [result] := by
    rw [hnew]
    show result :: results (chronicle b told) = [result]
    rw [hnone]
  constructor
  · rw [hregistrations]
    exact h.nextTicket
  · intro hopen
    obtain ⟨hopen', hsubscribers⟩ := h.subscribers hopen
    refine ⟨hopen', Subscription.stay? b ⟨result, result.shown⟩, fun s s' => ?_, ?_, ?_⟩
    · exact Subscription.ticket_of_stay?
    · intro ticket observer
      rw [hresults]
      simp only [Subscription.stay?, standing?]
      split <;> rfl
    · rw [hregistrations]
      exact hsubscribers
  · exact h.isTidy
  · rw [hresults, hnew]
    show calls (happenings (chronicle b told)) = _
    rw [happenings_chronicle, h.calls, List.filterMap_eq_flatMap_toList]
    congr 1
    ext s : 1
    exact (s.due_singleton b result).symm
  · intro hidle
    rw [Poller.isStale_of_over (by simp [hidle])] at hfresh
    cases hfresh
  · intro earlier role later hsplit
    rw [hnew, List.cons_eq_append_iff] at hsplit
    rcases hsplit with ⟨-, hsplit⟩ | ⟨earlier', -, hsplit⟩
    · cases hsplit
    · rw [hsplit, results_append, List.append_eq_nil_iff] at hnone
      exact hnone.2

theorem act (b : Behaviour α σ) (p : Poller α σ) (action : Action α σ) :
    Advances b p (p.act b action).1 (p.act b action).2 := by
  cases action with
  | move m => exact move b p m
  | complete run seq result =>
    cases hstale : p.isStale run seq with
    | true => exact discard b hstale result
    | false => exact apply b hstale result

end Advances

/-! ## The subscribers with one ticket -/

/-- The subscribers under a ticket, of which there is one at most. -/
def underTicket (ticket : Nat) (subscribers : List (Subscription α σ)) :
    List (Subscription α σ) :=
  subscribers.filter fun s => s.ticket = ticket

theorem underTicket_eq_nil {ticket : Nat} {subscribers : List (Subscription α σ)}
    (h : ∀ s ∈ subscribers, s.ticket ≠ ticket) : underTicket ticket subscribers = [] := by
  rw [underTicket, List.filter_eq_nil_iff]
  intro s hs
  simpa using h s hs

theorem underTicket_cons (ticket : Nat) (s : Subscription α σ)
    (subscribers : List (Subscription α σ)) :
    underTicket ticket (s :: subscribers) =
      if s.ticket = ticket then s :: underTicket ticket subscribers
      else underTicket ticket subscribers := by
  simp only [underTicket, List.filter_cons, decide_eq_true_eq]

theorem underTicket_append (ticket : Nat) (a b : List (Subscription α σ)) :
    underTicket ticket (a ++ b) = underTicket ticket a ++ underTicket ticket b :=
  List.filter_append a b

theorem underTicket_filterMap {change : Subscription α σ → Option (Subscription α σ)}
    (hticket : ∀ s s', change s = some s' → s'.ticket = s.ticket) (ticket : Nat)
    (subscribers : List (Subscription α σ)) :
    underTicket ticket (subscribers.filterMap change) =
      (underTicket ticket subscribers).filterMap change := by
  induction subscribers with
  | nil => rfl
  | cons s subscribers ih =>
    rw [underTicket_cons]
    cases hchange : change s with
    | none =>
      rw [List.filterMap_cons_none hchange, ih]
      split
      · rw [List.filterMap_cons_none hchange]
      · rfl
    | some s' =>
      rw [List.filterMap_cons_some hchange, underTicket_cons, hticket s s' hchange, ih]
      split
      · rw [List.filterMap_cons_some hchange]
      · rfl

theorem filter_flatMap_due (b : Behaviour α σ) (outcomes : List (Outcome α)) (ticket : Nat)
    (subscribers : List (Subscription α σ)) :
    (subscribers.flatMap (Subscription.due b outcomes)).filter (fun call => call.ticket = ticket) =
      (underTicket ticket subscribers).flatMap (Subscription.due b outcomes) := by
  induction subscribers with
  | nil => rfl
  | cons s subscribers ih =>
    rw [List.flatMap_cons, List.filter_append, ih, underTicket_cons]
    by_cases hs : s.ticket = ticket
    · rw [if_pos hs, List.flatMap_cons]
      congr 1
      rw [List.filter_eq_self]
      intro call hcall
      rw [Subscription.ticket_of_mem_due hcall, hs, decide_eq_true rfl]
    · have hnone : (s.due b outcomes).filter (fun call => call.ticket = ticket) = [] := by
        rw [List.filter_eq_nil_iff]
        intro call hcall
        rw [Subscription.ticket_of_mem_due hcall, decide_eq_true_eq]
        exact hs
      rw [if_neg hs, hnone, List.nil_append]

theorem underTicket_enroll (ticket : Nat) (before after : List (Role α σ)) (role : Role α σ) :
    underTicket (ticket + before.length) (enroll ticket (before ++ role :: after)) =
      [⟨ticket + before.length, role⟩] := by
  rw [enroll_append, underTicket_append, enroll, underTicket_cons, if_pos rfl]
  have hbefore : underTicket (ticket + before.length) (enroll ticket before) = [] := by
    apply underTicket_eq_nil
    intro s hs
    have := bounds_of_mem_enroll hs
    omega
  have hafter : underTicket (ticket + before.length)
      (enroll (ticket + before.length + 1) after) = [] := by
    apply underTicket_eq_nil
    intro s hs
    have := bounds_of_mem_enroll hs
    omega
  rw [hbefore, hafter, List.nil_append]

/-! ## The invariant -/

/-- The calls made under a ticket are those due to its observer, and unless the poller was dropped
it keeps under the ticket what the observer has become. -/
structure IsServed (b : Behaviour α σ) (p : Poller α σ) (entries : List (Entry α σ))
    (ticket : Nat) (observer : σ) (outcomes : List (Outcome α)) : Prop where
  calls : callsTo ticket entries = dueCalls b ticket observer outcomes
  kept : p.closed = false → underTicket ticket p.subscribers =
    (standing? b observer outcomes).toList.map fun o => ⟨ticket, .observer o⟩

/-- Tickets are numbers of registrations, subscribers stand in the order of their tickets, and every
observer registered so far is served. -/
structure Told (b : Behaviour α σ) (p : Poller α σ) (entries : List (Entry α σ)) : Prop where
  nextTicket : p.nextTicket = (registrations entries).length
  isTidy : p.IsTidy
  ticket_lt : ∀ s ∈ p.subscribers, s.ticket < p.nextTicket
  pairwise : p.subscribers.Pairwise fun s t => s.ticket < t.ticket
  call_lt : ∀ call ∈ calls (happenings entries), call.ticket < p.nextTicket
  isServed : ∀ before observer after,
    entries = before ++ .registered (.observer observer) :: after →
    IsServed b p entries (registrations before).length observer (results after)

theorem told_fresh (b : Behaviour α σ) (policy : Policy) :
    Told b { policy : Poller α σ } [] where
  nextTicket := rfl
  isTidy h := by cases h
  ticket_lt := by simp
  pairwise := .nil
  call_lt := by simp [happenings]
  isServed before observer after h := by simp at h

namespace Told

variable {b : Behaviour α σ} {p p' : Poller α σ} {entries new : List (Entry α σ)}

theorem isServed_advance (htidy : p.IsTidy) (hadvances : Advances b p p' new) {ticket : Nat}
    {observer : σ} {outcomes : List (Outcome α)} (hticket : ticket < p.nextTicket)
    (h : IsServed b p entries ticket observer outcomes) :
    IsServed b p' (entries ++ new) ticket observer (outcomes ++ results new) := by
  constructor
  · have hnew : callsTo ticket new =
        (underTicket ticket p.subscribers).flatMap (Subscription.due b (results new)) := by
      rw [callsTo, hadvances.due, filter_flatMap_due]
    rw [callsTo_append, h.calls, dueCalls_append, hnew]
    congr 1
    -- A dropped poller applies nothing any more; any other calls what it keeps under the ticket.
    cases hclosed : p.closed with
    | true =>
      obtain ⟨hidle, hnone⟩ := htidy hclosed
      rw [hadvances.results_of_idle hidle, hnone]
      simp [dueCalls, underTicket]
    | false =>
      rw [h.kept hclosed, List.flatMap_map]
      rfl
  · intro hopen'
    obtain ⟨hopen, change, hchange, hobserver, hsubscribers⟩ := hadvances.subscribers hopen'
    have hnone : underTicket ticket (enroll p.nextTicket (registrations new)) = [] := by
      apply underTicket_eq_nil
      intro s hs
      have := bounds_of_mem_enroll hs
      omega
    rw [hsubscribers, underTicket_append, hnone, List.append_nil, underTicket_filterMap hchange,
      h.kept hopen, standing?_append]
    cases standing? b observer outcomes with
    | none => rfl
    | some o =>
      show [⟨ticket, .observer o⟩].filterMap change =
        (standing? b o (results new)).toList.map fun o' => ⟨ticket, .observer o'⟩
      have hone := hobserver ticket o
      cases hstanding : standing? b o (results new) with
      | none =>
        rw [hstanding] at hone
        exact List.filterMap_cons_none hone
      | some o' =>
        rw [hstanding] at hone
        exact List.filterMap_cons_some hone

theorem isServed_new (h : Told b p entries) (hadvances : Advances b p p' new)
    (earlier : List (Entry α σ)) {later : List (Entry α σ)} {observer : σ}
    (hsplit : new = earlier ++ .registered (.observer observer) :: later) :
    IsServed b p' (entries ++ new) (registrations (entries ++ earlier)).length observer
      (results later) := by
  have hticket : (registrations (entries ++ earlier)).length =
      p.nextTicket + (registrations earlier).length := by
    rw [registrations_append, List.length_append, h.nextTicket]
  have hregistrations : registrations new =
      registrations earlier ++ .observer observer :: registrations later := by
    rw [hsplit, registrations_append]
    rfl
  have hnone : underTicket (p.nextTicket + (registrations earlier).length) p.subscribers = [] := by
    apply underTicket_eq_nil
    intro s hs
    have := h.ticket_lt s hs
    omega
  rw [hticket, hadvances.results_after earlier _ later hsplit]
  constructor
  · have hold : callsTo (p.nextTicket + (registrations earlier).length) entries = [] := by
      rw [callsTo, List.filter_eq_nil_iff]
      intro call hcall
      have := h.call_lt call hcall
      rw [decide_eq_true_eq]
      omega
    rw [callsTo_append, hold, callsTo, hadvances.due, filter_flatMap_due, hnone]
    rfl
  · intro hopen'
    obtain ⟨-, change, hchange, -, hsubscribers⟩ := hadvances.subscribers hopen'
    rw [hsubscribers, underTicket_append, underTicket_filterMap hchange, hnone, hregistrations,
      underTicket_enroll]
    rfl

theorem advance (h : Told b p entries) (hadvances : Advances b p p' new) :
    Told b p' (entries ++ new) where
  nextTicket := by
    rw [hadvances.nextTicket, registrations_append, List.length_append, h.nextTicket]
  isTidy := hadvances.isTidy h.isTidy
  ticket_lt s hs := by
    cases hclosed : p'.closed with
    | true =>
      rw [(hadvances.isTidy h.isTidy hclosed).2] at hs
      cases hs
    | false =>
      obtain ⟨-, change, hchange, -, hsubscribers⟩ := hadvances.subscribers hclosed
      rw [hsubscribers, List.mem_append] at hs
      rw [hadvances.nextTicket]
      rcases hs with hs | hs
      · obtain ⟨s₀, hs₀, hs⟩ := List.mem_filterMap.1 hs
        rw [hchange s₀ s hs]
        exact Nat.lt_add_right _ (h.ticket_lt s₀ hs₀)
      · exact (bounds_of_mem_enroll hs).2
  pairwise := by
    cases hclosed : p'.closed with
    | true =>
      rw [(hadvances.isTidy h.isTidy hclosed).2]
      exact .nil
    | false =>
      obtain ⟨-, change, hchange, -, hsubscribers⟩ := hadvances.subscribers hclosed
      rw [hsubscribers, List.pairwise_append]
      refine ⟨h.pairwise.filterMap change ?_, pairwise_enroll _ _, ?_⟩
      · intro s t hlt s' hs' t' ht'
        rw [hchange s s' hs', hchange t t' ht']
        exact hlt
      · intro s hs t ht
        obtain ⟨s₀, hs₀, hs⟩ := List.mem_filterMap.1 hs
        rw [hchange s₀ s hs]
        exact Nat.lt_of_lt_of_le (h.ticket_lt s₀ hs₀) (bounds_of_mem_enroll ht).1
  call_lt := by
    intro call hcall
    rw [happenings_append, calls_append, List.mem_append] at hcall
    rw [hadvances.nextTicket]
    rcases hcall with hcall | hcall
    · exact Nat.lt_add_right _ (h.call_lt call hcall)
    · rw [hadvances.due, List.mem_flatMap] at hcall
      obtain ⟨s, hs, hcall⟩ := hcall
      rw [Subscription.ticket_of_mem_due hcall]
      exact Nat.lt_add_right _ (h.ticket_lt s hs)
  isServed before observer after hsplit := by
    -- The registration stands among the new entries, at their head, or among the old ones.
    rw [List.append_eq_append_iff] at hsplit
    rcases hsplit with ⟨earlier, rfl, hsplit⟩ | ⟨later, hsplit, hafter⟩
    · exact isServed_new h hadvances earlier hsplit
    · rw [List.cons_eq_append_iff] at hafter
      rcases hafter with ⟨rfl, hnew⟩ | ⟨later', rfl, rfl⟩
      · rw [List.append_nil] at hsplit
        subst hsplit
        have hserved := isServed_new h hadvances [] hnew
        rwa [List.append_nil] at hserved
      · rw [results_append]
        refine isServed_advance h.isTidy hadvances ?_ (h.isServed before observer later' hsplit)
        rw [h.nextTicket, hsplit, registrations_append, List.length_append]
        exact Nat.lt_add_of_pos_right (Nat.succ_pos _)

theorem run {story : Story α σ} (h : Told b story.poller story.entries)
    (actions : List (Action α σ)) :
    Told b (story.run b actions).poller (story.run b actions).entries := by
  induction actions generalizing story with
  | nil => exact h
  | cons action actions ih => exact ih (h.advance (Advances.act b story.poller action))

theorem complete (h : Told b p entries) {run seq : Nat} (hfresh : p.isStale run seq = false)
    (result : Outcome α) :
    ∃ told, (p.complete b run seq result).2 = .applied run seq result :: told ∧
      (∀ e ∈ told, e.IsQuiet) ∧
      (calls told).Pairwise (fun x y => x.ticket < y.ticket) ∧
      ∀ call ∈ calls told, call.ticket < (registrations entries).length ∧
        call.delivery = ⟨result, result.shown⟩ := by
  obtain ⟨told, htold, happlies⟩ := Poller.applies_complete b hfresh result
  refine ⟨told, htold, happlies.isQuiet, ?_, ?_⟩
  · rw [happlies.calls]
    apply h.pairwise.filterMap
    intro s t hlt x hx y hy
    rw [Subscription.ticket_of_call? hx, Subscription.ticket_of_call? hy]
    exact hlt
  · intro call hcall
    rw [happlies.calls] at hcall
    obtain ⟨s, hs, hcall⟩ := List.mem_filterMap.1 hcall
    rw [Subscription.ticket_of_call? hcall, ← h.nextTicket]
    exact ⟨h.ticket_lt s hs, Subscription.delivery_of_call? hcall⟩

end Told

/-! ## The main statement -/

namespace Story

/-- Whatever a poller has been through, an observer has been called once for each result applied
since its registration, in order and until it was done.  A further result that comes too late is
told to nobody.  Any other is told in the order of registration to observers registered before it
was applied, while it is shown. -/
theorem observers_are_told (b : Behaviour α σ) (policy : Policy) (actions : List (Action α σ)) :
    let story := (fresh policy).run b actions
    (∀ before observer after,
      story.entries = before ++ .registered (.observer observer) :: after →
      callsTo (registrations before).length story.entries =
        dueCalls b (registrations before).length observer (results after)) ∧
    ∀ run seq result,
      let events := (story.poller.complete b run seq result).2
      (story.poller.isStale run seq = true → events = [.discarded run seq result]) ∧
      (story.poller.isStale run seq = false →
        ∃ told, events = .applied run seq result :: told ∧ (∀ e ∈ told, e.IsQuiet) ∧
          (calls told).Pairwise (fun x y => x.ticket < y.ticket) ∧
          ∀ call ∈ calls told, call.ticket < (registrations story.entries).length ∧
            call.delivery = ⟨result, result.shown⟩) := by
  intro story
  have htold : Told b story.poller story.entries := (told_fresh b policy).run actions
  constructor
  · intro before observer after hsplit
    exact (htold.isServed before observer after hsplit).calls
  · intro run seq result events
    constructor
    · intro hstale
      exact congrArg Prod.snd (Poller.complete_of_isStale b hstale result)
    · intro hfresh
      exact htold.complete hfresh result

/-- The first observer registers a second one when it is first called. -/
theorem second_observer_told_later :
    let b : Behaviour Nat Nat :=
      ⟨fun n _ => ⟨n == 0, n - 1, if n = 1 then [.observe 0] else []⟩⟩
    let story := (fresh {}).run b
      [.move (.subscribe (.observer 1)), .move .start, .move (.tick 1), .move (.tick 1),
        .complete 1 1 (.success 7), .complete 1 0 (.success 8)]
    callsTo 0 story.entries = [⟨0, 1, ⟨.success 7, .success 7⟩, false⟩,
      ⟨0, 0, ⟨.success 8, .success 8⟩, true⟩] ∧
    callsTo 1 story.entries = [⟨1, 0, ⟨.success 8, .success 8⟩, true⟩] ∧
    (story.poller.complete b 2 0 (.success 9)).2 = [.discarded 2 0 (.success 9)] ∧
    ∃ told, (story.poller.complete b 1 2 (.success 9)).2 =
      .applied 1 2 (.success 9) :: told ∧ ∀ e ∈ told, e.IsQuiet := by
  intro b story
  obtain ⟨hcalls, hcomplete⟩ := observers_are_told b {}
    [.move (.subscribe (.observer 1)), .move .start, .move (.tick 1), .move (.tick 1),
      .complete 1 1 (.success 7), .complete 1 0 (.success 8)]
  obtain ⟨told, htold, hquiet, -⟩ := (hcomplete 1 2 (.success 9)).2 (by decide)
  have hentries : story.entries = [.registered (.observer 1), .event (.issued 1 0),
      .event (.issued 1 1), .event (.applied 1 1 (.success 7)),
      .event (.called 0 1 ⟨.success 7, .success 7⟩ false), .registered (.observer 0),
      .event (.applied 1 0 (.success 8)),
      .event (.called 0 0 ⟨.success 8, .success 8⟩ true),
      .event (.called 1 0 ⟨.success 8, .success 8⟩ true)] := by
    rfl
  have hfirst := hcalls [] 1 _ hentries
  have hsecond := hcalls [_, _, _, _, _] 0 _ hentries
  refine ⟨?_, ?_, (hcomplete 2 0 _).1 (by decide), told, htold, hquiet⟩
  · exact hfirst
  · exact hsecond

end Story

end PoolWatch
