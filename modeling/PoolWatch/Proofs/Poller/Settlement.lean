import PoolWatch.Proofs.Poller.Delivery
import PoolWatch.Poller.Wait
/-!
# How waits end

A wait ends with the first value that it accepts among the results told to it, and without a value
when its poller is dropped.  Three lists describe what an action does: the waits it resolves, the
waits it lets go, and the subscribers that remain.  The last two are tied together: what remains
stays with the poller, or is let go if the poller has been dropped by then.
-/

namespace PoolWatch

variable {α σ : Type}

def accepted? (accepts : α → Bool) (outcomes : List (Outcome α)) : Option α :=
  (outcomes.filterMap Outcome.value?).find? accepts

@[simp] theorem accepted?_nil (accepts : α → Bool) : accepted? accepts [] = none := rfl

theorem accepted?_append (accepts : α → Bool) (before after : List (Outcome α)) :
    accepted? accepts (before ++ after) =
      (accepted? accepts before).or (accepted? accepts after) := by
  simp [accepted?, List.filterMap_append, List.find?_append]

theorem isSome_accepted?_singleton (accepts : α → Bool) (result : Outcome α) :
    (accepted? accepts [result]).isSome = result.value?.any accepts := by
  cases result with
  | success value => cases h : accepts value <;> simp [accepted?, Outcome.value?, h]
  | failure error => rfl

/-! ## The ends of waits in a log -/

@[simp] def Event.resolution? : Event α σ → Option (Nat × α)
  | .resolved ticket value => some (ticket, value)
  | _ => none

@[simp] def Event.abandonment? : Event α σ → Option Nat
  | .abandoned ticket => some ticket
  | _ => none

/-- The waits resolved in a log with their values. -/
def resolutions (log : List (Event α σ)) : List (Nat × α) := log.filterMap Event.resolution?

/-- The waits in a log that go without a value. -/
def abandoned (log : List (Event α σ)) : List Nat := log.filterMap Event.abandonment?

@[simp] theorem resolutions_nil : resolutions ([] : List (Event α σ)) = [] := rfl

@[simp] theorem abandoned_nil : abandoned ([] : List (Event α σ)) = [] := rfl

@[simp] theorem resolutions_cons (e : Event α σ) (log : List (Event α σ)) :
    resolutions (e :: log) = e.resolution?.toList ++ resolutions log := by
  cases e <;> rfl

@[simp] theorem abandoned_cons (e : Event α σ) (log : List (Event α σ)) :
    abandoned (e :: log) = e.abandonment?.toList ++ abandoned log := by
  cases e <;> rfl

@[simp] theorem resolutions_append (a b : List (Event α σ)) :
    resolutions (a ++ b) = resolutions a ++ resolutions b :=
  List.filterMap_append

@[simp] theorem abandoned_append (a b : List (Event α σ)) :
    abandoned (a ++ b) = abandoned a ++ abandoned b :=
  List.filterMap_append

theorem AreAbandonments.resolutions {events : List (Event α σ)} (h : AreAbandonments events) :
    resolutions events = [] := by
  refine filterMap_eq_nil_of_forall (P := fun e => ∃ ticket, e = .abandoned ticket) ?_ h
  rintro e ⟨ticket, rfl⟩
  rfl

def waiters (subscribers : List (Subscription α σ)) : List Nat :=
  subscribers.filterMap fun s =>
    match s.role with
    | .waiter _ => some s.ticket
    | _ => none

@[simp] theorem waiters_append (a b : List (Subscription α σ)) :
    waiters (a ++ b) = waiters a ++ waiters b :=
  List.filterMap_append

theorem abandoned_abandonments (subscribers : List (Subscription α σ)) :
    abandoned (abandonments subscribers) = waiters subscribers := by
  rw [abandoned, abandonments, List.filterMap_filterMap, waiters]
  congr 1
  ext s : 1
  obtain ⟨ticket, role⟩ := s
  cases role <;> rfl

theorem filter_waiters (ticket : Nat) (subscribers : List (Subscription α σ)) :
    (waiters subscribers).filter (fun t => t = ticket) =
      waiters (underTicket ticket subscribers) := by
  rw [waiters, waiters, underTicket, List.filter_filterMap, List.filterMap_filter]
  congr 1
  ext s : 1
  obtain ⟨t, role⟩ := s
  by_cases h : t = ticket <;> cases role <;> simp [h]

/-! ## Waits that are let go -/

theorem Poller.closed_start (p : Poller α σ) : p.start.closed = p.closed := by
  unfold Poller.start
  split
  · rfl
  · exact p.closed_stop

/-- From one state of a poller to another these events let go of every waiter there was or came, if
the poller is closed in the end, and of none otherwise. -/
def LetsGo (p p' : Poller α σ) (roles : List (Role α σ)) (events : List (Event α σ)) : Prop :=
  abandoned events =
    if p'.closed = true then waiters (p.subscribers ++ enroll p.nextTicket roles) else []

namespace LetsGo

variable {p p' p'' : Poller α σ}

theorem nothing (htidy : p.IsTidy) (hclosed : p'.closed = p.closed)
    {events : List (Event α σ)} (hnone : abandoned events = []) : LetsGo p p' [] events := by
  rw [LetsGo, hnone, hclosed]
  split
  · next h => simp [(htidy h).2, enroll, waiters]
  · rfl

theorem trans (htidy : p.IsTidy) {a b : List (Role α σ)} {events events' : List (Event α σ)}
    (hfirst : Enrolls p p' a) (hsecond : Enrolls p' p'' b) (h : LetsGo p p' a events)
    (h' : LetsGo p' p'' b events') : LetsGo p p'' (a ++ b) (events ++ events') := by
  rw [LetsGo] at h h'
  rw [LetsGo, abandoned_append, h, h', hfirst.nextTicket, enroll_append]
  cases hopen' : p'.closed with
  | true =>
    -- All that was there has gone, and what comes afterwards goes at once.
    have hclosed'' : p''.closed = true := by
      cases hopen'' : p''.closed with
      | true => rfl
      | false => exact (hsecond.subscribers hopen'').1.symm.trans hopen'
    have hnone : p'.subscribers = [] := (hfirst.isTidy htidy hopen').2
    simp [hclosed'', hnone]
  | false =>
    have hsubscribers := (hfirst.subscribers hopen').2
    simp [hsubscribers]

theorem subscribe (htidy : p.IsTidy) (role : Role α σ) :
    LetsGo p (p.subscribe role).1 [role] (p.subscribe role).2 := by
  unfold LetsGo Poller.subscribe
  cases hclosed : p.closed with
  | true =>
    simp only [if_true, (htidy hclosed).2, List.nil_append]
    exact abandoned_abandonments _
  | false => simp

theorem stop (htidy : p.IsTidy) : LetsGo p p.stop [] [] :=
  nothing htidy p.closed_stop rfl

theorem drop (p : Poller α σ) : LetsGo p p.drop.1 [] p.drop.2 := by
  show abandoned (abandonments p.subscribers) = waiters (p.subscribers ++ [])
  rw [abandoned_abandonments, List.append_nil]

theorem obey (htidy : p.IsTidy) (command : Command α σ) :
    LetsGo p (p.obey command).1 (commanded [command]) (p.obey command).2 := by
  cases command with
  | observe observer => exact subscribe htidy (.observer observer)
  | waitFor accepts => exact subscribe htidy (.waiter accepts)
  | setShouldFetch enabled => exact nothing htidy rfl rfl
  | stop => exact stop htidy
  | drop => exact drop p

theorem obeyAll (htidy : p.IsTidy) (commands : List (Command α σ)) :
    LetsGo p (p.obeyAll commands).1 (commanded commands) (p.obeyAll commands).2 := by
  induction commands generalizing p with
  | nil => exact nothing htidy rfl rfl
  | cons command commands ih =>
    have hfirst := Enrolls.obey p command
    rw [commanded_cons]
    exact trans htidy hfirst (Enrolls.obeyAll _ commands) (obey htidy command)
      (ih (hfirst.isTidy htidy))

theorem call (b : Behaviour α σ) (htidy : p.IsTidy) (result : Outcome α) (s : Subscription α σ) :
    LetsGo p (p.call b result s).1 ((p.call b result s).2.2.flatMap (Event.registers b))
      (p.call b result s).2.2 := by
  obtain ⟨ticket, role⟩ := s
  cases role with
  | cancelled => exact nothing htidy rfl rfl
  | waiter accepts =>
    cases result with
    | failure error => exact nothing htidy rfl rfl
    | success value =>
      rw [Poller.call]
      dsimp only
      split
      · exact nothing htidy rfl rfl
      · exact nothing htidy rfl rfl
  | observer observer =>
    have hcommands := obeyAll htidy (b.react observer ⟨result, p.current⟩).commands
    rw [Poller.call, List.flatMap_cons,
      registers_of_isMute b (AreAbandonments.obeyAll _ _).isMute, List.append_nil]
    exact hcommands

theorem notify (b : Behaviour α σ) (htidy : p.IsTidy) (result : Outcome α)
    (taken : List (Subscription α σ)) :
    LetsGo p (p.notify b result taken).1
      ((p.notify b result taken).2.2.flatMap (Event.registers b))
      (p.notify b result taken).2.2 := by
  induction taken generalizing p with
  | nil => exact nothing htidy rfl rfl
  | cons s rest ih =>
    have hfirst := (Notifies.call b p result s).enrolls
    have hsecond := (Notifies.notify b result (p.call b result s).1 rest).enrolls
    rw [Poller.notify, List.flatMap_append]
    exact trans htidy hfirst hsecond (call b htidy result s) (ih (hfirst.isTidy htidy))

theorem move (htidy : p.IsTidy) (m : Move α σ) :
    LetsGo p (p.move m).1 m.role?.toList (p.move m).2 := by
  cases m with
  | start => exact nothing htidy p.closed_start rfl
  | stop => exact stop htidy
  | drop => exact drop p
  | setShouldFetch enabled => exact nothing htidy rfl rfl
  | subscribe role => exact subscribe htidy role
  | cancel ticket => exact nothing htidy rfl rfl
  | tick run =>
    refine nothing htidy (p.tick_frame run).2.1 ?_
    rw [Poller.move, Poller.tick]
    split
    · split <;> rfl
    · rfl

end LetsGo

/-! ## Waits that are resolved -/

namespace Subscription

/-- The end that some outcomes bring to a waiter. -/
def resolution? (outcomes : List (Outcome α)) (s : Subscription α σ) : Option (Nat × α) :=
  match s.role with
  | .waiter accepts => (accepted? accepts outcomes).map fun value => (s.ticket, value)
  | _ => none

/-- What has become of a subscriber after some outcomes. -/
def after? (b : Behaviour α σ) (outcomes : List (Outcome α)) (s : Subscription α σ) :
    Option (Subscription α σ) :=
  match s.role with
  | .observer observer => (standing? b observer outcomes).map fun o => ⟨s.ticket, .observer o⟩
  | .waiter accepts => if (accepted? accepts outcomes).isSome then none else some s
  | .cancelled => if outcomes.isEmpty then some s else none

theorem resolution?_nil (s : Subscription α σ) : s.resolution? [] = none := by
  obtain ⟨ticket, role⟩ := s
  cases role <;> rfl

theorem after?_nil (b : Behaviour α σ) (s : Subscription α σ) : s.after? b [] = some s := by
  obtain ⟨ticket, role⟩ := s
  cases role <;> rfl

theorem after?_singleton (b : Behaviour α σ) (result : Outcome α) (s : Subscription α σ) :
    s.after? b [result] = s.stay? b ⟨result, result.shown⟩ := by
  obtain ⟨ticket, role⟩ := s
  cases role with
  | observer observer =>
    simp only [after?, stay?, standing?]
    split <;> rfl
  | waiter accepts => simp only [after?, stay?, isSome_accepted?_singleton]
  | cancelled => rfl

theorem ticket_of_after? {b : Behaviour α σ} {outcomes : List (Outcome α)}
    {s s' : Subscription α σ} (h : s.after? b outcomes = some s') : s'.ticket = s.ticket := by
  obtain ⟨ticket, role⟩ := s
  cases role with
  | observer observer =>
    obtain ⟨o, -, rfl⟩ := Option.map_eq_some_iff.1 h
    rfl
  | waiter accepts =>
    simp only [after?] at h
    split at h
    · cases h
    · cases h
      rfl
  | cancelled =>
    simp only [after?] at h
    split at h
    · cases h
      rfl
    · cases h

end Subscription

namespace Poller

theorem resolutions_call (b : Behaviour α σ) (p : Poller α σ) (result : Outcome α)
    (s : Subscription α σ) :
    resolutions (p.call b result s).2.2 = (s.resolution? [result]).toList := by
  obtain ⟨ticket, role⟩ := s
  cases role with
  | cancelled => rfl
  | waiter accepts =>
    cases result with
    | failure error => rfl
    | success value =>
      cases haccepts : accepts value <;>
        simp [call, Subscription.resolution?, accepted?, Outcome.value?, haccepts]
  | observer observer =>
    have hnone :=
      (AreAbandonments.obeyAll p (b.react observer ⟨result, p.current⟩).commands).resolutions
    simp [call, Subscription.resolution?, hnone]

theorem resolutions_notify (b : Behaviour α σ) (p : Poller α σ) (result : Outcome α)
    (taken : List (Subscription α σ)) :
    resolutions (p.notify b result taken).2.2 =
      taken.filterMap (Subscription.resolution? [result]) := by
  induction taken generalizing p with
  | nil => rfl
  | cons s rest ih =>
    rw [notify, resolutions_append, resolutions_call, ih]
    cases h : s.resolution? [result] <;> simp [h]

theorem closed_putBack (p : Poller α σ) (kept : List (Subscription α σ)) :
    (p.putBack kept).1.closed = p.closed := by
  unfold putBack
  split <;> rfl

theorem abandoned_putBack (p : Poller α σ) (kept : List (Subscription α σ)) :
    abandoned (p.putBack kept).2 = if p.closed = true then waiters kept else [] := by
  unfold putBack
  split
  · exact abandoned_abandonments kept
  · rfl

theorem complete_of_fresh (b : Behaviour α σ) {p : Poller α σ} {run seq : Nat}
    (hfresh : p.isStale run seq = false) (result : Outcome α) :
    p.complete b run seq result =
      let told := (p.accepted seq result).notify b result p.subscribers
      let back := told.1.putBack told.2.1
      (back.1, .applied run seq result :: (told.2.2 ++ back.2)) := by
  rw [complete, accept?_of_fresh hfresh]
  rfl

theorem settles_complete (b : Behaviour α σ) {p : Poller α σ} (htidy : p.IsTidy) {run seq : Nat}
    (hfresh : p.isStale run seq = false) (result : Outcome α) :
    ∃ told, (p.complete b run seq result).2 = .applied run seq result :: told ∧
      resolutions told = p.subscribers.filterMap (Subscription.resolution? [result]) ∧
      (abandoned told).Perm
        (if (p.complete b run seq result).1.closed = true then
          waiters (p.subscribers.filterMap (Subscription.after? b [result]) ++
            enroll p.nextTicket (told.flatMap (Event.registers b)))
        else []) := by
  rw [complete_of_fresh b hfresh result]
  dsimp only
  set next := (p.accepted seq result).notify b result p.subscribers
  have htidy' : (p.accepted seq result).IsTidy := fun hclosed => ⟨(htidy hclosed).1, rfl⟩
  have hgo : abandoned next.2.2 =
      if next.1.closed = true then
        waiters (enroll p.nextTicket (next.2.2.flatMap (Event.registers b)))
      else [] :=
    LetsGo.notify b htidy' result p.subscribers
  have hkept : next.2.1 = p.subscribers.filterMap (Subscription.after? b [result]) := by
    rw [(Notifies.notify b result (p.accepted seq result) p.subscribers).kept]
    congr 1
    ext s : 1
    exact (s.after?_singleton b result).symm
  have hreturned := AreAbandonments.putBack next.1 next.2.1
  refine ⟨next.2.2 ++ (next.1.putBack next.2.1).2, rfl, ?_, ?_⟩
  · rw [resolutions_append, hreturned.resolutions, List.append_nil]
    exact resolutions_notify b (p.accepted seq result) result p.subscribers
  · rw [abandoned_append, hgo, abandoned_putBack, closed_putBack, List.flatMap_append,
      registers_of_isMute b hreturned.isMute, List.append_nil, hkept]
    split
    · rw [waiters_append]
      exact List.perm_append_comm
    · exact .nil

end Poller

end PoolWatch
