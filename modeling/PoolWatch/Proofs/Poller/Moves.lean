import PoolWatch.Poller
/-!
# Moves and what they leave in the log

Between completions a poller is moved from outside: it is started, stopped and dropped, fetching
is switched on and off, subscribers come and go, and tickers tick.  The log of everything that
happened is read in three ways: which fetches were issued, which of them have landed, and which
results were applied.
-/

namespace PoolWatch

variable {α σ : Type}

structure Issue where
  run : Nat
  seq : Nat
  deriving DecidableEq, Repr

/-- What is done to a poller from outside, one thing at a time.  A tick carries the run of its
ticker, which may be over. -/
inductive Move (α σ : Type) where
  | start
  | stop
  | drop
  | setShouldFetch (enabled : Bool)
  | subscribe (role : Role α σ)
  | cancel (ticket : Nat)
  | tick (run : Nat)

def Poller.move (p : Poller α σ) : Move α σ → Poller α σ × List (Event α σ)
  | .start => (p.start, [])
  | .stop => (p.stop, [])
  | .drop => p.drop
  | .setShouldFetch enabled => (p.setShouldFetch enabled, [])
  | .subscribe role => p.subscribe role
  | .cancel ticket => (p.cancel ticket, [])
  | .tick run => ((p.tick run).1, (p.tick run).2.2)

/-! ## Reading the log -/

namespace Event

@[simp] def issue? : Event α σ → Option Issue
  | .issued run seq => some ⟨run, seq⟩
  | _ => none

@[simp] def landing? : Event α σ → Option Issue
  | .applied run seq _ | .discarded run seq _ => some ⟨run, seq⟩
  | _ => none

@[simp] def application? : Event α σ → Option (Issue × Outcome α)
  | .applied run seq result => some (⟨run, seq⟩, result)
  | _ => none

/-- An event that only concerns subscribers: no fetch is issued, skipped or landed. -/
def IsQuiet : Event α σ → Prop
  | .issued .. | .skipped _ | .applied .. | .discarded .. => False
  | .called .. | .resolved .. | .abandoned _ => True

end Event

/-- The fetches issued in a log, in the order of issue. -/
def issues (log : List (Event α σ)) : List Issue := log.filterMap Event.issue?

def landings (log : List (Event α σ)) : List Issue := log.filterMap Event.landing?

/-- The results applied in a log with their fetches, in the order of application. -/
def applications (log : List (Event α σ)) : List (Issue × Outcome α) :=
  log.filterMap Event.application?

@[simp] theorem issues_nil : issues ([] : List (Event α σ)) = [] := rfl

@[simp] theorem issues_append (a b : List (Event α σ)) :
    issues (a ++ b) = issues a ++ issues b :=
  List.filterMap_append

@[simp] theorem issues_singleton (e : Event α σ) : issues [e] = e.issue?.toList := by
  cases e <;> rfl

theorem issues_concat_of_none {e : Event α σ} (h : e.issue? = none) (log : List (Event α σ)) :
    issues (log ++ [e]) = issues log := by
  rw [issues_append, issues_singleton, h, Option.toList_none, List.append_nil]

@[simp] theorem landings_append (a b : List (Event α σ)) :
    landings (a ++ b) = landings a ++ landings b :=
  List.filterMap_append

@[simp] theorem landings_singleton (e : Event α σ) : landings [e] = e.landing?.toList := by
  cases e <;> rfl

@[simp] theorem applications_append (a b : List (Event α σ)) :
    applications (a ++ b) = applications a ++ applications b :=
  List.filterMap_append

@[simp] theorem applications_singleton (e : Event α σ) :
    applications [e] = e.application?.toList := by
  cases e <;> rfl

theorem mem_landings_of_mem_applications {log : List (Event α σ)} {fetch : Issue}
    {result : Outcome α} (h : (fetch, result) ∈ applications log) : fetch ∈ landings log := by
  rw [applications, List.mem_filterMap] at h
  obtain ⟨e, he, happlied⟩ := h
  refine List.mem_filterMap.2 ⟨e, he, ?_⟩
  cases e <;> simp_all

theorem filterMap_eq_nil_of_forall {β : Type} {P : Event α σ → Prop} {f : Event α σ → Option β}
    (hf : ∀ e, P e → f e = none) {events : List (Event α σ)} (h : ∀ e ∈ events, P e) :
    events.filterMap f = [] := by
  rw [List.filterMap_eq_nil_iff]
  intro e he
  exact hf e (h e he)

section

variable {events : List (Event α σ)}

theorem issues_of_isQuiet (h : ∀ e ∈ events, e.IsQuiet) : issues events = [] := by
  refine filterMap_eq_nil_of_forall (fun e he => ?_) h
  cases e <;> simp_all [Event.IsQuiet]

theorem landings_of_isQuiet (h : ∀ e ∈ events, e.IsQuiet) : landings events = [] := by
  refine filterMap_eq_nil_of_forall (fun e he => ?_) h
  cases e <;> simp_all [Event.IsQuiet]

theorem applications_of_isQuiet (h : ∀ e ∈ events, e.IsQuiet) : applications events = [] := by
  refine filterMap_eq_nil_of_forall (fun e he => ?_) h
  cases e <;> simp_all [Event.IsQuiet]

end

/-- Nothing happened but that waiters went without a value. -/
def AreAbandonments (events : List (Event α σ)) : Prop :=
  ∀ e ∈ events, ∃ ticket, e = .abandoned ticket

theorem areAbandonments (subscribers : List (Subscription α σ)) :
    AreAbandonments (abandonments subscribers) := by
  intro e he
  rw [abandonments, List.mem_filterMap] at he
  obtain ⟨s, -, hs⟩ := he
  split at hs
  · cases hs
    exact ⟨s.ticket, rfl⟩
  · cases hs

theorem AreAbandonments.isQuiet {events : List (Event α σ)} (h : AreAbandonments events) :
    ∀ e ∈ events, e.IsQuiet := by
  intro e he
  obtain ⟨ticket, rfl⟩ := h e he
  trivial

/-! ## Moves that only concern subscribers and switches -/

/-- What a piece of work leaves behind differs from before in subscribers and switches only, and
no event tells of a fetch. -/
structure IsAdjustment (p : Poller α σ) (next : Poller α σ × List (Event α σ)) : Prop where
  poller_eq : next.1 = { p with
    shouldFetch := next.1.shouldFetch
    subscribers := next.1.subscribers
    nextTicket := next.1.nextTicket
    closed := next.1.closed }
  closed_eq : p.running = true → next.1.closed = p.closed
  isQuiet : ∀ e ∈ next.2, e.IsQuiet

namespace Poller

theorem isAdjustment_setShouldFetch (p : Poller α σ) (enabled : Bool) :
    IsAdjustment p (p.setShouldFetch enabled, []) :=
  ⟨rfl, fun _ => rfl, by simp⟩

theorem isAdjustment_cancel (p : Poller α σ) (ticket : Nat) :
    IsAdjustment p (p.cancel ticket, []) :=
  ⟨rfl, fun _ => rfl, by simp⟩

theorem isAdjustment_subscribe (p : Poller α σ) (role : Role α σ) :
    IsAdjustment p (p.subscribe role) := by
  unfold subscribe
  dsimp only
  split
  · exact ⟨rfl, fun _ => rfl, (areAbandonments _).isQuiet⟩
  · exact ⟨rfl, fun _ => rfl, by simp⟩

theorem isAdjustment_putBack (p : Poller α σ) (kept : List (Subscription α σ)) :
    IsAdjustment p (p.putBack kept) := by
  unfold putBack
  split
  · exact ⟨rfl, fun _ => rfl, (areAbandonments _).isQuiet⟩
  · exact ⟨rfl, fun _ => rfl, by simp⟩

theorem running_stop (p : Poller α σ) : p.stop.running = false := by
  unfold stop
  split
  · rfl
  · next hidle => simpa using hidle

theorem closed_stop (p : Poller α σ) : p.stop.closed = p.closed := by
  unfold stop
  split <;> rfl

theorem isAdjustment_drop (p : Poller α σ) : IsAdjustment p.stop p.drop where
  poller_eq := rfl
  closed_eq := by simp [running_stop]
  isQuiet := (areAbandonments p.subscribers).isQuiet

/-! ## Ticks -/

theorem tick_of_shouldFetch {p : Poller α σ} (hrunning : p.running = true)
    (hfetch : p.shouldFetch = true) :
    p.tick p.run =
      ({ p with
          nextSeq := p.nextSeq + 1
          current := if p.policy.refresh = .resetToLoading then .loading else p.current
          stats := { p.stats with issued := p.stats.issued + 1 } },
        some p.nextSeq, [.issued p.run p.nextSeq]) := by
  cases hrefresh : p.policy.refresh <;> simp [tick, hrunning, hfetch, hrefresh]

theorem tick_of_not_shouldFetch {p : Poller α σ} (hrunning : p.running = true)
    (hfetch : p.shouldFetch = false) :
    p.tick p.run =
      ({ p with stats := { p.stats with skipped := p.stats.skipped + 1 } }, none,
        [.skipped p.run]) := by
  simp [tick, hrunning, hfetch]

theorem tick_of_not_live {p : Poller α σ} {run : Nat} (h : ¬(p.running = true ∧ p.run = run)) :
    p.tick run = (p, none, []) := by
  rw [tick, if_neg h]

theorem tick_frame (p : Poller α σ) (run : Nat) :
    (p.tick run).1.nextTicket = p.nextTicket ∧ (p.tick run).1.closed = p.closed ∧
      (p.tick run).1.running = p.running ∧ (p.tick run).1.subscribers = p.subscribers := by
  unfold tick
  split
  · split <;> exact ⟨rfl, rfl, rfl, rfl⟩
  · exact ⟨rfl, rfl, rfl, rfl⟩

/-! ## Results that come too late -/

theorem isStale_iff (p : Poller α σ) (run seq : Nat) :
    p.isStale run seq = true ↔
      ¬(p.running = true ∧ p.run = run) ∨
        p.policy.overlap = .lastIssued ∧
          ∃ applied, p.appliedSeq = some applied ∧ seq < applied := by
  cases happlied : p.appliedSeq <;> cases hrunning : p.running <;>
    simp [isStale, happlied, hrunning]

theorem isStale_of_over {p : Poller α σ} {run : Nat} (h : ¬(p.running = true ∧ p.run = run))
    (seq : Nat) : p.isStale run seq = true :=
  (p.isStale_iff run seq).2 (Or.inl h)

theorem accept?_of_isStale {p : Poller α σ} {run seq : Nat} (h : p.isStale run seq = true)
    (result : Outcome α) : p.accept? run seq result = none := by
  rw [accept?, if_pos h]

theorem complete_of_isStale (b : Behaviour α σ) {p : Poller α σ} {run seq : Nat}
    (h : p.isStale run seq = true) (result : Outcome α) :
    p.complete b run seq result = (p.discard, [.discarded run seq result]) := by
  rw [complete, accept?_of_isStale h]

theorem exists_complete_of_fresh (b : Behaviour α σ) {p : Poller α σ} {run seq : Nat}
    (h : p.isStale run seq = false) (result : Outcome α) :
    ∃ told, (p.complete b run seq result).2 = .applied run seq result :: told := by
  rw [complete, accept?, h, if_neg Bool.false_ne_true]
  exact ⟨_, rfl⟩

end Poller

end PoolWatch
