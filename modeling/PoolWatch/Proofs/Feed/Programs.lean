import PoolWatch.Dashboard
import PoolWatch.Proofs.Feed.Charting
import PoolWatch.Proofs.Feed.Feeding
import PoolWatch.Proofs.Poller.Dropping
/-!
# What the programs record

A feed keeps a history of the pools that were shown, each of them the arranged answer of its fetch,
whatever happens to the poller and whoever observes it.  The dashboard and the console client are
such feeds without other observers, and never lose the one that feeds them.
-/

namespace PoolWatch

open PoolWatch.Numeric

variable {σ : Type}

/-- What becomes of fetches whose answers are arranged before they are shown. -/
def arrangedPlan (answers : Nat → FetchPlan (List Report.Group)) (seq : Nat) :
    FetchPlan (List Group) :=
  (answers seq).map fun (after, outcome) => (after, outcome.map Pool.arrange)

def answersOf (attempts : Attempts) (seq : Nat) : FetchPlan (List Report.Group) :=
  (attempts seq).map fun (after, attempt) => (after, attempt.outcome)

theorem planOf_eq (attempts : Attempts) : planOf attempts = arrangedPlan (answersOf attempts) := by
  ext seq : 1
  rw [planOf, arrangedPlan, answersOf, Option.map_map]
  rfl

/-- A history records what was shown: the arranged answers of the fetches whose results were
applied, if they were successes, each once and in the order of application.  Unless the poller was
dropped, its feeding observer is there. -/
structure RecordsShown (settings : Settings) (answers : Nat → FetchPlan (List Report.Group))
    (clock : Clock (List Group) (FeedObserver σ)) (history : History) : Prop where
  history_eq : history = History.recordAll settings.historyCapacity (shownPools clock.log.reverse)
  arranged : ∀ fetch result, (fetch, result) ∈ applications clock.log.reverse →
    ∃ after outcome, answers fetch.seq = some (after, outcome) ∧
      result = outcome.map Pool.arrange
  isFeeding : clock.poller.closed = false → IsFeeding clock.poller.subscribers

/-! ## Clocks -/

def Clock.IsFed (c : Clock (List Group) (FeedObserver σ)) : Prop := Fed c.poller c.log.reverse

namespace Clock.IsFed

variable {c : Clock (List Group) (FeedObserver σ)}

theorem move (h : c.IsFed) (m : Move (List Group) (FeedObserver σ))
    (hrole : ∀ role ∈ m.role?, role.IsBeside) : (c.become (c.poller.move m)).IsFed := by
  have hlog : (c.become (c.poller.move m)).log.reverse = c.log.reverse ++ (c.poller.move m).2 := by
    simp [Clock.become]
  rw [Clock.IsFed, hlog]
  exact Fed.move h m hrole

theorem advance (h : c.IsFed) (b : Behaviour (List Group) σ) (millis : Nat) :
    (c.advance (FeedObserver.behaviour b) millis).IsFed := by
  refine advance_keeps _ ?_ ?_ (fun _ _ hd => hd) h millis
  · intro d t _ hd
    rw [Clock.IsFed, poller_fire, log_fire, List.reverse_append, List.reverse_reverse]
    exact Fed.move hd (.tick t.run) fun _ hrole => absurd hrole (Option.not_mem_none _)
  · intro d f others _ hd
    have hlog : (d.land (FeedObserver.behaviour b) f others).log.reverse = d.log.reverse ++
        (d.poller.complete (FeedObserver.behaviour b) f.run f.seq f.result).2 := by
      simp [Clock.land, Clock.become]
    rw [Clock.IsFed, hlog]
    exact Fed.complete hd b f.run f.seq f.result

end Clock.IsFed

/-! ## Feeds -/

namespace Feed

theorem reverse_log_eq {before after : Clock (List Group) (FeedObserver σ)}
    (h : before.log <:+ after.log) :
    after.log.reverse = before.log.reverse ++ news before after := by
  obtain ⟨new, hnew⟩ := h
  rw [news, ← hnew, List.length_append, Nat.add_sub_cancel, List.take_left, List.reverse_append]

/-- A feed that has recorded what its observer was told. -/
structure IsKept (capacity : Nat) (plan : Nat → FetchPlan (List Group)) (f : Feed σ) : Prop where
  isFed : f.clock.IsFed
  followsPlan : f.clock.FollowsPlan plan
  history_eq : f.history = History.recordAll capacity (fedPools f.clock.log.reverse)

namespace IsKept

variable {capacity : Nat} {plan : Nat → FetchPlan (List Group)} {f : Feed σ}

theorem become (h : f.IsKept capacity plan) {clock : Clock (List Group) (FeedObserver σ)}
    (hsuffix : f.clock.log <:+ clock.log) (hfed : clock.IsFed) (hplan : clock.FollowsPlan plan) :
    (f.become clock).IsKept capacity plan := by
  refine ⟨hfed, hplan, ?_⟩
  show (news f.clock clock).foldl History.take f.history =
    History.recordAll capacity (fedPools clock.log.reverse)
  rw [reverse_log_eq hsuffix, fedPools_append, foldl_take, h.history_eq, History.recordAll,
    History.recordAll, List.foldl_append]

theorem advance (h : f.IsKept capacity plan) (b : Behaviour (List Group) σ) (millis : Nat) :
    (f.advance b millis).IsKept capacity plan :=
  h.become (Clock.suffix_advance _ _ millis) (h.isFed.advance b millis)
    (h.followsPlan.advance _ millis)

theorem move (h : f.IsKept capacity plan) (m : Move (List Group) (FeedObserver σ))
    (hrole : ∀ role ∈ m.role?, role.IsBeside)
    (hseq : (f.clock.poller.move m).1.nextSeq = f.clock.poller.nextSeq) :
    (f.become (f.clock.become (f.clock.poller.move m))).IsKept capacity plan :=
  h.become (Clock.suffix_become _ _) (h.isFed.move m hrole)
    (h.followsPlan.become hseq (f.clock.poller.isMute_move m))

end IsKept

theorem isKept_start (settings : Settings) (plan : Nat → FetchPlan (List Group)) :
    (start settings plan : Feed σ).IsKept settings.historyCapacity plan where
  isFed := by
    refine ⟨fun hclosed => ?_, fun _ => ⟨[], rfl, List.forall_mem_nil _⟩, rfl⟩
    cases hclosed
  followsPlan := by
    refine ⟨fun t ht => ?_, List.forall_mem_nil _, fun _ _ happlied => ?_⟩
    · cases ht
      exact ⟨rfl, rfl⟩
    · exact absurd happlied List.not_mem_nil
  history_eq := rfl

inductive Action (σ : Type) where
  | advance (millis : Nat)
  | setShouldFetch (enabled : Bool)
  | subscribe (role : Role (List Group) σ)
  | cancel (ticket : Nat)
  | stop
  | drop

def act (b : Behaviour (List Group) σ) (f : Feed σ) : Action σ → Feed σ
  | .advance millis => f.advance b millis
  | .setShouldFetch enabled => f.setShouldFetch enabled
  | .subscribe role => f.subscribe role
  | .cancel ticket => f.cancel ticket
  | .stop => f.become f.clock.stop
  | .drop => f.become f.clock.drop

def run (b : Behaviour (List Group) σ) (f : Feed σ) (actions : List (Action σ)) : Feed σ :=
  actions.foldl (act b) f

theorem IsKept.act {capacity : Nat} {plan : Nat → FetchPlan (List Group)} {f : Feed σ}
    (h : f.IsKept capacity plan) (b : Behaviour (List Group) σ) (action : Action σ) :
    (f.act b action).IsKept capacity plan := by
  have hnone : ∀ role ∈ (none : Option (Role (List Group) (FeedObserver σ))), role.IsBeside :=
    fun _ hrole => absurd hrole (Option.not_mem_none _)
  cases action with
  | advance millis => exact h.advance b millis
  | setShouldFetch enabled => exact h.move (.setShouldFetch enabled) hnone rfl
  | subscribe role =>
    refine h.move (.subscribe role.forFeed) ?_ (Poller.nextSeq_subscribe _ _)
    intro role' hrole
    cases hrole
    exact isBeside_forFeed role
  | cancel ticket => exact h.move (.cancel ticket) hnone rfl
  | stop => exact h.move .stop hnone (Poller.nextSeq_stop _)
  | drop => exact h.move .drop hnone (Poller.nextSeq_drop _)

theorem IsKept.run {capacity : Nat} {plan : Nat → FetchPlan (List Group)} {f : Feed σ}
    (h : f.IsKept capacity plan) (b : Behaviour (List Group) σ) (actions : List (Action σ)) :
    (f.run b actions).IsKept capacity plan := by
  induction actions generalizing f with
  | nil => exact h
  | cons action actions ih => exact ih (h.act b action)

theorem IsKept.recordsShown {settings : Settings}
    {answers : Nat → FetchPlan (List Report.Group)} {f : Feed σ}
    (h : f.IsKept settings.historyCapacity (arrangedPlan answers)) :
    RecordsShown settings answers f.clock f.history where
  history_eq := by rw [h.history_eq, h.isFed.fedPools_eq]
  arranged fetch result happlied := by
    rw [applications, List.filterMap_reverse, List.mem_reverse] at happlied
    obtain ⟨after, hplan⟩ := h.followsPlan.applied fetch result happlied
    obtain ⟨⟨_, outcome⟩, hanswer, hresult⟩ := Option.map_eq_some_iff.1 hplan
    cases hresult
    exact ⟨after, outcome, hanswer, rfl⟩
  isFeeding := h.isFed.isFeeding

/-! ## Without other observers -/

theorem not_callsDrop (log : List (Event (List Group) (FeedObserver Empty))) :
    ¬CallsDrop (FeedObserver.behaviour noObservers) log := by
  rintro ⟨⟨ticket, observer, delivery, done⟩, -, hdrop⟩
  cases observer with
  | feeder => cases hdrop
  | other observer => exact nomatch observer

theorem closed_advance {c : Clock (List Group) (FeedObserver Empty)}
    (hopen : c.poller.closed = false) (millis : Nat) :
    (c.advance (FeedObserver.behaviour noObservers) millis).poller.closed = false := by
  refine Clock.advance_keeps (P := fun d => d.poller.closed = false) _ ?_ ?_ ?_ hopen millis
  · intro d t _ hd
    rw [Clock.poller_fire]
    exact (d.poller.tick_frame t.run).2.1.trans hd
  · intro d f others _ hd
    rw [← Bool.not_eq_true] at hd ⊢
    show ¬(d.poller.complete (FeedObserver.behaviour noObservers) f.run f.seq
      f.result).1.closed = true
    rw [Poller.closed_complete, not_or]
    exact ⟨hd, not_callsDrop _⟩
  · exact fun _ _ hd => hd

end Feed

/-! ## The dashboard -/

namespace Dashboard

inductive Action where
  | advance (millis : Nat)
  | click (text : String)
  | togglePicker
  | choose (metric : Metric)
  | resetSession

def act (d : Dashboard) : Action → Dashboard
  | .advance millis => d.advance millis
  | .click text => d.click text
  | .togglePicker => d.togglePicker
  | .choose metric => d.choose metric
  | .resetSession => d.resetSession

def run (d : Dashboard) (actions : List Action) : Dashboard := actions.foldl act d

/-- Whatever is done to a dashboard, its feed only waits and is switched on and off. -/
theorem feed_act (d : Dashboard) (action : Action) :
    (∃ millis, (d.act action).feed = d.feed.advance noObservers millis) ∨
      (∃ enabled, (d.act action).feed = d.feed.setShouldFetch enabled) ∨
      (d.act action).feed = d.feed := by
  cases action with
  | advance millis => exact Or.inl ⟨millis, rfl⟩
  | click text =>
    unfold act click
    dsimp only
    split
    · exact Or.inr (Or.inr rfl)
    · split
      · exact Or.inr (Or.inl ⟨_, rfl⟩)
      · exact Or.inr (Or.inr rfl)
  | togglePicker => exact Or.inr (Or.inr rfl)
  | choose metric =>
    unfold act choose
    dsimp only
    split <;> exact Or.inr (Or.inr rfl)
  | resetSession => exact Or.inr (Or.inr rfl)

theorem isKept_run {capacity : Nat} {plan : Nat → FetchPlan (List Group)} {d : Dashboard}
    (h : d.feed.IsKept capacity plan) (hopen : d.feed.clock.poller.closed = false)
    (actions : List Action) :
    (d.run actions).feed.IsKept capacity plan ∧
      (d.run actions).feed.clock.poller.closed = false := by
  induction actions generalizing d with
  | nil => exact ⟨h, hopen⟩
  | cons action actions ih =>
    suffices hact : (d.act action).feed.IsKept capacity plan ∧
        (d.act action).feed.clock.poller.closed = false from ih hact.1 hact.2
    rcases d.feed_act action with ⟨millis, hfeed⟩ | ⟨enabled, hfeed⟩ | hfeed
    · rw [hfeed]
      exact ⟨h.advance noObservers millis, Feed.closed_advance hopen millis⟩
    · rw [hfeed]
      exact ⟨h.act noObservers (.setShouldFetch enabled), hopen⟩
    · rw [hfeed]
      exact ⟨h, hopen⟩

end Dashboard

/-! ## The console client -/

theorem Feed.IsKept.isClocked {capacity : Nat} {attempts : Attempts} {f : Feed σ}
    (h : f.IsKept capacity (planOf attempts)) :
    ∀ groups ∈ fedPools f.clock.log.reverse, IsClocked groups := by
  intro groups hgroups
  rw [h.isFed.fedPools_eq] at hgroups
  obtain ⟨e, he, hshown⟩ := List.mem_filterMap.1 hgroups
  cases e with
  | applied run seq result =>
    have happlied : ((⟨run, seq⟩ : Issue), result) ∈ applications f.clock.log :=
      List.mem_filterMap.2 ⟨_, List.mem_reverse.1 he, rfl⟩
    obtain ⟨after, hplan⟩ := h.followsPlan.applied _ _ happlied
    obtain ⟨⟨_, attempt⟩, -, hresult⟩ := Option.map_eq_some_iff.1 hplan
    cases hresult
    cases houtcome : attempt.outcome with
    | success reported =>
      rw [houtcome] at hshown
      cases hshown
      exact attempt.isClocked houtcome
    | failure error =>
      rw [houtcome] at hshown
      cases hshown
  | _ => cases hshown

namespace Console

section

variable {s : Settings} {attempts : Attempts} (unwritable : String → Option String)

theorem exists_take {r : Record} {groups : List Group} {pools : List (List Group)}
    (hr : r.history = History.recordAll s.historyCapacity pools)
    (hclocked : ∀ g ∈ pools ++ [groups], IsClocked g) :
    ∃ r', r.take s unwritable groups = .ok r' ∧
      r'.history = History.recordAll s.historyCapacity (pools ++ [groups]) := by
  have hhistory : (r.history.record groups).2 =
      History.recordAll s.historyCapacity (pools ++ [groups]) := by
    rw [hr, History.recordAll_append_singleton]
  obtain ⟨document, hdocument⟩ := exists_chartDocument hclocked s.historyCapacity s.maxPoints
  unfold Record.take
  dsimp only
  rw [hhistory]
  cases s.chartPath with
  | none => exact ⟨_, rfl, rfl⟩
  | some path =>
    dsimp only
    rw [hdocument]
    cases unwritable path <;> exact ⟨_, rfl, rfl⟩

theorem exists_takeEvent {r : Record} {e : Event (List Group) (FeedObserver Empty)}
    {pools : List (List Group)} (hr : r.history = History.recordAll s.historyCapacity pools)
    (hclocked : ∀ g ∈ pools ++ e.fed?.toList, IsClocked g) :
    ∃ r', r.takeEvent s unwritable e = .ok r' ∧
      r'.history = History.recordAll s.historyCapacity (pools ++ e.fed?.toList) := by
  have hunfed (hfed : e.fed? = none) :
      r.history = History.recordAll s.historyCapacity (pools ++ e.fed?.toList) := by
    rw [hfed, Option.toList_none, List.append_nil, hr]
  cases e with
  | called ticket observer delivery done =>
    obtain ⟨result, state⟩ := delivery
    cases observer with
    | feeder =>
      cases result with
      | success groups => exact exists_take unwritable hr hclocked
      | failure error => exact ⟨r, rfl, hunfed rfl⟩
    | other observer => exact nomatch observer
  | _ => exact ⟨r, rfl, hunfed rfl⟩

theorem exists_foldlM {r : Record} {pools : List (List Group)}
    {events : List (Event (List Group) (FeedObserver Empty))}
    (hr : r.history = History.recordAll s.historyCapacity pools)
    (hclocked : ∀ g ∈ pools ++ fedPools events, IsClocked g) :
    ∃ r', events.foldlM (Record.takeEvent s unwritable) r = .ok r' ∧
      r'.history = History.recordAll s.historyCapacity (pools ++ fedPools events) := by
  induction events generalizing r pools with
  | nil => exact ⟨r, rfl, by rw [hr]; simp [fedPools]⟩
  | cons e events ih =>
    rw [fedPools_cons, ← List.append_assoc] at hclocked ⊢
    obtain ⟨next, hnext, hhistory⟩ : ∃ next, r.takeEvent s unwritable e = .ok next ∧
        next.history = History.recordAll s.historyCapacity (pools ++ e.fed?.toList) :=
      exists_takeEvent unwritable hr fun g hg => hclocked g (List.mem_append_left _ hg)
    obtain ⟨r', hr', hkept⟩ := ih hhistory hclocked
    refine ⟨r', ?_, hkept⟩
    rw [List.foldlM_cons, hnext]
    exact hr'

/-- A client that has taken up what its observer was told of. -/
structure State.IsKept (s : Settings) (attempts : Attempts) (c : State) : Prop where
  feed : c.feed.IsKept s.historyCapacity (planOf attempts)
  isOpen : c.feed.clock.poller.closed = false
  history_eq : c.record.history = c.feed.history

theorem State.isKept_start (s : Settings) (attempts : Attempts) :
    (State.start s attempts).IsKept s attempts :=
  ⟨Feed.isKept_start s _, rfl, rfl⟩

theorem State.IsKept.exists_pass {c : State} (h : c.IsKept s attempts) (millis : Nat) :
    ∃ c', c.pass s unwritable attempts millis = .ok c' ∧ c'.IsKept s attempts ∧
      c'.feed = c.feed.advance noObservers millis := by
  have hkept := h.feed.advance noObservers millis
  have hlog := congrArg fedPools (Feed.reverse_log_eq
    (Clock.suffix_advance (FeedObserver.behaviour noObservers) c.feed.clock millis))
  rw [fedPools_append] at hlog
  have hreport : c.report.record.history =
      History.recordAll s.historyCapacity (fedPools c.feed.clock.log.reverse) :=
    h.history_eq.trans h.feed.history_eq
  obtain ⟨record, hrecord, hhistory⟩ := exists_foldlM unwritable hreport
    fun g hg => hkept.isClocked g (hlog.symm ▸ hg)
  refine ⟨_, bind_eq_ok_iff.2 ⟨record, hrecord, rfl⟩, ⟨hkept, ?_, ?_⟩, rfl⟩
  · exact Feed.closed_advance h.isOpen millis
  · rw [hhistory, ← hlog]
    exact hkept.history_eq.symm

theorem State.IsKept.exists_foldlM {c : State} (h : c.IsKept s attempts) (waits : List Nat) :
    ∃ c', waits.foldlM (State.pass s unwritable attempts) c = .ok c' ∧ c'.IsKept s attempts ∧
      c'.feed = c.feed.run noObservers (waits.map .advance) := by
  induction waits generalizing c with
  | nil => exact ⟨c, rfl, h, rfl⟩
  | cons millis waits ih =>
    obtain ⟨next, hnext, hkept, hfeed⟩ := h.exists_pass unwritable millis
    obtain ⟨c', hc', hkept', hfeed'⟩ := ih hkept
    refine ⟨c', ?_, hkept', ?_⟩
    · rw [List.foldlM_cons, hnext]
      exact hc'
    · rw [hfeed', hfeed]
      rfl

end

/-- The feed of the client after some time. -/
def polled (s : Settings) (attempts : Attempts) (millis : Nat) : Feed Empty :=
  (Feed.start s (planOf attempts)).run noObservers ((byMinutes millis).map .advance)

end Console

/-- What a feed keeps is what was shown, whatever becomes of the fetches, whoever else observes the
poller, and whatever is done to it.  So is what the dashboard and the console client keep, and they
never lose their feeding observer. -/
theorem programs_record_shown :
    (∀ {σ : Type} (b : Behaviour (List Group) σ) (settings : Settings)
      (answers : Nat → FetchPlan (List Report.Group)) (actions : List (Feed.Action σ)),
      let f := (Feed.start settings (arrangedPlan answers)).run b actions
      RecordsShown settings answers f.clock f.history) ∧
    (∀ (settings : Settings) (attempts : Attempts) (actions : List Dashboard.Action),
      let f := ((Dashboard.start settings attempts).run actions).feed
      RecordsShown settings (answersOf attempts) f.clock f.history ∧
        f.clock.poller.closed = false) ∧
    ∀ (settings : Settings) (unwritable : String → Option String) (attempts : Attempts)
      (millis : Nat),
      let clock := (Console.polled settings attempts millis).clock
      clock.poller.closed = false ∧
        ∃ r, Console.run settings unwritable attempts millis = .ok r ∧
          RecordsShown settings (answersOf attempts) clock r.history := by
  refine ⟨?_, ?_, ?_⟩
  · intro σ b settings answers actions
    exact ((Feed.isKept_start settings (arrangedPlan answers)).run b actions).recordsShown
  · intro settings attempts actions
    have hstart : (Dashboard.start settings attempts).feed.IsKept settings.historyCapacity
        (planOf attempts) := Feed.isKept_start settings _
    obtain ⟨hkept, hopen⟩ := Dashboard.isKept_run hstart rfl actions
    rw [planOf_eq] at hkept
    exact ⟨hkept.recordsShown, hopen⟩
  · intro settings unwritable attempts millis
    obtain ⟨c, hc, hkept, hfeed⟩ := (Console.State.isKept_start settings attempts).exists_foldlM
      unwritable (Console.byMinutes millis)
    have hpolled : c.feed = Console.polled settings attempts millis := hfeed
    have hfeed := hkept.feed
    rw [planOf_eq] at hfeed
    have hrecords := hfeed.recordsShown
    rw [← hkept.history_eq, hpolled] at hrecords
    exact ⟨hpolled ▸ hkept.isOpen, _, bind_eq_ok_iff.2 ⟨c, hc, rfl⟩, hrecords⟩

/-- Two empty pools, and a fetch in between that breaks down. -/
def brokenOnce (seq : Nat) : FetchPlan (List Report.Group) :=
  [some (0, .success []), some (5, .failure (.ofPanic none)), some (0, .success [])].getD seq none

theorem programs_record_shown_around_failure :
    let f := (Feed.start {} (arrangedPlan brokenOnce)).run noObservers [.advance 0, .advance 60000]
    shownPools f.clock.log.reverse = [Pool.arrange [], Pool.arrange []] ∧
      f.history = History.recordAll 2048 [Pool.arrange [], Pool.arrange []] := by
  have hrecords := programs_record_shown.1 noObservers {} brokenOnce [.advance 0, .advance 60000]
  have hshown : shownPools ((Feed.start {} (arrangedPlan brokenOnce)).run noObservers
      [.advance 0, .advance 60000]).clock.log.reverse = [Pool.arrange [], Pool.arrange []] := rfl
  exact ⟨hshown, hshown ▸ hrecords.history_eq⟩

end PoolWatch
