import PoolWatch.Proofs.Poller.Balance
import PoolWatch.Proofs.Poller.Timing
/-!
# Timelines

A timeline tells everything that happens to the poller of a clock: fetches land, runs tick, and
somebody acts from outside.  Its order is that of time.  What the clock does when it advances takes
no more steps than it allows itself, so nothing is left that was due by then.
-/

namespace PoolWatch

variable {α σ : Type}

/-! ## Counters and runs -/

@[simp] def Event.skip? : Event α σ → Option Nat
  | .skipped run => some run
  | _ => none

/-- The skipped ticks of a log, by their runs. -/
def skips (log : List (Event α σ)) : List Nat := log.filterMap Event.skip?

@[simp] theorem skips_append (a b : List (Event α σ)) : skips (a ++ b) = skips a ++ skips b :=
  List.filterMap_append

@[simp] theorem skips_singleton (e : Event α σ) : skips [e] = e.skip?.toList := by
  cases e <;> rfl

theorem skips_of_isQuiet {events : List (Event α σ)} (h : ∀ e ∈ events, e.IsQuiet) :
    skips events = [] := by
  refine filterMap_eq_nil_of_forall (fun e he => ?_) h
  cases e <;> simp_all [Event.IsQuiet]

/-- What a poller becomes with some events: a run that goes on afterwards went on before, unless it
is a new one, and the counters have grown by the fetches issued and the ticks skipped. -/
structure Poller.Becomes (p : Poller α σ) (next : Poller α σ × List (Event α σ)) : Prop where
  run_le : p.run ≤ next.1.run
  running : next.1.run = p.run → next.1.running = true → p.running = true
  issued : next.1.stats.issued = p.stats.issued + (issues next.2).length
  skipped : next.1.stats.skipped = p.stats.skipped + (skips next.2).length

theorem Course.Changes.becomes {c c' : Course α σ} (h : Course.Changes c c') (hlog : c.log = []) :
    c.poller.Becomes (c'.poller, c'.log) := by
  refine h.keep (P := fun d => c.poller.Becomes (d.poller, d.log)) ?_ ?_
  · intro d d' ⟨hle, hrunning, hissued, hskipped⟩ hchange
    dsimp only at hle hrunning hissued hskipped
    cases hchange with
    | adjust shouldFetch closed subscribers nextTicket events hclosed hquiet =>
      refine ⟨hle, hrunning, ?_, ?_⟩
      · simpa [issues_of_isQuiet hquiet] using hissued
      · simpa [skips_of_isQuiet hquiet] using hskipped
    | halt => exact ⟨Nat.le_succ_of_le hle, fun _ hidle => (nomatch hidle), hissued, hskipped⟩
    | begin =>
      have hlt : c.poller.run < d.poller.run + 1 := Nat.lt_succ_of_le hle
      exact ⟨hlt.le, fun hsame => absurd hsame hlt.ne', hissued, hskipped⟩
    | issue => exact ⟨hle, hrunning, by simp [hissued, Nat.add_assoc], by simpa using hskipped⟩
    | skip => exact ⟨hle, hrunning, by simpa using hissued, by simp [hskipped, Nat.add_assoc]⟩
    | apply | discard =>
      exact ⟨hle, hrunning, by simpa using hissued, by simpa using hskipped⟩
  · exact ⟨Nat.le_refl _, fun _ hrunning => hrunning, by simp [hlog], by simp [hlog, skips]⟩

namespace Poller

theorem Becomes.refl (p : Poller α σ) : p.Becomes (p, []) :=
  ⟨Nat.le_refl _, fun _ hrunning => hrunning, rfl, rfl⟩

theorem Becomes.trans {p p' p'' : Poller α σ} {events events' : List (Event α σ)}
    (h : p.Becomes (p', events)) (h' : p'.Becomes (p'', events')) :
    p.Becomes (p'', events ++ events') where
  run_le := h.run_le.trans h'.run_le
  running hsame hrunning := by
    have hle := h.run_le
    have hle' := h'.run_le
    dsimp only at hsame hle hle'
    have hmiddle : p''.run = p'.run := by omega
    exact h.running (hmiddle.symm.trans hsame) (h'.running hmiddle hrunning)
  issued := by
    rw [h'.issued, h.issued, issues_append, List.length_append, Nat.add_assoc]
  skipped := by
    rw [h'.skipped, h.skipped, skips_append, List.length_append, Nat.add_assoc]

theorem becomes_move (p : Poller α σ) (m : Move α σ) : p.Becomes (p.move m) :=
  (Course.changes_move ⟨p, [], []⟩ m).becomes rfl

theorem becomes_complete (b : Behaviour α σ) (p : Poller α σ) (run seq : Nat)
    (result : Outcome α) : p.Becomes (p.complete b run seq result) :=
  (Course.changes_complete (c := ⟨p, [⟨run, seq⟩], []⟩) b (List.mem_singleton.2 rfl)
    result).becomes rfl

end Poller

/-! ## What is done -/

namespace Clock

/-- What is done to a clock. -/
inductive Action (α σ : Type) where
  | advance (millis : Nat)
  | start (interval : Nat) (plan : Nat → FetchPlan α)
  | stop
  | drop
  | setShouldFetch (enabled : Bool)
  | subscribe (role : Role α σ)
  | cancel (ticket : Nat)

def Action.move? : Action α σ → Option (Move α σ)
  | .advance _ => none
  | .start .. => some .start
  | .stop => some .stop
  | .drop => some .drop
  | .setShouldFetch enabled => some (.setShouldFetch enabled)
  | .subscribe role => some (.subscribe role)
  | .cancel ticket => some (.cancel ticket)

def act (b : Behaviour α σ) (c : Clock α σ) : Action α σ → Clock α σ
  | .advance millis => c.advance b millis
  | .start interval plan => c.start interval plan
  | .stop => c.stop
  | .drop => c.drop
  | .setShouldFetch enabled => c.setShouldFetch enabled
  | .subscribe role => c.subscribe role
  | .cancel ticket => c.cancel ticket

def run (b : Behaviour α σ) (c : Clock α σ) (actions : List (Action α σ)) : Clock α σ :=
  actions.foldl (act b) c

def episode (b : Behaviour α σ) (c : Clock α σ) : Action α σ → List (Occurrence α σ)
  | .advance millis =>
    c.occurrences b (c.now + millis) (c.stepBound (c.now + millis))
  | action => action.move?.toList.map (c.moving c.now)

/-- What happens with some actions in order. -/
def timeline (b : Behaviour α σ) : Clock α σ → List (Action α σ) → List (Occurrence α σ)
  | _, [] => []
  | c, action :: actions => c.episode b action ++ timeline b (c.act b action) actions

def fresh (policy : Policy) : Clock α σ := { poller := { policy } }

/-! ## One step -/

/-- Nothing is due before a time, and the ticker belongs to no run to come. -/
structure OnTime (time : Nat) (c : Clock α σ) : Prop where
  flights : ∀ f ∈ c.flights, time ≤ f.due
  ticker : ∀ t, c.liveTicker? = some t → time ≤ t.next
  run_le : ∀ t, c.ticker = some t → t.run ≤ c.poller.run

section

variable {c c' : Clock α σ}

theorem liveTicker?_of_becomes {next : Poller α σ × List (Event α σ)} {t : Ticker α}
    (hrun : ∀ t, c.ticker = some t → t.run ≤ c.poller.run) (hticker : c'.ticker = c.ticker)
    (hpoller : c'.poller = next.1) (hbecomes : c.poller.Becomes next)
    (hlive : c'.liveTicker? = some t) : c.liveTicker? = some t := by
  obtain ⟨ht, hrunning, hsame⟩ := liveTicker?_eq_some.1 hlive
  rw [hticker] at ht
  rw [hpoller] at hrunning hsame
  have heq : next.1.run = c.poller.run :=
    Nat.le_antisymm (hsame ▸ hrun t ht) hbecomes.run_le
  exact liveTicker?_eq_some.2 ⟨ht, hbecomes.running heq hrunning, hsame.trans heq⟩

theorem liveTicker?_of_land (b : Behaviour α σ) {f : Flight α} {others : List (Flight α)}
    {t : Ticker α} (hrun : ∀ t, c.ticker = some t → t.run ≤ c.poller.run)
    (hlive : (c.land b f others).liveTicker? = some t) : c.liveTicker? = some t := by
  have hticker : (c.land b f others).ticker = c.ticker := rfl
  exact liveTicker?_of_becomes hrun hticker rfl
    (c.poller.becomes_complete b f.run f.seq f.result) hlive

theorem ticker_fire (c : Clock α σ) (t : Ticker α) :
    ∃ issued, (c.fire t).ticker = some { t with next := t.next + t.period, issued } := by
  rcases c.fire_cases t with ⟨-, hticker, -⟩ | ⟨-, hticker, -⟩
  · exact ⟨_, hticker⟩
  · exact ⟨_, hticker⟩

theorem flights_fire (c : Clock α σ) (t : Ticker α) :
    (c.fire t).flights.length ≤ c.flights.length + 1 ∧
      ∀ f ∈ (c.fire t).flights, f ∈ c.flights ∨ t.next ≤ f.due := by
  rcases c.fire_cases t with ⟨-, -, hflights⟩ | ⟨-, -, hflights⟩
  · rw [hflights]
    cases t.plan t.issued with
    | none =>
      rw [Option.toList_none, List.map_nil, List.append_nil]
      exact ⟨Nat.le_succ _, fun f hf => Or.inl hf⟩
    | some entry =>
      rw [Option.toList_some, List.map_singleton, List.length_append, List.length_singleton]
      refine ⟨Nat.le_refl _, fun f hf => (List.mem_append.1 hf).imp_right fun hnew => ?_⟩
      rw [List.mem_singleton.1 hnew]
      exact Nat.le_add_right _ _
  · rw [hflights]
    exact ⟨Nat.le_succ _, fun f hf => Or.inl hf⟩

variable {b : Behaviour α σ} {limit time : Nat} {o : Occurrence α σ}

theorem OnTime.occurs (h : c.OnTime time) (hoccurs : Occurs b limit c o c') :
    time ≤ o.time ∧ o.time ≤ limit ∧ c'.OnTime o.time := by
  cases hoccurs with
  | land f others hearliest hdue hfirst =>
    have hperm := earliest?_perm hearliest
    have hbecomes := c.poller.becomes_complete b f.run f.seq f.result
    refine ⟨h.flights f (hperm.mem_iff.2 List.mem_cons_self), hdue, ?_, ?_, ?_⟩
    · intro g hg
      exact le_of_earliest? hearliest g (hperm.mem_iff.2 (List.mem_cons_of_mem f hg))
    · intro t ht
      exact hfirst t (liveTicker?_of_land b h.run_le ht)
    · intro t ht
      exact (h.run_le t ht).trans hbecomes.run_le
  | tick t hlive hdue hfirst =>
    obtain ⟨issued, hticker⟩ := c.ticker_fire t
    have hrun := (c.poller.becomes_move (.tick t.run)).run_le
    rw [← poller_fire] at hrun
    refine ⟨h.ticker t hlive, hdue, ?_, ?_, ?_⟩
    · intro f hf
      exact ((c.flights_fire t).2 f hf).elim (hfirst f) id
    · intro t' ht'
      rw [(liveTicker?_eq_some.1 ht').1, Option.some_inj] at hticker
      rw [hticker]
      exact Nat.le_add_right _ _
    · intro t' ht'
      rw [ht', Option.some_inj] at hticker
      rw [hticker]
      exact (h.run_le t (liveTicker?_eq_some.1 hlive).1).trans hrun

theorem Occurs.stepBound_lt (h : c.OnTime time) (hoccurs : Occurs b limit c o c') :
    c'.stepBound limit < c.stepBound limit := by
  unfold stepBound
  cases hoccurs with
  | land f others hearliest hdue hfirst =>
    have hlength := (earliest?_perm hearliest).length_eq
    rw [List.length_cons] at hlength
    cases hlive : (c.land b f others).liveTicker? with
    | none =>
      show others.length + 0 < _
      omega
    | some t =>
      rw [liveTicker?_of_land b h.run_le hlive]
      show others.length + _ < _
      omega
  | tick t hlive hdue hfirst =>
    obtain ⟨issued, hticker⟩ := c.ticker_fire t
    have hlength := (c.flights_fire t).1
    rw [hlive]
    dsimp only
    rw [if_pos hdue]
    -- Each tick takes two steps from the bound, and adds at most one for its fetch.
    cases hlive' : (c.fire t).liveTicker? with
    | none =>
      dsimp only
      generalize (limit - t.next) / t.period = more
      omega
    | some t' =>
      rw [(liveTicker?_eq_some.1 hlive').1, Option.some_inj] at hticker
      subst hticker
      dsimp only
      split
      next hnext =>
        have hdiv : (limit - t.next) / t.period =
            (limit - (t.next + t.period)) / t.period + 1 := by
          rw [Nat.div_eq_sub_div t.period_pos (by omega), Nat.sub_sub]
        omega
      next =>
        generalize (limit - t.next) / t.period = more
        omega

end

/-! ## Until nothing is due -/

section

variable {b : Behaviour α σ} {limit time : Nat} {c c' : Clock α σ} {os : List (Occurrence α σ)}

theorem OnTime.passes (h : c.OnTime time) (hpasses : Passes b limit c os c') :
    ∃ time', c'.OnTime time' := by
  induction hpasses generalizing time with
  | refl => exact ⟨time, h⟩
  | step hoccurs _ ih => exact ih (h.occurs hoccurs).2.2

theorem OnTime.occur?_runUntil (h : c.OnTime time) (b : Behaviour α σ) {fuel : Nat}
    (hfuel : c.stepBound limit ≤ fuel) : (c.runUntil b limit fuel).occur? b limit = none := by
  induction fuel generalizing c time with
  | zero =>
    rw [runUntil]
    cases hoccur : c.occur? b limit with
    | none => rfl
    | some next =>
      have := (Occurs.of_occur? hoccur).stepBound_lt h
      omega
  | succ fuel ih =>
    rw [runUntil, ← map_occur?]
    cases hoccur : c.occur? b limit with
    | none => exact hoccur
    | some next =>
      have hoccurs := Occurs.of_occur? hoccur
      have hlt := hoccurs.stepBound_lt h
      exact ih (h.occurs hoccurs).2.2 (by omega)

theorem OnTime.advance (h : c.OnTime time) (b : Behaviour α σ) (millis : Nat) :
    (c.advance b millis).OnTime (c.now + millis) ∧
      ∀ t, (c.advance b millis).liveTicker? = some t → c.now + millis < t.next := by
  have hnone := h.occur?_runUntil b (Nat.le_refl (c.stepBound (c.now + millis)))
  obtain ⟨hflights, hticker⟩ := later_of_occur?_eq_none hnone
  obtain ⟨time', hlast⟩ := h.passes (passes_occurrences b _ (c.stepBound (c.now + millis)) c)
  exact ⟨⟨fun f hf => (hflights f hf).le, fun t ht => (hticker t ht).le, hlast.run_le⟩, hticker⟩

end

/-! ## All that happens -/

/-- Occurrences lead from one poller to another: each begins with what the one before has left. -/
def Leads : Poller α σ → List (Occurrence α σ) → Poller α σ → Prop
  | p, [], p' => p' = p
  | p, o :: rest, p' => o.before = p ∧ Leads o.after rest p'

/-- Some occurrences between two times are all that happened from one clock to another, in the order
of time, and the counters keep up with them. -/
structure Recounts (time time' : Nat) (c : Clock α σ) (os : List (Occurrence α σ))
    (c' : Clock α σ) : Prop where
  le : time ≤ time'
  bounds : ∀ o ∈ os, time ≤ o.time ∧ o.time ≤ time'
  sorted : (os.map Occurrence.time).Pairwise (· ≤ ·)
  leads : Leads c.poller os c'.poller
  becomes : ∀ o ∈ os, o.before.Becomes (o.after, o.events)
  log_eq : c'.log = (os.flatMap Occurrence.events).reverse ++ c.log

theorem Leads.append {p p' p'' : Poller α σ} {os os' : List (Occurrence α σ)}
    (h : Leads p os p') (h' : Leads p' os' p'') : Leads p (os ++ os') p'' := by
  induction os generalizing p with
  | nil => exact h ▸ h'
  | cons o os ih => exact ⟨h.1, ih h.2⟩

theorem Leads.becomes {p p' : Poller α σ} {os : List (Occurrence α σ)} (h : Leads p os p')
    (hos : ∀ o ∈ os, o.before.Becomes (o.after, o.events)) :
    p.Becomes (p', os.flatMap Occurrence.events) := by
  induction os generalizing p with
  | nil => exact h ▸ .refl p
  | cons o os ih =>
    obtain ⟨rfl, hrest⟩ := h
    obtain ⟨ho, hos⟩ := List.forall_mem_cons.1 hos
    exact ho.trans (ih hrest hos)

namespace Recounts

variable {time time' time'' : Nat} {c c' c'' : Clock α σ} {os os' : List (Occurrence α σ)}

theorem nothing (hle : time ≤ time') (c : Clock α σ) : Recounts time time' c [] c :=
  ⟨hle, List.forall_mem_nil _, .nil, rfl, List.forall_mem_nil _, rfl⟩

theorem append (h : Recounts time time' c os c') (h' : Recounts time' time'' c' os' c'') :
    Recounts time time'' c (os ++ os') c'' where
  le := h.le.trans h'.le
  bounds o ho := by
    rcases List.mem_append.1 ho with ho | ho
    · exact ⟨(h.bounds o ho).1, (h.bounds o ho).2.trans h'.le⟩
    · exact ⟨h.le.trans (h'.bounds o ho).1, (h'.bounds o ho).2⟩
  sorted := by
    rw [List.map_append, List.pairwise_append]
    refine ⟨h.sorted, h'.sorted, ?_⟩
    intro t ht t' ht'
    obtain ⟨o, ho, rfl⟩ := List.mem_map.1 ht
    obtain ⟨o', ho', rfl⟩ := List.mem_map.1 ht'
    exact (h.bounds o ho).2.trans (h'.bounds o' ho').1
  leads := h.leads.append h'.leads
  becomes := List.forall_mem_append.2 ⟨h.becomes, h'.becomes⟩
  log_eq := by
    rw [h'.log_eq, h.log_eq, List.flatMap_append, List.reverse_append, List.append_assoc]

theorem single {o : Occurrence α σ} (hle : time ≤ o.time) (hle' : o.time ≤ time')
    (hbefore : o.before = c.poller) (hafter : c'.poller = o.after)
    (hbecomes : o.before.Becomes (o.after, o.events))
    (hlog : c'.log = o.events.reverse ++ c.log) : Recounts time time' c [o] c' where
  le := hle.trans hle'
  bounds := List.forall_mem_singleton.2 ⟨hle, hle'⟩
  sorted := List.pairwise_singleton _ _
  leads := ⟨hbefore, hafter⟩
  becomes := List.forall_mem_singleton.2 hbecomes
  log_eq := by rw [hlog, List.flatMap_singleton]

theorem occurs {b : Behaviour α σ} {limit : Nat} {o : Occurrence α σ} (h : c.OnTime time)
    (hoccurs : Occurs b limit c o c') : Recounts time o.time c [o] c' := by
  obtain ⟨hle, -, -⟩ := h.occurs hoccurs
  cases hoccurs with
  | land f others =>
    exact single hle (Nat.le_refl _) rfl rfl (c.poller.becomes_complete b f.run f.seq f.result) rfl
  | tick t =>
    exact single hle (Nat.le_refl _) rfl (c.poller_fire t) (c.poller.becomes_move (.tick t.run))
      (c.log_fire t)

theorem passes {b : Behaviour α σ} {limit : Nat} (h : c.OnTime time) (hle : time ≤ limit)
    (hpasses : Passes b limit c os c') : Recounts time limit c os c' := by
  induction hpasses generalizing time with
  | refl c => exact nothing hle c
  | step hoccurs _ ih =>
    obtain ⟨-, hle', hnext⟩ := h.occurs hoccurs
    exact (occurs h hoccurs).append (ih hnext hle')

end Recounts

/-! ## Actions -/

section

variable {c : Clock α σ} {action : Action α σ} {m : Move α σ}

theorem episode_of_move? (b : Behaviour α σ) (c : Clock α σ) (h : action.move? = some m) :
    c.episode b action = [c.moving c.now m] := by
  cases action <;> cases h <;> rfl

theorem act_of_move? (b : Behaviour α σ) (c : Clock α σ) (h : action.move? = some m) :
    (c.act b action).poller = (c.poller.move m).1 ∧
      (c.act b action).log = (c.poller.move m).2.reverse ++ c.log ∧
      (c.act b action).now = c.now ∧ (c.act b action).flights = c.flights := by
  cases action with
  | start interval plan =>
    cases h
    show (c.start interval plan).poller = c.poller.start ∧ (c.start interval plan).log = c.log ∧
      (c.start interval plan).now = c.now ∧ (c.start interval plan).flights = c.flights
    unfold start Poller.start
    split <;> exact ⟨rfl, rfl, rfl, rfl⟩
  | _ => cases h <;> exact ⟨rfl, rfl, rfl, rfl⟩

theorem ticker_act_of_move? (b : Behaviour α σ) (c : Clock α σ) (h : action.move? = some m) :
    (c.act b action).ticker = c.ticker ∨
      ∃ t, (c.act b action).ticker = some t ∧ t.run = (c.act b action).poller.run ∧
        t.next = c.now := by
  cases action with
  | start interval plan =>
    show (c.start interval plan).ticker = c.ticker ∨ ∃ t, (c.start interval plan).ticker = some t ∧
      t.run = (c.start interval plan).poller.run ∧ t.next = c.now
    unfold start
    split
    · exact Or.inl rfl
    · exact Or.inr ⟨_, rfl, rfl, rfl⟩
  | advance millis => cases h
  | _ => exact Or.inl rfl

theorem OnTime.act (h : c.OnTime c.now) (b : Behaviour α σ) (action : Action α σ) :
    (c.act b action).OnTime (c.act b action).now ∧
      Recounts c.now (c.act b action).now c (c.episode b action) (c.act b action) := by
  cases hmove : action.move? with
  | none =>
    cases action with
    | advance millis =>
      have hpasses := passes_occurrences b (c.now + millis) (c.stepBound (c.now + millis)) c
      have hrecounts := Recounts.passes h (Nat.le_add_right _ _) hpasses
      refine ⟨(h.advance b millis).1, ?_⟩
      exact { hrecounts with }
    | _ => cases hmove
  | some m =>
    obtain ⟨hpoller, hlog, hnow, hflights⟩ := act_of_move? b c hmove
    have hbecomes := c.poller.becomes_move m
    constructor
    · rw [hnow]
      rcases ticker_act_of_move? b c hmove with hticker | ⟨t, hticker, hrun, hnext⟩
      · refine ⟨hflights ▸ h.flights, fun t ht => ?_, fun t ht => ?_⟩
        · exact h.ticker t (liveTicker?_of_becomes h.run_le hticker hpoller hbecomes ht)
        · rw [hpoller]
          exact (h.run_le t (hticker ▸ ht)).trans hbecomes.run_le
      · refine ⟨hflights ▸ h.flights, fun t' ht' => ?_, fun t' ht' => ?_⟩
        · rw [(liveTicker?_eq_some.1 ht').1, Option.some_inj] at hticker
          rw [hticker, hnext]
        · rw [ht', Option.some_inj] at hticker
          rw [hticker, hrun]
    · rw [hnow, episode_of_move? b c hmove]
      exact .single (Nat.le_refl _) (Nat.le_refl _) rfl hpoller hbecomes hlog

end

section

variable {c : Clock α σ}

/-- Whatever is done, the timeline tells it. -/
theorem OnTime.run (h : c.OnTime c.now) (b : Behaviour α σ) (actions : List (Action α σ)) :
    (c.run b actions).OnTime (c.run b actions).now ∧
      Recounts c.now (c.run b actions).now c (c.timeline b actions) (c.run b actions) := by
  induction actions generalizing c with
  | nil => exact ⟨h, .nothing (Nat.le_refl _) c⟩
  | cons action actions ih =>
    obtain ⟨hnext, hfirst⟩ := h.act b action
    obtain ⟨hlast, hrest⟩ := ih hnext
    exact ⟨hlast, hfirst.append hrest⟩

theorem onTime_fresh (policy : Policy) : (fresh policy : Clock α σ).OnTime 0 where
  flights := List.forall_mem_nil _
  ticker _ hlive := nomatch hlive
  run_le _ hticker := nomatch hticker

end

end Clock

end PoolWatch
