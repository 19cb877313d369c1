import PoolWatch.Proofs.Poller.Timeline
/-!
# The cadence of fetches

A run ticks at its start and after every period, whatever happens in between: fetches that land
late or never, switches turned on and off, subscribers that come, go and give commands, and time
that passes in pieces of any length.  Each tick issues one fetch or is skipped, as fetching is
switched on or paused at that moment, and no fetch is issued without a tick.
-/

namespace PoolWatch

variable {α σ : Type}

/-! ## Ticks and what is between them -/

namespace Occurrence

/-- A tick of a run issues one fetch, or is counted as skipped while fetching is paused. -/
structure IsTickOf (run : Nat) (o : Occurrence α σ) : Prop where
  events_eq : o.events =
    if o.before.shouldFetch = true then [.issued run o.before.nextSeq] else [.skipped run]
  stats_eq : o.after.stats =
    if o.before.shouldFetch = true then
      { o.before.stats with issued := o.before.stats.issued + 1 }
    else { o.before.stats with skipped := o.before.stats.skipped + 1 }

/-- No fetch is issued and no tick is skipped. -/
structure IsIdle (o : Occurrence α σ) : Prop where
  issues_eq : issues o.events = []
  skips_eq : skips o.events = []
  issued_eq : o.after.stats.issued = o.before.stats.issued
  skipped_eq : o.after.stats.skipped = o.before.stats.skipped

theorem isIdle_of_becomes {o : Occurrence α σ} (h : o.before.Becomes (o.after, o.events))
    (hissues : issues o.events = []) (hskips : skips o.events = []) : o.IsIdle where
  issues_eq := hissues
  skips_eq := hskips
  issued_eq := by rw [h.issued, hissues, List.length_nil, Nat.add_zero]
  skipped_eq := by rw [h.skipped, hskips, List.length_nil, Nat.add_zero]

theorem IsTickOf.length_events {run : Nat} {o : Occurrence α σ} (h : o.IsTickOf run) :
    (issues o.events).length + (skips o.events).length = 1 := by
  rw [h.events_eq]
  split <;> rfl

theorem length_filter_isTick {run : Nat} {os : List (Occurrence α σ)}
    (h : ∀ o ∈ os, if o.isTick = true then o.IsTickOf run else o.IsIdle) :
    (os.filter isTick).length =
      (issues (os.flatMap events)).length + (skips (os.flatMap events)).length := by
  induction os with
  | nil => rfl
  | cons o os ih =>
    obtain ⟨ho, hos⟩ := List.forall_mem_cons.1 h
    have hrest := ih hos
    rw [List.flatMap_cons, issues_append, skips_append, List.length_append, List.length_append]
    cases htick : o.isTick with
    | true =>
      rw [if_pos htick] at ho
      have hone := ho.length_events
      rw [List.filter_cons_of_pos htick, List.length_cons, hrest]
      omega
    | false =>
      rw [htick, if_neg Bool.false_ne_true] at ho
      rw [List.filter_cons_of_neg (ne_true_of_eq_false htick), ho.issues_eq, ho.skips_eq, hrest]
      simp only [List.length_nil, Nat.zero_add]

end Occurrence

namespace Poller

theorem run_lt_start {p : Poller α σ} (hopen : ¬p.closed = true) : p.run < p.start.run := by
  unfold start stop
  rw [if_neg hopen]
  split
  · exact Nat.lt_succ_of_lt (Nat.lt_succ_self _)
  · exact Nat.lt_succ_self _

theorem isQuiet_move (p : Poller α σ) {m : Move α σ} (h : m.isTick = false) :
    ∀ e ∈ (p.move m).2, e.IsQuiet := by
  cases m with
  | drop => exact (areAbandonments p.subscribers).isQuiet
  | subscribe role => exact (p.isAdjustment_subscribe role).isQuiet
  | tick run => cases h
  | _ => exact List.forall_mem_nil _

end Poller

namespace Clock

theorem isIdle_landing (b : Behaviour α σ) (c : Clock α σ) (f : Flight α) :
    (c.landing b f).IsIdle := by
  have hbecomes := c.poller.becomes_complete b f.run f.seq f.result
  cases hstale : c.poller.isStale f.run f.seq with
  | true =>
    have hevents : (c.landing b f).events = [.discarded f.run f.seq f.result] :=
      congrArg Prod.snd (Poller.complete_of_isStale b hstale f.result)
    exact Occurrence.isIdle_of_becomes hbecomes (by rw [hevents]; rfl) (by rw [hevents]; rfl)
  | false =>
    obtain ⟨told, htold, h⟩ := Poller.applies_complete b hstale f.result
    have hevents : (c.landing b f).events = [.applied f.run f.seq f.result] ++ told := htold
    refine Occurrence.isIdle_of_becomes hbecomes ?_ ?_
    · rw [hevents, issues_append, issues_of_isQuiet h.isQuiet]
      rfl
    · rw [hevents, skips_append, skips_of_isQuiet h.isQuiet]
      rfl

theorem isIdle_moving (c : Clock α σ) (time : Nat) {m : Move α σ} (h : m.isTick = false) :
    (c.moving time m).IsIdle := by
  have hquiet := c.poller.isQuiet_move h
  exact Occurrence.isIdle_of_becomes (c.poller.becomes_move m) (issues_of_isQuiet hquiet)
    (skips_of_isQuiet hquiet)

theorem isTickOf_moving {c : Clock α σ} {t : Ticker α} (hlive : c.liveTicker? = some t)
    (time : Nat) : (c.moving time (.tick t.run)).IsTickOf t.run := by
  obtain ⟨-, hrunning, hrun⟩ := liveTicker?_eq_some.1 hlive
  rw [hrun]
  cases hfetch : c.poller.shouldFetch with
  | true =>
    constructor
    · simp [moving, Poller.move, Poller.tick_of_shouldFetch hrunning hfetch, hfetch]
    · simp [moving, Poller.move, Poller.tick_of_shouldFetch hrunning hfetch, hfetch]
  | false =>
    constructor
    · simp [moving, Poller.move, Poller.tick_of_not_shouldFetch hrunning hfetch, hfetch]
    · simp [moving, Poller.move, Poller.tick_of_not_shouldFetch hrunning hfetch, hfetch]

/-! ## The pace of a run -/

/-- From the tick with a number on, some occurrences hold so many ticks of a run, each at its time,
and beside them nothing that issues a fetch or skips a tick. -/
structure KeepsPace (start period run n count : Nat) (os : List (Occurrence α σ)) : Prop where
  times_eq : (os.filter Occurrence.isTick).map Occurrence.time =
    (List.range' n count).map fun k => start + k * period
  regular : ∀ o ∈ os, if o.isTick = true then o.IsTickOf run else o.IsIdle

/-- The ticker of a run is to make the tick with a number. -/
def AwaitsTick (start period run n : Nat) (c : Clock α σ) : Prop :=
  ∃ t, c.ticker = some t ∧ t.run = run ∧ t.period = period ∧ t.next = start + n * period

section

variable {start period run n count count' : Nat}

namespace KeepsPace

variable {o : Occurrence α σ} {os os' : List (Occurrence α σ)}

theorem nil : KeepsPace start period run n 0 ([] : List (Occurrence α σ)) :=
  ⟨rfl, List.forall_mem_nil _⟩

theorem of_isTickOf (htick : o.isTick = true) (htime : o.time = start + n * period)
    (h : o.IsTickOf run) : KeepsPace start period run n 1 [o] where
  times_eq := by simp [htick, htime]
  regular := List.forall_mem_singleton.2 (by rwa [if_pos htick])

theorem of_isIdle (htick : o.isTick = false) (h : o.IsIdle) :
    KeepsPace start period run n 0 [o] where
  times_eq := by simp [htick]
  regular := List.forall_mem_singleton.2 (by rwa [htick, if_neg Bool.false_ne_true])

theorem append (h : KeepsPace start period run n count os)
    (h' : KeepsPace start period run (n + count) count' os') :
    KeepsPace start period run n (count + count') (os ++ os') where
  times_eq := by
    rw [List.filter_append, List.map_append, h.times_eq, h'.times_eq, ← List.map_append,
      List.range'_append_1]
  regular := List.forall_mem_append.2 ⟨h.regular, h'.regular⟩

theorem count_eq (h : KeepsPace start period run n count os) :
    (issues (os.flatMap Occurrence.events)).length +
      (skips (os.flatMap Occurrence.events)).length = count := by
  rw [← Occurrence.length_filter_isTick h.regular, ← List.length_map Occurrence.time, h.times_eq,
    List.length_map, List.length_range']

end KeepsPace

variable {b : Behaviour α σ} {limit : Nat} {c c' : Clock α σ} {os : List (Occurrence α σ)}

theorem AwaitsTick.occurs {o : Occurrence α σ} (h : c.AwaitsTick start period run n)
    (hoccurs : Occurs b limit c o c') :
    ∃ count, KeepsPace start period run n count [o] ∧
      c'.AwaitsTick start period run (n + count) := by
  cases hoccurs with
  | land f others => exact ⟨0, .of_isIdle rfl (c.isIdle_landing b f), h⟩
  | tick t hlive =>
    obtain ⟨t', hticker, rfl, rfl, hnext⟩ := h
    rw [(liveTicker?_eq_some.1 hlive).1, Option.some_inj] at hticker
    subst hticker
    obtain ⟨issued, hfired⟩ := c.ticker_fire t
    refine ⟨1, .of_isTickOf rfl hnext (isTickOf_moving hlive t.next), _, hfired, rfl, rfl, ?_⟩
    show t.next + t.period = start + (n + 1) * t.period
    rw [hnext, Nat.add_assoc, Nat.succ_mul]

theorem AwaitsTick.passes (h : c.AwaitsTick start period run n)
    (hpasses : Passes b limit c os c') :
    ∃ count, KeepsPace start period run n count os ∧
      c'.AwaitsTick start period run (n + count) := by
  induction hpasses generalizing n with
  | refl => exact ⟨0, .nil, h⟩
  | step hoccurs _ ih =>
    obtain ⟨count, hpace, hnext⟩ := h.occurs hoccurs
    obtain ⟨count', hpace', hlast⟩ := ih hnext
    exact ⟨count + count', hpace.append hpace', by rwa [← Nat.add_assoc]⟩

/-! ## As long as a run goes on -/

/-- A run goes on: it has been neither stopped nor replaced. -/
def GoesOn (run : Nat) (c : Clock α σ) : Prop :=
  c.poller.running = true ∧ c.poller.run = run

theorem GoesOn.of_becomes {next : Poller α σ × List (Event α σ)} (hbecomes : c.poller.Becomes next)
    (hpoller : c'.poller = next.1) (hle : run ≤ c.poller.run) (h : c'.GoesOn run) :
    c.GoesOn run := by
  obtain ⟨hrunning, hrun⟩ := h
  rw [hpoller] at hrunning hrun
  have hsame : c.poller.run = run := Nat.le_antisymm (hrun ▸ hbecomes.run_le) hle
  exact ⟨hbecomes.running (hrun.trans hsame.symm) hrunning, hsame⟩

theorem ticker_act_of_goesOn {action : Action α σ} {m : Move α σ} (hmove : action.move? = some m)
    (h : c.GoesOn run) (h' : (c.act b action).GoesOn run) :
    (c.act b action).ticker = c.ticker := by
  cases action with
  | start interval plan =>
    have hrun : (c.start interval plan).poller.run = c.poller.run := h'.2.trans h.2.symm
    show (c.start interval plan).ticker = c.ticker
    unfold start at hrun ⊢
    split at hrun
    next hclosed => rw [if_pos hclosed]
    next hopen => exact absurd hrun (Poller.run_lt_start hopen).ne'
  | advance millis => cases hmove
  | _ => rfl

def Action.isAdvance : Action α σ → Bool
  | .advance _ => true
  | _ => false

/-- Between two clocks a run keeps its pace.  When time has been advanced, the next tick is still to
come, and before that there is none. -/
structure Continues (start period run n count : Nat) (advanced : Bool) (c : Clock α σ)
    (os : List (Occurrence α σ)) (c' : Clock α σ) : Prop where
  pace : KeepsPace start period run n count os
  awaits : c'.AwaitsTick start period run (n + count)
  ahead : c.now < start + n * period ∨ advanced = true → c'.now < start + (n + count) * period
  still : advanced = false → count = 0

theorem Continues.append {c'' : Clock α σ} {os' : List (Occurrence α σ)} {advanced advanced' : Bool}
    (h : Continues start period run n count advanced c os c')
    (h' : Continues start period run (n + count) count' advanced' c' os' c'') :
    Continues start period run n (count + count') (advanced || advanced') c (os ++ os') c'' where
  pace := h.pace.append h'.pace
  awaits := Nat.add_assoc n count count' ▸ h'.awaits
  ahead hahead := by
    rw [← Nat.add_assoc]
    apply h'.ahead
    rw [Bool.or_eq_true, ← or_assoc] at hahead
    exact hahead.imp_left h.ahead
  still hnone := by
    rw [Bool.or_eq_false_iff] at hnone
    rw [h.still hnone.1, h'.still hnone.2]

theorem AwaitsTick.act (h : c.AwaitsTick start period run n) (hontime : c.OnTime c.now)
    (hgo : c.GoesOn run) {action : Action α σ} (hgo' : (c.act b action).GoesOn run) :
    ∃ count, Continues start period run n count action.isAdvance c (c.episode b action)
      (c.act b action) := by
  cases hmove : action.move? with
  | some m =>
    have htick : m.isTick = false := by cases action <;> cases hmove <;> rfl
    have hadvance : action.isAdvance = false := by cases action <;> first | rfl | cases hmove
    refine ⟨0, ?_, ?_, ?_, fun _ => rfl⟩
    · rw [episode_of_move? b c hmove]
      exact .of_isIdle htick (c.isIdle_moving c.now htick)
    · rw [AwaitsTick, ticker_act_of_goesOn hmove hgo hgo']
      exact h
    · rw [(act_of_move? b c hmove).2.2.1, hadvance]
      exact fun hahead => hahead.resolve_right Bool.false_ne_true
  | none =>
    cases action with
    | advance millis =>
      obtain ⟨count, hpace, hnext⟩ := h.passes
        (passes_occurrences b (c.now + millis) (c.stepBound (c.now + millis)) c)
      refine ⟨count, hpace, hnext, fun _ => ?_, fun hfalse => nomatch hfalse⟩
      obtain ⟨t, hticker, hrun, -, ht⟩ := hnext
      rw [← ht]
      refine (hontime.advance b millis).2 t (liveTicker?_eq_some.2 ⟨hticker, hgo'.1, ?_⟩)
      exact hrun.trans hgo'.2.symm
    | _ => cases hmove

theorem AwaitsTick.acts (h : c.AwaitsTick start period run n) (hontime : c.OnTime c.now)
    (hle : run ≤ c.poller.run) {actions : List (Action α σ)} (hgo : (c.run b actions).GoesOn run) :
    ∃ count, Continues start period run n count (actions.any Action.isAdvance) c
      (c.timeline b actions) (c.run b actions) := by
  induction actions generalizing c n with
  | nil =>
    exact ⟨0, .nil, h, fun hahead => hahead.resolve_right Bool.false_ne_true, fun _ => rfl⟩
  | cons action actions ih =>
    obtain ⟨hontime', hfirst⟩ := hontime.act b action
    have hrest := (hontime'.run b actions).2
    have hbecomes := hfirst.leads.becomes hfirst.becomes
    have hle' : run ≤ (c.act b action).poller.run := hle.trans hbecomes.run_le
    have hgo' : (c.act b action).GoesOn run :=
      GoesOn.of_becomes (hrest.leads.becomes hrest.becomes) rfl hle' hgo
    have hgo₀ : c.GoesOn run := GoesOn.of_becomes hbecomes rfl hle hgo'
    obtain ⟨count, hcontinues⟩ := h.act hontime hgo₀ hgo'
    obtain ⟨count', hcontinues'⟩ := ih hcontinues.awaits hontime' hle' hgo
    exact ⟨count + count', hcontinues.append hcontinues'⟩

theorem eq_div_add_one {d : Nat} (hlt : d < count * period) (hle : ∀ k < count, k * period ≤ d) :
    count = d / period + 1 := by
  cases count with
  | zero => omega
  | succ k => rw [Nat.div_eq_of_lt_le (hle k (Nat.lt_succ_self k)) hlt]

theorem KeepsPace.stats_eq {time time' : Nat} (h : KeepsPace start period run n count os)
    (hrecounts : Recounts time time' c os c') :
    c'.poller.stats.issued + c'.poller.stats.skipped =
      c.poller.stats.issued + c.poller.stats.skipped + count := by
  have hbecomes := hrecounts.leads.becomes hrecounts.becomes
  have hissued : c'.poller.stats.issued =
      c.poller.stats.issued + (issues (os.flatMap Occurrence.events)).length :=
    hbecomes.issued
  have hskipped : c'.poller.stats.skipped =
      c.poller.stats.skipped + (skips (os.flatMap Occurrence.events)).length :=
    hbecomes.skipped
  have hcount := h.count_eq
  omega

theorem KeepsPace.time_mem (h : KeepsPace start period run 0 count os) {k : Nat} (hk : k < count) :
    ∃ o ∈ os, o.time = start + k * period := by
  have htime : start + k * period ∈ (os.filter Occurrence.isTick).map Occurrence.time := by
    rw [h.times_eq]
    exact List.mem_map_of_mem (List.mem_range'_1.2 ⟨Nat.zero_le k, by rwa [Nat.zero_add]⟩)
  obtain ⟨o, ho, htime⟩ := List.mem_map.1 htime
  exact ⟨o, (List.mem_filter.1 ho).1, htime⟩

theorem Continues.count_eq {advanced : Bool}
    (h : Continues start period run 0 count advanced c os c')
    (hrecounts : Recounts start c'.now c os c') :
    count = if advanced = true then (c'.now - start) / period + 1 else 0 := by
  cases advanced with
  | false => exact (h.still rfl).trans (if_neg Bool.false_ne_true).symm
  | true =>
    have hahead := h.ahead (Or.inr rfl)
    rw [Nat.zero_add] at hahead
    have hle := hrecounts.le
    rw [if_pos rfl]
    apply eq_div_add_one
    · omega
    · intro k hk
      obtain ⟨o, ho, htime⟩ := h.pace.time_mem hk
      have hpassed := (hrecounts.bounds o ho).2
      omega

end

/-! ## The main statement -/

theorem awaitsTick_start {c : Clock α σ} (hopen : c.poller.closed = false) (interval : Nat)
    (plan : Nat → FetchPlan α) :
    (c.start interval plan).AwaitsTick (c.start interval plan).now (max interval 1)
      (c.start interval plan).poller.run 0 := by
  refine ⟨{ run := c.poller.start.run, next := c.now, period := max interval 1, plan }, ?_, ?_, rfl,
    ?_⟩
  · simp [start, hopen]
  · simp [start, hopen]
  · simp [start, hopen]

/-- Whatever a poller has been through before a start, and whatever is done to it afterwards: as
long as the run goes on, its ticks are at its start and after each period, as many as fit into the
time that has passed.  Each issues a fetch or is skipped, as fetching is switched on or paused at
that moment, nothing else does so, and the counters have grown by one for each. -/
theorem fetches_keep_cadence (policy : Policy) (b : Behaviour α σ)
    (before after : List (Action α σ)) (interval : Nat) (plan : Nat → FetchPlan α)
    (hopen : ((fresh policy).run b before).poller.closed = false)
    (hgo : ((((fresh policy).run b before).start interval plan).run b after).GoesOn
      (((fresh policy).run b before).start interval plan).poller.run) :
    let started := ((fresh policy).run b before).start interval plan
    let ended := started.run b after
    let period := max interval 1
    let count :=
      if after.any Action.isAdvance = true then (ended.now - started.now) / period + 1 else 0
    let timeline := started.timeline b after
    Recounts started.now ended.now started timeline ended ∧
      (timeline.filter Occurrence.isTick).map Occurrence.time =
        (List.range count).map (fun k => started.now + k * period) ∧
      (∀ o ∈ timeline,
        if o.isTick = true then o.IsTickOf started.poller.run else o.IsIdle) ∧
      ended.poller.stats.issued + ended.poller.stats.skipped =
        started.poller.stats.issued + started.poller.stats.skipped + count := by
  intro started ended period count timeline
  have hontime : started.OnTime started.now :=
    (((onTime_fresh policy).run b before).1.act b (.start interval plan)).1
  have hawaits : started.AwaitsTick started.now period started.poller.run 0 :=
    awaitsTick_start hopen interval plan
  obtain ⟨m, hcontinues⟩ := hawaits.acts hontime (Nat.le_refl _) hgo
  have hrecounts : Recounts started.now ended.now started timeline ended :=
    (hontime.run b after).2
  obtain rfl : m = count := hcontinues.count_eq hrecounts
  refine ⟨hrecounts, ?_, hcontinues.pace.regular, hcontinues.pace.stats_eq hrecounts⟩
  rw [List.range_eq_range']
  exact hcontinues.pace.times_eq

/-- Fetching is paused after the first tick and resumed after the third.  The fetch that follows
waits for the fourth tick. -/
theorem fetches_keep_cadence_through_pause :
    let b : Behaviour Nat Unit := ⟨fun observer _ => ⟨false, observer, []⟩⟩
    let plan : Nat → FetchPlan Nat := fun seq => some (12, .success seq)
    let after : List (Action Nat Unit) :=
      [.advance 0, .setShouldFetch false, .advance 25, .setShouldFetch true, .advance 5]
    let started := ((fresh {}).run b []).start 10 plan
    let ended := started.run b after
    (((fresh {} : Clock Nat Unit).run b []).poller.closed = false ∧
      ended.GoesOn started.poller.run) ∧
    ((started.timeline b after).filter Occurrence.isTick).map Occurrence.time = [0, 10, 20, 30] ∧
    ended.poller.stats = ⟨2, 1, 0, 2⟩ ∧
    ended.poller.stats.issued + ended.poller.stats.skipped = 0 + 4 := by
  intro b plan after started ended
  have hopen : ((fresh {} : Clock Nat Unit).run b []).poller.closed = false := rfl
  have hgo : ended.GoesOn started.poller.run := ⟨by decide, by decide⟩
  have hnow : ended.now - started.now = 30 := by decide
  have hstats : ended.poller.stats = ⟨2, 1, 0, 2⟩ := by decide
  obtain ⟨-, htimes, -, hcount⟩ := fetches_keep_cadence {} b [] after 10 plan hopen hgo
  refine ⟨⟨hopen, hgo⟩, ?_, hstats, ?_⟩
  · rw [htimes, hnow]
    decide
  · rw [hcount, hnow]
    decide

end Clock

end PoolWatch
