import PoolWatch.Poller.Clock
import PoolWatch.Proofs.Poller.Settlement
/-!
# Pollers in time

While time passes, fetches land and runs tick, and nothing else happens to a poller.  What falls due
first is what no fetch and no live ticker is ahead of.  The log grows by what is new.  The results
that are applied are those that the plan of the run has for the fetches, whatever else is done to
the poller.
-/

namespace PoolWatch

variable {α σ : Type}

/-! ## What happens -/

/-- Something that happens to a poller. -/
structure Occurrence (α σ : Type) where
  time : Nat
  isTick : Bool
  before : Poller α σ
  after : Poller α σ
  events : List (Event α σ)

def Move.isTick : Move α σ → Bool
  | .tick _ => true
  | _ => false

namespace Clock

def landing (b : Behaviour α σ) (c : Clock α σ) (f : Flight α) : Occurrence α σ :=
  let (after, events) := c.poller.complete b f.run f.seq f.result
  { time := f.due, isTick := false, before := c.poller, after, events }

def moving (c : Clock α σ) (time : Nat) (m : Move α σ) : Occurrence α σ :=
  let (after, events) := c.poller.move m
  { time, isTick := m.isTick, before := c.poller, after, events }

/-- What falls due first up to a time, and the clock after it. -/
def occur? (b : Behaviour α σ) (limit : Nat) (c : Clock α σ) :
    Option (Occurrence α σ × Clock α σ) :=
  let flight := (earliest? c.flights).filter fun f => f.1.due ≤ limit
  let ticker := c.liveTicker?.filter fun t => t.next ≤ limit
  match flight, ticker with
  | none, none => none
  | some (f, others), none => some (c.landing b f, c.land b f others)
  | none, some t => some (c.moving t.next (.tick t.run), c.fire t)
  | some (f, others), some t =>
    some (if f.due ≤ t.next then (c.landing b f, c.land b f others)
      else (c.moving t.next (.tick t.run), c.fire t))

/-- All that falls due up to a time, in at most `fuel` steps. -/
def occurrences (b : Behaviour α σ) (limit : Nat) :
    (fuel : Nat) → Clock α σ → List (Occurrence α σ)
  | 0, _ => []
  | fuel + 1, c =>
    match c.occur? b limit with
    | none => []
    | some (o, c) => o :: occurrences b limit fuel c

/-! ## What can fall due -/

theorem liveTicker?_eq_some {c : Clock α σ} {t : Ticker α} :
    c.liveTicker? = some t ↔
      c.ticker = some t ∧ c.poller.running = true ∧ t.run = c.poller.run := by
  simp [liveTicker?, Option.filter_eq_some_iff]

theorem earliest?_eq_none_iff {flights : List (Flight α)} :
    earliest? flights = none ↔ flights = [] := by
  cases flights with
  | nil => exact iff_of_true rfl rfl
  | cons f rest =>
    refine iff_of_false ?_ (List.cons_ne_nil f rest)
    rw [earliest?]
    split
    · exact Option.some_ne_none _
    · split <;> exact Option.some_ne_none _

theorem earliest?_perm {flights others : List (Flight α)} {f : Flight α}
    (h : earliest? flights = some (f, others)) : flights.Perm (f :: others) := by
  induction flights generalizing f others with
  | nil => cases h
  | cons g rest ih =>
    rw [earliest?] at h
    cases hrest : earliest? rest with
    | none =>
      rw [hrest] at h
      cases h
      rw [earliest?_eq_none_iff.1 hrest]
    | some found =>
      obtain ⟨g', others'⟩ := found
      rw [hrest] at h
      dsimp only at h
      split at h
      · cases h
        exact ((ih hrest).cons g).trans (.swap _ _ _)
      · cases h
        exact .refl _

theorem le_of_earliest? {flights others : List (Flight α)} {f : Flight α}
    (h : earliest? flights = some (f, others)) : ∀ g ∈ flights, f.due ≤ g.due := by
  induction flights generalizing f others with
  | nil => cases h
  | cons g rest ih =>
    rw [earliest?] at h
    cases hrest : earliest? rest with
    | none =>
      rw [hrest] at h
      cases h
      rw [earliest?_eq_none_iff.1 hrest]
      exact List.forall_mem_singleton.2 (Nat.le_refl _)
    | some found =>
      obtain ⟨g', others'⟩ := found
      have hleast := ih hrest
      rw [hrest] at h
      dsimp only at h
      split at h
      next hlt =>
        cases h
        exact List.forall_mem_cons.2 ⟨hlt.le, hleast⟩
      next hle =>
        cases h
        rw [Nat.not_lt] at hle
        exact List.forall_mem_cons.2 ⟨Nat.le_refl _, fun g hg => hle.trans (hleast g hg)⟩

theorem lt_due_of_filter_earliest? {flights : List (Flight α)} {limit : Nat}
    (h : (earliest? flights).filter (fun f => f.1.due ≤ limit) = none) :
    ∀ f ∈ flights, limit < f.due := by
  cases hearliest : earliest? flights with
  | none =>
    rw [earliest?_eq_none_iff.1 hearliest]
    exact List.forall_mem_nil _
  | some found =>
    have hlater := Option.filter_eq_none_iff.1 h found hearliest
    rw [decide_eq_true_eq, Nat.not_le] at hlater
    exact fun f hf => hlater.trans_le (le_of_earliest? hearliest f hf)

/-- What falls due first up to a time is the landing of the fetch, or the tick, than which nothing
is due earlier. -/
inductive Occurs (b : Behaviour α σ) (limit : Nat) (c : Clock α σ) :
    Occurrence α σ → Clock α σ → Prop where
  | land (f : Flight α) (others : List (Flight α))
      (hearliest : earliest? c.flights = some (f, others)) (hdue : f.due ≤ limit)
      (hfirst : ∀ t, c.liveTicker? = some t → f.due ≤ t.next) :
      Occurs b limit c (c.landing b f) (c.land b f others)
  | tick (t : Ticker α) (hlive : c.liveTicker? = some t) (hdue : t.next ≤ limit)
      (hfirst : ∀ f ∈ c.flights, t.next ≤ f.due) :
      Occurs b limit c (c.moving t.next (.tick t.run)) (c.fire t)

section

variable {b : Behaviour α σ} {limit : Nat} {c c' : Clock α σ} {o : Occurrence α σ}

theorem map_occur? (b : Behaviour α σ) (limit : Nat) (c : Clock α σ) :
    (c.occur? b limit).map Prod.snd = c.step? b limit := by
  unfold occur? step?
  dsimp only
  generalize (earliest? c.flights).filter _ = flight
  generalize c.liveTicker?.filter _ = ticker
  cases flight with
  | none => cases ticker <;> rfl
  | some flight =>
    cases ticker with
    | none => rfl
    | some ticker => exact congrArg some (apply_ite Prod.snd _ _ _)

theorem Occurs.of_occur? (h : c.occur? b limit = some (o, c')) : Occurs b limit c o c' := by
  unfold occur? at h
  dsimp only at h
  split at h
  next => cases h
  next f others hflight hticker =>
    cases h
    obtain ⟨hearliest, hdue⟩ := Option.filter_eq_some_iff.1 hflight
    rw [decide_eq_true_eq] at hdue
    refine .land f others hearliest hdue fun t ht => ?_
    have hlater := Option.filter_eq_none_iff.1 hticker t ht
    rw [decide_eq_true_eq, Nat.not_le] at hlater
    exact hdue.trans hlater.le
  next t hflight hticker =>
    cases h
    obtain ⟨hlive, hdue⟩ := Option.filter_eq_some_iff.1 hticker
    rw [decide_eq_true_eq] at hdue
    exact .tick t hlive hdue fun f hf => hdue.trans (lt_due_of_filter_earliest? hflight f hf).le
  next f others t hflight hticker =>
    obtain ⟨hearliest, hland⟩ := Option.filter_eq_some_iff.1 hflight
    obtain ⟨hlive, htick⟩ := Option.filter_eq_some_iff.1 hticker
    rw [decide_eq_true_eq] at hland htick
    rw [Option.some_inj] at h
    split at h
    next hle =>
      cases h
      refine .land f others hearliest hland fun t' ht' => ?_
      rw [hlive] at ht'
      cases ht'
      exact hle
    next hlt =>
      cases h
      rw [Nat.not_le] at hlt
      exact .tick t hlive htick fun g hg => hlt.le.trans (le_of_earliest? hearliest g hg)

theorem later_of_occur?_eq_none (h : c.occur? b limit = none) :
    (∀ f ∈ c.flights, limit < f.due) ∧ ∀ t, c.liveTicker? = some t → limit < t.next := by
  unfold occur? at h
  dsimp only at h
  split at h
  next hflight hticker =>
    refine ⟨lt_due_of_filter_earliest? hflight, fun t ht => ?_⟩
    have hlater := Option.filter_eq_none_iff.1 hticker t ht
    rwa [decide_eq_true_eq, Nat.not_le] at hlater
  all_goals cases h

end

/-! ## While time passes -/

/-- Occurrences one after the other, each of them due up to a time. -/
inductive Passes (b : Behaviour α σ) (limit : Nat) :
    Clock α σ → List (Occurrence α σ) → Clock α σ → Prop where
  | refl (c : Clock α σ) : Passes b limit c [] c
  | step {c c' c'' : Clock α σ} {o : Occurrence α σ} {os : List (Occurrence α σ)}
      (hoccurs : Occurs b limit c o c') (hrest : Passes b limit c' os c'') :
      Passes b limit c (o :: os) c''

theorem passes_occurrences (b : Behaviour α σ) (limit fuel : Nat) (c : Clock α σ) :
    Passes b limit c (c.occurrences b limit fuel) (c.runUntil b limit fuel) := by
  induction fuel generalizing c with
  | zero => exact .refl c
  | succ fuel ih =>
    rw [occurrences, runUntil, ← map_occur?]
    cases hoccur : c.occur? b limit with
    | none => exact .refl c
    | some next => exact .step (.of_occur? hoccur) (ih next.2)

theorem advance_keeps {P : Clock α σ → Prop} (b : Behaviour α σ)
    (hfire : ∀ c t, c.ticker = some t → P c → P (c.fire t))
    (hland : ∀ c f others, earliest? c.flights = some (f, others) → P c → P (c.land b f others))
    (hwait : ∀ (c : Clock α σ) now, P c → P { c with now }) {c : Clock α σ} (h : P c)
    (millis : Nat) : P (c.advance b millis) := by
  have hkeeps : ∀ {limit} {c c' : Clock α σ} {os}, Passes b limit c os c' → P c → P c' := by
    intro limit c c' os hpasses
    induction hpasses with
    | refl => exact id
    | step hoccurs _ ih =>
      intro hc
      cases hoccurs with
      | land f others hearliest => exact ih (hland _ f others hearliest hc)
      | tick t hlive => exact ih (hfire _ t (liveTicker?_eq_some.1 hlive).1 hc)
  exact hwait _ _ (hkeeps (passes_occurrences b _ _ c) h)

/-! ## Ticks and landings -/

theorem poller_fire (c : Clock α σ) (t : Ticker α) :
    (c.fire t).poller = (c.poller.move (.tick t.run)).1 := by
  unfold fire
  dsimp only
  split <;> rfl

theorem log_fire (c : Clock α σ) (t : Ticker α) :
    (c.fire t).log = (c.poller.move (.tick t.run)).2.reverse ++ c.log := by
  unfold fire
  dsimp only
  split <;> rfl

theorem fire_cases (c : Clock α σ) (t : Ticker α) :
    ((c.fire t).poller.nextSeq = c.poller.nextSeq + 1 ∧
        (c.fire t).ticker = some { t with next := t.next + t.period, issued := t.issued + 1 } ∧
        (c.fire t).flights = c.flights ++ (t.plan t.issued).toList.map fun (after, result) =>
          ⟨t.run, c.poller.nextSeq, t.next + after, result⟩) ∨
      ((c.fire t).poller.nextSeq = c.poller.nextSeq ∧
        (c.fire t).ticker = some { t with next := t.next + t.period } ∧
        (c.fire t).flights = c.flights) := by
  unfold fire Poller.tick
  by_cases hlive : c.poller.running = true ∧ c.poller.run = t.run
  · by_cases hfetch : c.poller.shouldFetch = true
    · left
      rw [if_pos hlive, if_pos hfetch]
      cases hplan : t.plan t.issued <;> exact ⟨rfl, rfl, by simp [become]⟩
    · right
      rw [if_pos hlive, if_neg hfetch]
      exact ⟨rfl, rfl, rfl⟩
  · right
    rw [if_neg hlive]
    exact ⟨rfl, rfl, rfl⟩

/-! ## The log grows -/

theorem suffix_become (c : Clock α σ) (next : Poller α σ × List (Event α σ)) :
    c.log <:+ (c.become next).log :=
  List.suffix_append _ _

theorem suffix_advance (b : Behaviour α σ) (c : Clock α σ) (millis : Nat) :
    c.log <:+ (c.advance b millis).log := by
  refine advance_keeps (P := fun d => c.log <:+ d.log) b ?_ ?_ ?_ List.suffix_rfl millis
  · intro d t _ h
    rw [log_fire]
    exact h.trans (List.suffix_append _ _)
  · intro d f others _ h
    exact h.trans (suffix_become d _)
  · exact fun d now h => h

end Clock

/-! ## Numbers of fetches -/

namespace Poller

theorem nextSeq_subscribe (p : Poller α σ) (role : Role α σ) :
    (p.subscribe role).1.nextSeq = p.nextSeq := by
  rw [(p.isAdjustment_subscribe role).poller_eq]

theorem nextSeq_stop (p : Poller α σ) : p.stop.nextSeq = p.nextSeq := by
  unfold stop
  split <;> rfl

theorem nextSeq_drop (p : Poller α σ) : p.drop.1.nextSeq = p.nextSeq := by
  rw [p.isAdjustment_drop.poller_eq]
  exact p.nextSeq_stop

theorem nextSeq_obeyAll (p : Poller α σ) (commands : List (Command α σ)) :
    (p.obeyAll commands).1.nextSeq = p.nextSeq := by
  induction commands generalizing p with
  | nil => rfl
  | cons command commands ih =>
    have hobey : (p.obey command).1.nextSeq = p.nextSeq := by
      cases command with
      | observe observer => exact p.nextSeq_subscribe _
      | waitFor accepts => exact p.nextSeq_subscribe _
      | setShouldFetch enabled => rfl
      | stop => exact p.nextSeq_stop
      | drop => exact p.nextSeq_drop
    exact (ih _).trans hobey

theorem nextSeq_notify (b : Behaviour α σ) (p : Poller α σ) (result : Outcome α)
    (taken : List (Subscription α σ)) : (p.notify b result taken).1.nextSeq = p.nextSeq := by
  induction taken generalizing p with
  | nil => rfl
  | cons s rest ih =>
    have hcall : (p.call b result s).1.nextSeq = p.nextSeq := by
      unfold call
      split
      · rfl
      · split
        · rfl
        · split <;> rfl
      · exact p.nextSeq_obeyAll _
    exact (ih _).trans hcall

theorem nextSeq_complete (b : Behaviour α σ) (p : Poller α σ) (run seq : Nat)
    (result : Outcome α) : (p.complete b run seq result).1.nextSeq = p.nextSeq := by
  cases hstale : p.isStale run seq with
  | true =>
    rw [complete_of_isStale b hstale]
    rfl
  | false =>
    rw [complete_of_fresh b hstale]
    dsimp only
    rw [(isAdjustment_putBack _ _).poller_eq]
    exact nextSeq_notify b _ result p.subscribers

theorem applications_complete (b : Behaviour α σ) (p : Poller α σ) (run seq : Nat)
    (result : Outcome α) :
    applications (p.complete b run seq result).2 =
      if p.isStale run seq then [] else [(⟨run, seq⟩, result)] := by
  cases hstale : p.isStale run seq with
  | true =>
    rw [complete_of_isStale b hstale]
    rfl
  | false =>
    obtain ⟨told, htold, h⟩ := applies_complete b hstale result
    rw [htold, ← List.singleton_append, applications_append, applications_singleton,
      applications_of_isQuiet h.isQuiet]
    rfl

end Poller

/-! ## Plans -/

/-- The plan of the only run so far decides what becomes of the fetches: of those that the ticker is
to issue, of those under way, and of those whose results were applied. -/
structure Clock.FollowsPlan (plan : Nat → FetchPlan α) (c : Clock α σ) : Prop where
  ticker : ∀ t, c.ticker = some t → t.plan = plan ∧ t.issued = c.poller.nextSeq
  flights : ∀ f ∈ c.flights, ∃ after, plan f.seq = some (after, f.result)
  applied : ∀ fetch result, (fetch, result) ∈ applications c.log →
    ∃ after, plan fetch.seq = some (after, result)

namespace Clock.FollowsPlan

variable {plan : Nat → FetchPlan α} {c : Clock α σ}

theorem become (h : c.FollowsPlan plan) {next : Poller α σ × List (Event α σ)}
    (hseq : next.1.nextSeq = c.poller.nextSeq) (hmute : ∀ e ∈ next.2, e.IsMute) :
    (c.become next).FollowsPlan plan where
  ticker t ht := by
    obtain ⟨hplan, hissued⟩ := h.ticker t ht
    exact ⟨hplan, hissued.trans hseq.symm⟩
  flights := h.flights
  applied fetch result happlied := by
    have hnone : applications next.2.reverse = [] :=
      applications_of_isMute fun e he => hmute e (List.mem_reverse.1 he)
    rw [Clock.become, applications_append, hnone, List.nil_append] at happlied
    exact h.applied fetch result happlied

theorem fire (h : c.FollowsPlan plan) {t : Ticker α} (ht : c.ticker = some t) :
    (c.fire t).FollowsPlan plan := by
  obtain ⟨hplan, hissued⟩ := h.ticker t ht
  have happlied : ∀ fetch result, (fetch, result) ∈ applications (c.fire t).log →
      ∃ after, plan fetch.seq = some (after, result) := by
    intro fetch result hmem
    have hnone : applications (c.poller.move (.tick t.run)).2.reverse = [] :=
      applications_of_isMute fun e he =>
        c.poller.isMute_move (.tick t.run) e (List.mem_reverse.1 he)
    rw [log_fire, applications_append, hnone, List.nil_append] at hmem
    exact h.applied fetch result hmem
  rcases c.fire_cases t with ⟨hseq, hticker, hflights⟩ | ⟨hseq, hticker, hflights⟩
  · refine ⟨?_, ?_, happlied⟩
    · intro t' ht'
      rw [hticker] at ht'
      cases ht'
      exact ⟨hplan, by rw [hseq, hissued]⟩
    · intro f hf
      rw [hflights, List.mem_append] at hf
      rcases hf with hf | hf
      · exact h.flights f hf
      · rw [hplan, hissued, List.mem_map] at hf
        obtain ⟨⟨after, result⟩, hentry, rfl⟩ := hf
        exact ⟨after, Option.mem_toList.1 hentry⟩
  · refine ⟨?_, ?_, happlied⟩
    · intro t' ht'
      rw [hticker] at ht'
      cases ht'
      exact ⟨hplan, by rw [hseq, hissued]⟩
    · rw [hflights]
      exact h.flights

theorem land (h : c.FollowsPlan plan) (b : Behaviour α σ) {f : Flight α}
    {others : List (Flight α)} (hearliest : earliest? c.flights = some (f, others)) :
    (c.land b f others).FollowsPlan plan where
  ticker t ht := by
    obtain ⟨hplan, hissued⟩ := h.ticker t ht
    exact ⟨hplan, hissued.trans (c.poller.nextSeq_complete b f.run f.seq f.result).symm⟩
  flights g hg :=
    h.flights g ((earliest?_perm hearliest).mem_iff.2 (List.mem_cons_of_mem f hg))
  applied fetch result happlied := by
    have hplanned := h.flights f ((earliest?_perm hearliest).mem_iff.2 List.mem_cons_self)
    have hlog : applications (c.land b f others).log =
        (applications (c.poller.complete b f.run f.seq f.result).2).reverse ++
          applications c.log := by
      rw [Clock.land, Clock.become, applications_append, applications, List.filterMap_reverse]
      rfl
    rw [hlog, Poller.applications_complete, List.mem_append] at happlied
    rcases happlied with happlied | happlied
    · split at happlied
      · cases happlied
      · cases List.mem_singleton.1 happlied
        exact hplanned
    · exact h.applied fetch result happlied

theorem advance (h : c.FollowsPlan plan) (b : Behaviour α σ) (millis : Nat) :
    (c.advance b millis).FollowsPlan plan := by
  refine advance_keeps b ?_ ?_ ?_ h millis
  · exact fun d t ht hd => hd.fire ht
  · exact fun d f others hearliest hd => hd.land b hearliest
  · exact fun d now hd => ⟨hd.ticker, hd.flights, hd.applied⟩

end Clock.FollowsPlan

end PoolWatch
