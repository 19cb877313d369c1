import PoolWatch.Proofs.Poller.Moves
import Mathlib.Data.List.Perm.Basic
import Mathlib.Data.List.Range
import Mathlib.Logic.Relation
/-!
# Courses of pollers

Several threads share a poller, and each touches it only in pieces of work that nothing
interrupts: the moves from outside, the landing of a fetch, and the return of the subscribers
that a notification kept.  What happens between those pieces, the calls of subscribers among it,
shows in the poller only through the pieces themselves.  A course is what comes of any list of
them, whoever does them and in whatever order, so the completions of several fetches may be under
way at once.  A completion that nothing interrupts, with all its calls, is a piece as well.

A fetch lands once: it is in flight from its issue until then.
-/

namespace PoolWatch

variable {α σ : Type}

/-- A piece of work on a poller that nothing interrupts. -/
inductive Piece (α σ : Type) where
  | move (move : Move α σ)
  | land (fetch : Issue) (result : Outcome α)
  | putBack (kept : List (Subscription α σ))
  | complete (b : Behaviour α σ) (fetch : Issue) (result : Outcome α)

/-- A poller with its fetches in flight and everything that happened. -/
structure Course (α σ : Type) where
  poller : Poller α σ := {}
  flights : List Issue := []
  log : List (Event α σ) := []

namespace Course

def fresh (policy : Policy) : Course α σ := { poller := { policy } }

def land (c : Course α σ) (fetch : Issue) (result : Outcome α) : Course α σ :=
  match c.poller.accept? fetch.run fetch.seq result with
  | none =>
    { poller := c.poller.discard
      flights := c.flights.erase fetch
      log := c.log ++ [.discarded fetch.run fetch.seq result] }
  | some (p, _) =>
    { poller := p
      flights := c.flights.erase fetch
      log := c.log ++ [.applied fetch.run fetch.seq result] }

def become (c : Course α σ) (next : Poller α σ × List (Event α σ)) : Course α σ :=
  { poller := next.1, flights := c.flights ++ issues next.2, log := c.log ++ next.2 }

/-- What comes of a piece of work.  Only a fetch in flight can land. -/
def step (c : Course α σ) : Piece α σ → Course α σ
  | .move m => c.become (c.poller.move m)
  | .land fetch result => if fetch ∈ c.flights then c.land fetch result else c
  | .putBack kept => c.become (c.poller.putBack kept)
  | .complete b fetch result =>
    if fetch ∈ c.flights then
      { c with flights := c.flights.erase fetch }.become
        (c.poller.complete b fetch.run fetch.seq result)
    else c

def run (c : Course α σ) (pieces : List (Piece α σ)) : Course α σ := pieces.foldl step c

theorem run_append (c : Course α σ) (a b : List (Piece α σ)) :
    c.run (a ++ b) = (c.run a).run b :=
  List.foldl_append

/-! ## What can happen -/

/-- The changes that pieces of work consist of.  A start is a halt, if there is a run, and then
the beginning of another run; a drop is a halt and an adjustment. -/
inductive Change (c : Course α σ) : Course α σ → Prop where
  | adjust (shouldFetch closed : Bool) (subscribers : List (Subscription α σ)) (nextTicket : Nat)
      (events : List (Event α σ)) (hclosed : c.poller.running = true → closed = c.poller.closed)
      (hquiet : ∀ e ∈ events, e.IsQuiet) :
      Change c
        { c with
          poller := { c.poller with shouldFetch, closed, subscribers, nextTicket }
          log := c.log ++ events }
  | halt (hrunning : c.poller.running = true) :
      Change c
        { c with poller := { c.poller with running := false, run := c.poller.run + 1 } }
  | begin (hidle : c.poller.running = false) (hopen : c.poller.closed = false) :
      Change c
        { c with poller := { c.poller with running := true, run := c.poller.run + 1 } }
  | issue (hrunning : c.poller.running = true) :
      Change c
        { poller :=
            { c.poller with
              nextSeq := c.poller.nextSeq + 1
              current := if c.poller.policy.refresh = .resetToLoading then .loading
                else c.poller.current
              stats := { c.poller.stats with issued := c.poller.stats.issued + 1 } }
          flights := c.flights ++ [⟨c.poller.run, c.poller.nextSeq⟩]
          log := c.log ++ [.issued c.poller.run c.poller.nextSeq] }
  | skip (hrunning : c.poller.running = true) :
      Change c
        { c with
          poller :=
            { c.poller with
              stats := { c.poller.stats with skipped := c.poller.stats.skipped + 1 } }
          log := c.log ++ [.skipped c.poller.run] }
  | apply (fetch : Issue) (result : Outcome α) (hflight : fetch ∈ c.flights)
      (hfresh : c.poller.isStale fetch.run fetch.seq = false) :
      Change c
        { poller :=
            { c.poller with
              appliedSeq := some fetch.seq
              current := result.shown
              subscribers := []
              stats := { c.poller.stats with completed := c.poller.stats.completed + 1 } }
          flights := c.flights.erase fetch
          log := c.log ++ [.applied fetch.run fetch.seq result] }
  | discard (fetch : Issue) (result : Outcome α) (hflight : fetch ∈ c.flights)
      (hstale : c.poller.isStale fetch.run fetch.seq = true) :
      Change c
        { poller :=
            { c.poller with
              stats := { c.poller.stats with discarded := c.poller.stats.discarded + 1 } }
          flights := c.flights.erase fetch
          log := c.log ++ [.discarded fetch.run fetch.seq result] }

abbrev Changes : Course α σ → Course α σ → Prop := Relation.ReflTransGen Change

theorem changes_of_isAdjustment {c : Course α σ} {next : Poller α σ × List (Event α σ)}
    (h : IsAdjustment c.poller next) : Changes c (c.become next) := by
  unfold become
  rw [issues_of_isQuiet h.isQuiet, List.append_nil, h.poller_eq]
  exact .single (.adjust _ _ _ _ _ h.closed_eq h.isQuiet)

theorem changes_stop (c : Course α σ) : Changes c { c with poller := c.poller.stop } := by
  unfold Poller.stop
  split
  · next hrunning => exact .single (.halt hrunning)
  · exact .refl

theorem changes_start (c : Course α σ) : Changes c { c with poller := c.poller.start } := by
  unfold Poller.start
  split
  · exact .refl
  · next hopen =>
    refine (changes_stop c).tail (.begin c.poller.running_stop ?_)
    simpa [Poller.closed_stop] using hopen

theorem changes_tick (c : Course α σ) (run : Nat) : Changes c (c.step (.move (.tick run))) := by
  by_cases h : c.poller.running = true ∧ c.poller.run = run
  · obtain ⟨hrunning, rfl⟩ := h
    by_cases hfetch : c.poller.shouldFetch = true
    · simp only [step, become, Poller.move, Poller.tick_of_shouldFetch hrunning hfetch]
      exact .single (.issue hrunning)
    · rw [Bool.not_eq_true] at hfetch
      simp only [step, become, Poller.move, Poller.tick_of_not_shouldFetch hrunning hfetch]
      convert Relation.ReflTransGen.single (Change.skip hrunning)
      simp
  · simpa [step, become, Poller.move, Poller.tick_of_not_live h] using Relation.ReflTransGen.refl

theorem changes_move (c : Course α σ) (m : Move α σ) : Changes c (c.step (.move m)) := by
  cases m with
  | start => simpa [step, become, Poller.move] using changes_start c
  | stop => simpa [step, become, Poller.move] using changes_stop c
  | drop =>
    refine (changes_stop c).trans ?_
    exact changes_of_isAdjustment c.poller.isAdjustment_drop
  | setShouldFetch enabled =>
    exact changes_of_isAdjustment (c.poller.isAdjustment_setShouldFetch enabled)
  | subscribe role => exact changes_of_isAdjustment (c.poller.isAdjustment_subscribe role)
  | cancel ticket => exact changes_of_isAdjustment (c.poller.isAdjustment_cancel ticket)
  | tick run => exact changes_tick c run

theorem changes_land {c : Course α σ} {fetch : Issue} (hflight : fetch ∈ c.flights)
    (result : Outcome α) : Changes c (c.land fetch result) := by
  refine .single ?_
  unfold land Poller.accept?
  by_cases hstale : c.poller.isStale fetch.run fetch.seq = true
  · rw [if_pos hstale]
    exact .discard fetch result hflight hstale
  · rw [if_neg hstale]
    exact .apply fetch result hflight (by simpa using hstale)

theorem become_append (c : Course α σ) (p p' : Poller α σ) (events events' : List (Event α σ)) :
    (c.become (p, events)).become (p', events') = c.become (p', events ++ events') := by
  simp [become]

theorem changes_events (c : Course α σ) {events : List (Event α σ)}
    (h : ∀ e ∈ events, e.IsQuiet) : Changes c (c.become (c.poller, events)) :=
  changes_of_isAdjustment ⟨rfl, fun _ => rfl, h⟩

theorem changes_nothing (c : Course α σ) : Changes c (c.become (c.poller, [])) :=
  changes_events c fun _ he => absurd he List.not_mem_nil

theorem changes_obey (c : Course α σ) (command : Command α σ) :
    Changes c (c.become (c.poller.obey command)) := by
  cases command with
  | observe observer => exact changes_move c (.subscribe (.observer observer))
  | waitFor accepts => exact changes_move c (.subscribe (.waiter accepts))
  | setShouldFetch enabled => exact changes_move c (.setShouldFetch enabled)
  | stop => exact changes_move c .stop
  | drop => exact changes_move c .drop

theorem changes_obeyAll (c : Course α σ) (commands : List (Command α σ)) :
    Changes c (c.become (c.poller.obeyAll commands)) := by
  induction commands generalizing c with
  | nil => exact changes_nothing c
  | cons command commands ih =>
    have hrest := ih (c.become (c.poller.obey command))
    rw [become_append] at hrest
    exact (changes_obey c command).trans hrest

theorem changes_call (c : Course α σ) (b : Behaviour α σ) (result : Outcome α)
    (s : Subscription α σ) :
    Changes c (c.become ((c.poller.call b result s).1, (c.poller.call b result s).2.2)) := by
  obtain ⟨ticket, role⟩ := s
  cases role with
  | cancelled => exact changes_nothing c
  | waiter accepts =>
    cases result with
    | failure error => exact changes_nothing c
    | success value =>
      rw [Poller.call]
      dsimp only
      split
      · exact changes_events c (by simp [Event.IsQuiet])
      · exact changes_nothing c
  | observer observer =>
    rw [Poller.call]
    dsimp only
    generalize b.react observer ⟨result, c.poller.current⟩ = reply
    have hcalled : Changes c (c.become (c.poller,
        [.called ticket observer ⟨result, c.poller.current⟩ reply.done])) :=
      changes_events c (by simp [Event.IsQuiet])
    have hobeyed := changes_obeyAll (c.become (c.poller,
      [.called ticket observer ⟨result, c.poller.current⟩ reply.done])) reply.commands
    rw [become_append] at hobeyed
    exact hcalled.trans hobeyed

theorem changes_notify (c : Course α σ) (b : Behaviour α σ) (result : Outcome α)
    (taken : List (Subscription α σ)) :
    Changes c
      (c.become ((c.poller.notify b result taken).1, (c.poller.notify b result taken).2.2)) := by
  induction taken generalizing c with
  | nil => exact changes_nothing c
  | cons s rest ih =>
    have hrest := ih (c.become ((c.poller.call b result s).1, (c.poller.call b result s).2.2))
    rw [become_append] at hrest
    exact (changes_call c b result s).trans hrest

theorem changes_complete {c : Course α σ} (b : Behaviour α σ) {fetch : Issue}
    (hflight : fetch ∈ c.flights) (result : Outcome α) :
    Changes c ({ c with flights := c.flights.erase fetch }.become
      (c.poller.complete b fetch.run fetch.seq result)) := by
  have hland := changes_land hflight result
  unfold land at hland
  unfold Poller.complete
  generalize c.poller.accept? fetch.run fetch.seq result = accepted? at hland ⊢
  cases accepted? with
  | none => simpa [become] using hland
  | some accepted =>
    obtain ⟨p, taken⟩ := accepted
    dsimp only at hland ⊢
    -- The course in which the result has been applied, and then the one after all calls.
    let applied : Course α σ :=
      ⟨p, c.flights.erase fetch, c.log ++ [.applied fetch.run fetch.seq result]⟩
    let told := applied.become ((p.notify b result taken).1, (p.notify b result taken).2.2)
    have htold : Changes applied told := changes_notify applied b result taken
    have hback : Changes told (told.become (told.poller.putBack (p.notify b result taken).2.1)) :=
      changes_of_isAdjustment (told.poller.isAdjustment_putBack _)
    have hall := (hland.trans htold).trans hback
    simpa [told, applied, become, issues, List.filterMap_cons] using hall

theorem changes_step (c : Course α σ) (piece : Piece α σ) : Changes c (c.step piece) := by
  cases piece with
  | move m => exact changes_move c m
  | land fetch result =>
    rw [step]
    split
    · next hflight => exact changes_land hflight result
    · exact .refl
  | putBack kept => exact changes_of_isAdjustment (c.poller.isAdjustment_putBack kept)
  | complete b fetch result =>
    rw [step]
    split
    · next hflight => exact changes_complete b hflight result
    · exact .refl

theorem changes_run (c : Course α σ) (pieces : List (Piece α σ)) : Changes c (c.run pieces) := by
  induction pieces generalizing c with
  | nil => exact .refl
  | cons piece pieces ih => exact (changes_step c piece).trans (ih _)

/-- What every change keeps holds throughout every course. -/
theorem Changes.keep {P : Course α σ → Prop} (hchange : ∀ {c c'}, P c → Change c c' → P c')
    {c c' : Course α σ} (h : Changes c c') (hc : P c) : P c' := by
  induction h with
  | refl => exact hc
  | tail _ hlast ih => exact hchange ih hlast

theorem Changes.policy_eq {c c' : Course α σ} (h : Changes c c') :
    c'.poller.policy = c.poller.policy := by
  refine h.keep (P := fun d => d.poller.policy = c.poller.policy) ?_ rfl
  intro d d' hd hchange
  cases hchange <;> exact hd

theorem policy_run (policy : Policy) (pieces : List (Piece α σ)) :
    ((fresh policy).run pieces).poller.policy = policy :=
  (changes_run _ pieces).policy_eq

theorem Changes.run_le {c c' : Course α σ} (h : Changes c c') :
    c.poller.run ≤ c'.poller.run := by
  refine h.keep (P := fun d => c.poller.run ≤ d.poller.run) ?_ (Nat.le_refl _)
  intro d d' hd hchange
  cases hchange with
  | halt => exact Nat.le_succ_of_le hd
  | begin => exact Nat.le_succ_of_le hd
  | _ => exact hd

theorem Changes.log_grows {c c' : Course α σ} (h : Changes c c') : c.log <+: c'.log := by
  refine h.keep (P := fun d => c.log <+: d.log) ?_ (List.prefix_refl _)
  intro d d' hd hchange
  cases hchange with
  | halt => exact hd
  | begin => exact hd
  | _ => exact hd.trans (List.prefix_append _ _)

theorem running_of_closed (policy : Policy) (pieces : List (Piece α σ)) :
    ((fresh policy).run pieces).poller.closed = true →
      ((fresh policy).run pieces).poller.running = false := by
  refine (changes_run _ pieces).keep
    (P := fun d => d.poller.closed = true → d.poller.running = false) ?_ (by simp [fresh])
  intro d d' hd hchange
  cases hchange with
  | adjust shouldFetch closed subscribers nextTicket events hclosed hquiet =>
    intro h
    show d.poller.running = false
    by_contra hrunning
    rw [Bool.not_eq_false] at hrunning
    have hdc : d.poller.closed = true := (hclosed hrunning).symm.trans h
    simp [hd hdc] at hrunning
  | halt => exact fun _ => rfl
  | begin hidle hopen => exact fun h => by simp [hopen] at h
  | _ => exact hd

end Course

end PoolWatch
