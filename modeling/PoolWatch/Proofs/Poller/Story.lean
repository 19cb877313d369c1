import PoolWatch.Proofs.Poller.Notification
import PoolWatch.Proofs.Poller.Course
/-!
# Stories of pollers

A story is what a poller goes through while completions are processed one at a time: moves from
outside and whole completions, in any order.  Its entries are the events of the poller, and among
them the registrations, which the log leaves out: those from outside, and those that an observer
commands when it is called.
-/

namespace PoolWatch

variable {α σ : Type}

inductive Entry (α σ : Type) where
  | registered (role : Role α σ)
  | event (event : Event α σ)

@[simp] def Entry.role? : Entry α σ → Option (Role α σ)
  | .registered role => some role
  | .event _ => none

@[simp] def Entry.event? : Entry α σ → Option (Event α σ)
  | .registered _ => none
  | .event e => some e

def registrations (entries : List (Entry α σ)) : List (Role α σ) :=
  entries.filterMap Entry.role?

/-- The log of a story. -/
def happenings (entries : List (Entry α σ)) : List (Event α σ) :=
  entries.filterMap Entry.event?

def results (entries : List (Entry α σ)) : List (Outcome α) :=
  (applications (happenings entries)).map Prod.snd

/-- The calls of the observer with a ticket, oldest first. -/
def callsTo (ticket : Nat) (entries : List (Entry α σ)) : List (Call α σ) :=
  (calls (happenings entries)).filter fun call => call.ticket = ticket

@[simp] theorem registrations_append (a b : List (Entry α σ)) :
    registrations (a ++ b) = registrations a ++ registrations b :=
  List.filterMap_append

@[simp] theorem happenings_append (a b : List (Entry α σ)) :
    happenings (a ++ b) = happenings a ++ happenings b :=
  List.filterMap_append

@[simp] theorem results_append (a b : List (Entry α σ)) :
    results (a ++ b) = results a ++ results b := by
  simp [results]

@[simp] theorem callsTo_append (ticket : Nat) (a b : List (Entry α σ)) :
    callsTo ticket (a ++ b) = callsTo ticket a ++ callsTo ticket b := by
  simp [callsTo]

/-! ## Entries of events -/

def Event.entries (b : Behaviour α σ) (e : Event α σ) : List (Entry α σ) :=
  .event e :: (e.registers b).map .registered

def chronicle (b : Behaviour α σ) (events : List (Event α σ)) : List (Entry α σ) :=
  events.flatMap (Event.entries b)

theorem happenings_map_registered (roles : List (Role α σ)) :
    happenings (roles.map Entry.registered) = [] := by
  simp [happenings, List.filterMap_map, Function.comp_def]

theorem registrations_map_registered (roles : List (Role α σ)) :
    registrations (roles.map Entry.registered) = roles := by
  simp [registrations, List.filterMap_map, Function.comp_def]

@[simp] theorem happenings_chronicle (b : Behaviour α σ) (events : List (Event α σ)) :
    happenings (chronicle b events) = events := by
  induction events with
  | nil => rfl
  | cons e events ih =>
    have hentries : happenings (e.entries b) = [e] := by
      show e :: happenings ((e.registers b).map .registered) = [e]
      rw [happenings_map_registered]
    rw [chronicle, List.flatMap_cons, happenings_append, hentries, ← chronicle, ih]
    rfl

@[simp] theorem registrations_chronicle (b : Behaviour α σ) (events : List (Event α σ)) :
    registrations (chronicle b events) = events.flatMap (Event.registers b) := by
  induction events with
  | nil => rfl
  | cons e events ih =>
    have hentries : registrations (e.entries b) = e.registers b :=
      registrations_map_registered (e.registers b)
    rw [chronicle, List.flatMap_cons, registrations_append, hentries, ← chronicle, ih,
      List.flatMap_cons]

theorem results_chronicle_of_isQuiet (b : Behaviour α σ) {events : List (Event α σ)}
    (h : ∀ e ∈ events, e.IsQuiet) : results (chronicle b events) = [] := by
  rw [results, happenings_chronicle, applications_of_isQuiet h, List.map_nil]

/-! ## Actions -/

@[simp] def Move.role? : Move α σ → Option (Role α σ)
  | .subscribe role => some role
  | _ => none

/-- What happens to a poller as a whole: a move from outside, or a completion with all its calls. -/
inductive Action (α σ : Type) where
  | move (move : Move α σ)
  | complete (run seq : Nat) (result : Outcome α)

/-- The poller after an action, and the entries. -/
def Poller.act (b : Behaviour α σ) (p : Poller α σ) :
    Action α σ → Poller α σ × List (Entry α σ)
  | .move m =>
    let (p, events) := p.move m
    (p, m.role?.toList.map .registered ++ chronicle b events)
  | .complete run seq result =>
    let (p, events) := p.complete b run seq result
    (p, chronicle b events)

theorem Poller.applies_act (b : Behaviour α σ) {p : Poller α σ} {run seq : Nat}
    (hfresh : p.isStale run seq = false) (result : Outcome α) :
    ∃ told, (p.act b (.complete run seq result)).2 =
        .event (.applied run seq result) :: chronicle b told ∧
      Applies b p result (p.act b (.complete run seq result)).1 told := by
  obtain ⟨told, htold, h⟩ := applies_complete b hfresh result
  refine ⟨told, ?_, h⟩
  show chronicle b (p.complete b run seq result).2 = _
  rw [htold]
  rfl

/-- A poller with everything that happened and was registered, oldest first. -/
structure Story (α σ : Type) where
  poller : Poller α σ := {}
  entries : List (Entry α σ) := []

namespace Story

def fresh (policy : Policy) : Story α σ := { poller := { policy } }

def act (b : Behaviour α σ) (story : Story α σ) (action : Action α σ) : Story α σ :=
  let (poller, entries) := story.poller.act b action
  { poller, entries := story.entries ++ entries }

def run (b : Behaviour α σ) (story : Story α σ) (actions : List (Action α σ)) : Story α σ :=
  actions.foldl (act b) story

theorem run_append (b : Behaviour α σ) (story : Story α σ) (first second : List (Action α σ)) :
    story.run b (first ++ second) = (story.run b first).run b second :=
  List.foldl_append

end Story

/-! ## Courses of whole completions -/

/-- A move, or a completion that nothing interrupts. -/
def Piece.IsWhole (b : Behaviour α σ) : Piece α σ → Prop
  | .move _ => True
  | .complete b' _ _ => b' = b
  | _ => False

namespace Story

/-- A story tells what happened in a course. -/
structure Tells (story : Story α σ) (c : Course α σ) : Prop where
  poller : story.poller = c.poller
  log : happenings story.entries = c.log

theorem Tells.step {story : Story α σ} {c : Course α σ} (h : story.Tells c) {b : Behaviour α σ}
    {piece : Piece α σ} (hwhole : piece.IsWhole b) :
    ∃ actions, (story.run b actions).Tells (c.step piece) := by
  cases piece with
  | move m =>
    refine ⟨[.move m], ?_, ?_⟩
    · show (story.poller.move m).1 = (c.poller.move m).1
      rw [h.poller]
    · show happenings (story.entries ++ (m.role?.toList.map .registered ++
        chronicle b (story.poller.move m).2)) = c.log ++ (c.poller.move m).2
      rw [happenings_append, happenings_append, happenings_map_registered, happenings_chronicle,
        List.nil_append, h.log, h.poller]
  | complete b' fetch result =>
    obtain rfl : b' = b := hwhole
    by_cases hflight : fetch ∈ c.flights
    · refine ⟨[.complete fetch.run fetch.seq result], ?_, ?_⟩
      · rw [Course.step, if_pos hflight]
        show (story.poller.complete b' fetch.run fetch.seq result).1 = _
        rw [h.poller]
        rfl
      · rw [Course.step, if_pos hflight]
        show happenings (story.entries ++
          chronicle b' (story.poller.complete b' fetch.run fetch.seq result).2) = _
        rw [happenings_append, happenings_chronicle, h.log, h.poller]
        rfl
    · refine ⟨[], ?_⟩
      rw [Course.step, if_neg hflight]
      exact h
  | land fetch result => cases hwhole
  | putBack kept => cases hwhole

/-- Every course of moves and whole completions is told by a story. -/
theorem exists_tells (b : Behaviour α σ) (policy : Policy) (pieces : List (Piece α σ))
    (hwhole : ∀ piece ∈ pieces, piece.IsWhole b) :
    ∃ actions, ((fresh policy).run b actions).Tells ((Course.fresh policy).run pieces) := by
  induction pieces using List.reverseRecOn with
  | nil => exact ⟨[], rfl, rfl⟩
  | append_singleton pieces piece ih =>
    obtain ⟨first, hfirst⟩ := ih fun p hp => hwhole p (List.mem_append_left _ hp)
    obtain ⟨second, hsecond⟩ := hfirst.step (hwhole piece (by simp))
    refine ⟨first ++ second, ?_⟩
    rw [run_append, Course.run_append]
    exact hsecond

end Story

end PoolWatch
