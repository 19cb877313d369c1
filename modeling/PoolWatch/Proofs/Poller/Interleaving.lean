import PoolWatch.Proofs.Poller.Delivery
/-!
# Interleaved completions

Completions on several threads take turns: one applies its result and takes the subscribers out, one
tells those that it has taken, one puts back those that stay, and moves from outside happen in
between.  Until a completion has put its subscribers back no other one finds them.  Whoever is
registered stands in one place: with the poller or with one of the completions.
-/

namespace PoolWatch

variable {α σ : Type}

/-- A completion that has applied its result and has not put back its subscribers yet. -/
structure Underway (α σ : Type) where
  number : Nat
  result : Outcome α
  told : Bool
  held : List (Subscription α σ)

/-- A poller with the completions under way on it. -/
structure Interleaving (α σ : Type) where
  poller : Poller α σ := {}
  underway : List (Underway α σ) := []
  completions : Nat := 0
  entries : List (Entry α σ) := []
  made : List (Nat × Call α σ) := []

/-- A turn of one of the threads.  Completions are numbered as they apply their results. -/
inductive Turn (α σ : Type) where
  | move (move : Move α σ)
  | apply (fetch : Issue) (result : Outcome α)
  | tell (number : Nat)
  | putBack (number : Nat)

/-- The completion with a number, and the others. -/
def pick? (number : Nat) : List (Underway α σ) → Option (Underway α σ × List (Underway α σ))
  | [] => none
  | u :: rest =>
    if u.number = number then some (u, rest)
    else (pick? number rest).map fun (found, others) => (found, u :: others)

namespace Interleaving

def fresh (policy : Policy) : Interleaving α σ := { poller := { policy } }

/-- What comes of a turn.  A completion that is not under way has no turn. -/
def step (b : Behaviour α σ) (w : Interleaving α σ) : Turn α σ → Interleaving α σ
  | .move m =>
    let (poller, entries) := w.poller.act b (.move m)
    { w with poller, entries := w.entries ++ entries }
  | .apply fetch result =>
    match w.poller.accept? fetch.run fetch.seq result with
    | none =>
      { w with
        poller := w.poller.discard
        entries := w.entries ++ [.event (.discarded fetch.run fetch.seq result)] }
    | some (poller, taken) =>
      { w with
        poller
        underway := ⟨w.completions, result, false, taken⟩ :: w.underway
        completions := w.completions + 1
        entries := w.entries ++ [.event (.applied fetch.run fetch.seq result)] }
  | .tell number =>
    match pick? number w.underway with
    | none => w
    | some (u, others) =>
      if u.told then w
      else
        let (poller, kept, events) := w.poller.notify b u.result u.held
        { w with
          poller
          underway := { u with told := true, held := kept } :: others
          entries := w.entries ++ chronicle b events
          made := w.made ++ (calls events).map fun call => (number, call) }
  | .putBack number =>
    match pick? number w.underway with
    | none => w
    | some (u, others) =>
      if u.told then
        let (poller, events) := w.poller.putBack u.held
        { w with poller, underway := others, entries := w.entries ++ chronicle b events }
      else w

def run (b : Behaviour α σ) (w : Interleaving α σ) (turns : List (Turn α σ)) :
    Interleaving α σ :=
  turns.foldl (step b) w

theorem run_append (b : Behaviour α σ) (w : Interleaving α σ) (first second : List (Turn α σ)) :
    w.run b (first ++ second) = (w.run b first).run b second :=
  List.foldl_append

end Interleaving

/-- A completion that nothing interrupts takes its three turns in a row. -/
theorem Interleaving.run_complete (b : Behaviour α σ) (w : Interleaving α σ) {fetch : Issue}
    (hfresh : w.poller.isStale fetch.run fetch.seq = false) (result : Outcome α) :
    let w' := w.run b [.apply fetch result, .tell w.completions, .putBack w.completions]
    let (poller, events) := w.poller.complete b fetch.run fetch.seq result
    w'.poller = poller ∧ w'.underway = w.underway ∧
      w'.entries = w.entries ++ chronicle b events := by
  simp only [run, List.foldl_cons, List.foldl_nil, step, Poller.complete,
    Poller.accept?_of_fresh hfresh, pick?, ↓reduceIte, Bool.false_eq_true]
  refine ⟨trivial, trivial, ?_⟩
  simp [chronicle, Event.entries, Event.registers]

/-! ## Completions under way -/

theorem pick?_perm {number : Nat} {underway others : List (Underway α σ)} {u : Underway α σ}
    (h : pick? number underway = some (u, others)) :
    u.number = number ∧ underway.Perm (u :: others) := by
  induction underway generalizing u others with
  | nil => cases h
  | cons v rest ih =>
    rw [pick?] at h
    split at h
    next hnumber =>
      cases h
      exact ⟨hnumber, .refl _⟩
    next =>
      obtain ⟨⟨found, rest'⟩, hfound, hpair⟩ := Option.map_eq_some_iff.1 h
      cases hpair
      obtain ⟨hnumber, hperm⟩ := ih hfound
      exact ⟨hnumber, (hperm.cons v).trans (.swap _ _ _)⟩

theorem exists_pick? {number : Nat} {underway : List (Underway α σ)} {u : Underway α σ}
    (hu : u ∈ underway) (hnumber : u.number = number) :
    ∃ found others, pick? number underway = some (found, others) := by
  induction underway with
  | nil => cases hu
  | cons v rest ih =>
    rw [pick?]
    split
    · exact ⟨_, _, rfl⟩
    next hother =>
      rcases List.mem_cons.1 hu with rfl | hu
      · exact absurd hnumber hother
      · obtain ⟨found, others, hfound⟩ := ih hu
        exact ⟨found, v :: others, by rw [hfound]; rfl⟩

/-! ## Everybody who is registered -/

namespace Interleaving

/-- The subscribers held by some completions. -/
def heldBy (underway : List (Underway α σ)) : List (Subscription α σ) :=
  underway.flatMap Underway.held

/-- The subscribers of the poller, and those that completions hold. -/
def everybody (w : Interleaving α σ) : List (Subscription α σ) :=
  w.poller.subscribers ++ heldBy w.underway

/-- What a turn does to those who are registered.  Nobody comes but by registration, and unless the
poller is dropped an observer stays somewhere until it says that it is done. -/
structure Carries (w w' : Interleaving α σ) (new : List (Entry α σ)) : Prop where
  entries : w'.entries = w.entries ++ new
  isTidy : w.poller.IsTidy → w'.poller.IsTidy
  nextTicket : w'.poller.nextTicket = w.poller.nextTicket + (registrations new).length
  count : ∀ ticket, (underTicket ticket w'.everybody).length ≤
    (underTicket ticket w.everybody).length +
      (underTicket ticket (enroll w.poller.nextTicket (registrations new))).length
  isOpen : w'.poller.closed = false → w.poller.closed = false
  enrolled : w'.poller.closed = false →
    ∀ s ∈ enroll w.poller.nextTicket (registrations new), s ∈ w'.everybody
  observers : w'.poller.closed = false → ∀ ticket observer,
    ⟨ticket, .observer observer⟩ ∈ w.everybody →
    (∀ call ∈ calls (happenings new), call.ticket = ticket → call.done = false) →
    ∃ observer', ⟨ticket, .observer observer'⟩ ∈ w'.everybody

namespace Carries

theorem refl (w : Interleaving α σ) : Carries w w [] where
  entries := (List.append_nil _).symm
  isTidy := id
  nextTicket := rfl
  count _ := Nat.le_add_right _ _
  isOpen := id
  enrolled _ _ hs := absurd hs List.not_mem_nil
  observers _ _ observer hmem _ := ⟨observer, hmem⟩

theorem of_perm {w w' : Interleaving α σ} {new : List (Entry α σ)}
    (hentries : w'.entries = w.entries ++ new) (hregistrations : registrations new = [])
    (hnextTicket : w'.poller.nextTicket = w.poller.nextTicket)
    (hclosed : w'.poller.closed = w.poller.closed)
    (htidy : w.poller.IsTidy → w'.poller.IsTidy) (hperm : w'.everybody.Perm w.everybody) :
    Carries w w' new where
  entries := hentries
  isTidy := htidy
  nextTicket := by rw [hnextTicket, hregistrations]; rfl
  count ticket := by
    rw [underTicket, underTicket, (hperm.filter _).length_eq]
    exact Nat.le_add_right _ _
  isOpen hopen := hclosed.symm.trans hopen
  enrolled _ s hs := by
    rw [hregistrations] at hs
    cases hs
  observers _ _ observer hmem _ := ⟨observer, hperm.mem_iff.2 hmem⟩

end Carries

end Interleaving

theorem length_underTicket_filterMap_le {change : Subscription α σ → Option (Subscription α σ)}
    (hticket : ∀ s s', change s = some s' → s'.ticket = s.ticket) (ticket : Nat)
    (subscribers : List (Subscription α σ)) :
    (underTicket ticket (subscribers.filterMap change)).length ≤
      (underTicket ticket subscribers).length := by
  rw [underTicket_filterMap hticket]
  exact List.length_filterMap_le _ _

theorem length_underTicket_enroll_le (ticket next : Nat) (roles : List (Role α σ)) :
    (underTicket ticket (enroll next roles)).length ≤ 1 := by
  induction roles generalizing next with
  | nil => exact Nat.zero_le 1
  | cons role roles ih =>
    rw [enroll, underTicket_cons]
    split
    next hticket =>
      have hnone : underTicket ticket (enroll (next + 1) roles) = [] := by
        apply underTicket_eq_nil
        intro s hs
        have := bounds_of_mem_enroll hs
        have : next = ticket := hticket
        omega
      rw [hnone]
      exact Nat.le_refl 1
    next => exact ih _

theorem mem_enroll_of_getElem? (next : Nat) {i : Nat} {roles : List (Role α σ)} {role : Role α σ}
    (h : roles[i]? = some role) : ⟨next + i, role⟩ ∈ enroll next roles := by
  induction roles generalizing next i with
  | nil => cases h
  | cons first roles ih =>
    cases i with
    | zero =>
      cases h
      exact List.mem_cons_self
    | succ i =>
      have hrest := ih (next + 1) h
      rw [Nat.add_right_comm] at hrest
      exact List.mem_cons_of_mem _ hrest

/-! ## Turns -/

namespace Interleaving

section

variable (b : Behaviour α σ) {w : Interleaving α σ}

theorem carries_move (htidy : w.poller.IsTidy) (m : Move α σ) :
    Carries w (w.step b (.move m)) (w.poller.act b (.move m)).2 := by
  have hadvances := Advances.move b w.poller m
  have hresults : results (w.poller.act b (.move m)).2 = [] := by
    rw [results, Poller.act, happenings_append, happenings_map_registered, happenings_chronicle,
      List.nil_append, applications_of_isMute (w.poller.isMute_move m), List.map_nil]
  have heverybody : (w.step b (.move m)).everybody =
      (w.poller.act b (.move m)).1.subscribers ++ heldBy w.underway := rfl
  refine ⟨rfl, hadvances.isTidy, hadvances.nextTicket, fun ticket => ?_,
    fun hopen => (hadvances.subscribers hopen).1, fun hopen s hs => ?_,
    fun hopen ticket observer hmem _ => ?_⟩
  · rw [heverybody, everybody, underTicket_append, underTicket_append, List.length_append,
      List.length_append]
    cases hclosed : (w.poller.act b (.move m)).1.closed with
    | true =>
      rw [(hadvances.isTidy htidy hclosed).2]
      show 0 + _ ≤ _
      omega
    | false =>
      obtain ⟨-, change, hticket, -, hsubscribers⟩ := hadvances.subscribers hclosed
      have hchange := length_underTicket_filterMap_le hticket ticket w.poller.subscribers
      rw [hsubscribers, underTicket_append, List.length_append]
      omega
  · obtain ⟨-, change, -, -, hsubscribers⟩ := hadvances.subscribers hopen
    rw [heverybody, hsubscribers]
    exact List.mem_append_left _ (List.mem_append_right _ hs)
  · obtain ⟨-, change, -, hobserver, hsubscribers⟩ := hadvances.subscribers hopen
    refine ⟨observer, ?_⟩
    rw [heverybody, hsubscribers]
    rcases List.mem_append.1 hmem with hmem | hmem
    · have hsame : change ⟨ticket, .observer observer⟩ = some ⟨ticket, .observer observer⟩ := by
        rw [hobserver, hresults]
        rfl
      exact List.mem_append_left _ (List.mem_append_left _ (List.mem_filterMap.2 ⟨_, hmem, hsame⟩))
    · exact List.mem_append_right _ hmem

theorem carries_apply (fetch : Issue) (result : Outcome α) :
    ∃ new, Carries w (w.step b (.apply fetch result)) new := by
  rw [step]
  cases hstale : w.poller.isStale fetch.run fetch.seq with
  | true =>
    rw [Poller.accept?_of_isStale hstale]
    exact ⟨[.event (.discarded fetch.run fetch.seq result)],
      .of_perm rfl rfl rfl rfl (fun htidy => htidy) (.refl _)⟩
  | false =>
    rw [Poller.accept?_of_fresh hstale]
    exact ⟨[.event (.applied fetch.run fetch.seq result)],
      .of_perm rfl rfl rfl rfl (fun htidy hclosed => ⟨(htidy hclosed).1, rfl⟩) (.refl _)⟩

theorem everybody_perm {number : Nat} {u : Underway α σ} {others : List (Underway α σ)}
    (hpick : pick? number w.underway = some (u, others)) :
    w.everybody.Perm (w.poller.subscribers ++ (u.held ++ heldBy others)) :=
  ((pick?_perm hpick).2.flatMap_right Underway.held).append_left _

theorem length_underTicket_everybody {number : Nat} {u : Underway α σ}
    {others : List (Underway α σ)} (hpick : pick? number w.underway = some (u, others))
    (ticket : Nat) :
    (underTicket ticket w.everybody).length = (underTicket ticket w.poller.subscribers).length +
      ((underTicket ticket u.held).length + (underTicket ticket (heldBy others)).length) := by
  rw [underTicket, ((everybody_perm hpick).filter _).length_eq, ← underTicket, underTicket_append,
    underTicket_append, List.length_append, List.length_append]

theorem carries_putBack (number : Nat) : ∃ new, Carries w (w.step b (.putBack number)) new := by
  rw [step]
  split
  · exact ⟨[], .refl w⟩
  next u others hpick =>
    split
    · refine ⟨chronicle b (w.poller.putBack u.held).2, ?_⟩
      have hreturned := AreAbandonments.putBack w.poller u.held
      have hregistrations : registrations (chronicle b (w.poller.putBack u.held).2) = [] := by
        rw [registrations_chronicle, registers_of_isMute b hreturned.isMute]
      cases hclosed : w.poller.closed with
      | true =>
        have hput : w.poller.putBack u.held = (w.poller, abandonments u.held) := if_pos hclosed
        rw [hput] at hregistrations ⊢
        refine ⟨rfl, id, by rw [hregistrations]; rfl, fun ticket => ?_, id, fun hopen => ?_,
          fun hopen => ?_⟩
        · show (underTicket ticket (w.poller.subscribers ++ heldBy others)).length ≤ _
          rw [length_underTicket_everybody hpick, underTicket_append, List.length_append]
          omega
        · exact absurd (hclosed.symm.trans hopen) (by decide)
        · exact absurd (hclosed.symm.trans hopen) (by decide)
      | false =>
        have hput : w.poller.putBack u.held =
            ({ w.poller with subscribers := u.held ++ w.poller.subscribers }, []) :=
          if_neg (Bool.eq_false_iff.1 hclosed)
        rw [hput] at hregistrations ⊢
        refine .of_perm rfl hregistrations rfl rfl (fun _ hclosed' => ?_) ?_
        · exact absurd (hclosed.symm.trans hclosed') (by decide)
        · refine .trans ?_ (everybody_perm hpick).symm
          show (u.held ++ w.poller.subscribers ++ heldBy others).Perm _
          rw [← List.append_assoc]
          exact (List.perm_append_comm).append_right _
    · exact ⟨[], .refl w⟩

theorem carries_tell (htidy : w.poller.IsTidy) (number : Nat) :
    ∃ new, Carries w (w.step b (.tell number)) new := by
  rw [step]
  split
  · exact ⟨[], .refl w⟩
  next u others hpick =>
    split
    · exact ⟨[], .refl w⟩
    · refine ⟨chronicle b (w.poller.notify b u.result u.held).2.2, ?_⟩
      have hnotify := Notifies.notify b u.result w.poller u.held
      generalize w.poller.notify b u.result u.held = next at hnotify ⊢
      obtain ⟨p', kept, events⟩ := next
      obtain ⟨henrolls, hkept, hcalls, -⟩ := hnotify
      dsimp only at henrolls hkept hcalls ⊢
      rw [← registrations_chronicle b] at henrolls
      refine ⟨rfl, henrolls.isTidy, henrolls.nextTicket, fun ticket => ?_,
        fun hopen => (henrolls.subscribers hopen).1, fun hopen s hs => ?_,
        fun hopen ticket observer hmem hnotDone => ?_⟩
      · have hticket : ∀ s s', Subscription.stay? b ⟨u.result, w.poller.current⟩ s = some s' →
            s'.ticket = s.ticket := fun _ _ => Subscription.ticket_of_stay?
        have hstay := length_underTicket_filterMap_le hticket ticket u.held
        rw [length_underTicket_everybody hpick]
        show (underTicket ticket (p'.subscribers ++ (kept ++ heldBy others))).length ≤ _
        rw [underTicket_append, underTicket_append, List.length_append, List.length_append, hkept]
        cases hclosed : p'.closed with
        | true =>
          rw [(henrolls.isTidy htidy hclosed).2]
          show 0 + _ ≤ _
          omega
        | false =>
          rw [(henrolls.subscribers hclosed).2, underTicket_append, List.length_append]
          omega
      · show s ∈ p'.subscribers ++ _
        rw [(henrolls.subscribers hopen).2]
        exact List.mem_append_left _ (List.mem_append_right _ hs)
      · rw [happenings_chronicle, hcalls] at hnotDone
        have hplace := (everybody_perm hpick).mem_iff.1 hmem
        rw [List.mem_append, List.mem_append] at hplace
        rcases hplace with hplace | hplace | hplace
        · refine ⟨observer, List.mem_append_left _ ?_⟩
          rw [(henrolls.subscribers hopen).2]
          exact List.mem_append_left _ hplace
        · -- It is told, and has said that it is not done.
          have hdone := hnotDone _ (List.mem_filterMap.2 ⟨_, hplace, rfl⟩) rfl
          have hstay : Subscription.stay? b ⟨u.result, w.poller.current⟩
              ⟨ticket, .observer observer⟩ =
              some ⟨ticket, .observer (b.react observer ⟨u.result, w.poller.current⟩).observer⟩ :=
            if_neg (Bool.eq_false_iff.1 hdone)
          have hkeeps := List.mem_filterMap.2 ⟨_, hplace, hstay⟩
          rw [← hkept] at hkeeps
          exact ⟨_, List.mem_append_right _ (List.mem_append_left _ hkeeps)⟩
        · exact ⟨observer, List.mem_append_right _ (List.mem_append_right _ hplace)⟩

end

/-! ## The invariant -/

/-- An observer was registered under a ticket, and has not said that it is done. -/
def Stands (w : Interleaving α σ) (ticket : Nat) : Prop :=
  (∃ observer, (registrations w.entries)[ticket]? = some (.observer observer)) ∧
    ∀ call ∈ calls (happenings w.entries), call.ticket = ticket → call.done = false

/-- Tickets are numbers of registrations, nobody stands in two places, and unless the poller was
dropped every observer that is not done stands somewhere. -/
structure Coherent (w : Interleaving α σ) : Prop where
  isTidy : w.poller.IsTidy
  nextTicket : w.poller.nextTicket = (registrations w.entries).length
  ticket_lt : ∀ s ∈ w.everybody, s.ticket < w.poller.nextTicket
  unique : ∀ ticket, (underTicket ticket w.everybody).length ≤ 1
  place : w.poller.closed = false → ∀ ticket, w.Stands ticket →
    ∃ observer, ⟨ticket, .observer observer⟩ ∈ w.everybody

theorem coherent_fresh (policy : Policy) : (fresh policy : Interleaving α σ).Coherent where
  isTidy h := by cases h
  nextTicket := rfl
  ticket_lt s hs := absurd hs List.not_mem_nil
  unique _ := Nat.zero_le 1
  place _ ticket h := by
    obtain ⟨⟨observer, hregistered⟩, -⟩ := h
    cases hregistered

theorem length_underTicket_pos {subscribers : List (Subscription α σ)} {s : Subscription α σ}
    (h : s ∈ subscribers) : 0 < (underTicket s.ticket subscribers).length :=
  List.length_pos_of_mem (List.mem_filter.2 ⟨h, decide_eq_true rfl⟩)

theorem Coherent.carry {w w' : Interleaving α σ} {new : List (Entry α σ)} (h : w.Coherent)
    (hcarries : Carries w w' new) : w'.Coherent := by
  have hold : ∀ ticket, w.poller.nextTicket ≤ ticket → underTicket ticket w.everybody = [] := by
    intro ticket hticket
    apply underTicket_eq_nil
    intro s hs
    have := h.ticket_lt s hs
    omega
  have hnew : ∀ ticket, ticket < w.poller.nextTicket ∨
      w.poller.nextTicket + (registrations new).length ≤ ticket →
      underTicket ticket (enroll w.poller.nextTicket (registrations new)) = [] := by
    intro ticket hticket
    apply underTicket_eq_nil
    intro s hs
    have := bounds_of_mem_enroll hs
    omega
  refine ⟨hcarries.isTidy h.isTidy, ?_, ?_, ?_, ?_⟩
  · rw [hcarries.nextTicket, hcarries.entries, registrations_append, List.length_append,
      h.nextTicket]
  · intro s hs
    rw [hcarries.nextTicket]
    by_contra hlate
    rw [Nat.not_lt] at hlate
    have hcount := hcarries.count s.ticket
    rw [hold s.ticket (by omega), hnew s.ticket (Or.inr hlate)] at hcount
    exact absurd (length_underTicket_pos hs) (Nat.not_lt.2 hcount)
  · intro ticket
    refine (hcarries.count ticket).trans ?_
    by_cases hticket : ticket < w.poller.nextTicket
    · rw [hnew ticket (Or.inl hticket)]
      exact h.unique ticket
    · rw [hold ticket (Nat.not_lt.1 hticket), List.length_nil, Nat.zero_add]
      exact length_underTicket_enroll_le _ _ _
  · intro hopen ticket hstands
    obtain ⟨⟨observer, hregistered⟩, hnotDone⟩ := hstands
    rw [hcarries.entries, happenings_append, calls_append] at hnotDone
    rw [hcarries.entries, registrations_append] at hregistered
    by_cases hticket : ticket < (registrations w.entries).length
    · rw [List.getElem?_append_left hticket] at hregistered
      obtain ⟨observer', hplace⟩ := h.place (hcarries.isOpen hopen) ticket
        ⟨⟨observer, hregistered⟩, fun call hcall => hnotDone call (List.mem_append_left _ hcall)⟩
      exact hcarries.observers hopen ticket observer' hplace
        fun call hcall => hnotDone call (List.mem_append_right _ hcall)
    · rw [Nat.not_lt] at hticket
      rw [List.getElem?_append_right hticket] at hregistered
      have hmem := mem_enroll_of_getElem? w.poller.nextTicket hregistered
      rw [h.nextTicket, Nat.add_sub_cancel' hticket, ← h.nextTicket] at hmem
      exact ⟨observer, hcarries.enrolled hopen _ hmem⟩

theorem Coherent.step {w : Interleaving α σ} (h : w.Coherent) (b : Behaviour α σ)
    (turn : Turn α σ) : (w.step b turn).Coherent := by
  cases turn with
  | move m => exact h.carry (carries_move b h.isTidy m)
  | apply fetch result =>
    obtain ⟨new, hcarries⟩ := carries_apply b fetch result
    exact h.carry hcarries
  | tell number =>
    obtain ⟨new, hcarries⟩ := carries_tell b h.isTidy number
    exact h.carry hcarries
  | putBack number =>
    obtain ⟨new, hcarries⟩ := carries_putBack b number
    exact h.carry hcarries

theorem Coherent.run {w : Interleaving α σ} (h : w.Coherent) (b : Behaviour α σ)
    (turns : List (Turn α σ)) : (w.run b turns).Coherent := by
  induction turns generalizing w with
  | nil => exact h
  | cons turn turns ih => exact ih (h.step b turn)

end Interleaving

end PoolWatch
