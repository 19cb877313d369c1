import Mathlib.Data.List.Nodup
import PoolWatch.Proofs.Poller.Interleaving
/-!
# Calls of interleaved completions

A completion calls the observers that it has taken, when its turn comes, and no others.  So a result
is told to a registered observer if and only if no other completion holds it when the result is
applied.
-/

namespace PoolWatch

variable {α σ : Type}

namespace Interleaving

/-! ## Turns of completions -/

/-- What a turn does to the completions under way, and to the calls that they have made. -/
inductive Progress (w w' : Interleaving α σ) (turn : Turn α σ) : Prop where
  | idle (underway : w'.underway = w.underway) (completions : w'.completions = w.completions)
      (made : w'.made = w.made)
  | applied (u : Underway α σ) (number : u.number = w.completions)
      (underway : w'.underway = u :: w.underway)
      (completions : w'.completions = w.completions + 1) (made : w'.made = w.made)
  | told (u v : Underway α σ) (others : List (Underway α σ)) (calls : List (Call α σ))
      (turn_eq : turn = .tell u.number) (untold : u.told = false) (told : v.told = true)
      (number : v.number = u.number) (perm : w.underway.Perm (u :: others))
      (underway : w'.underway = v :: others) (completions : w'.completions = w.completions)
      (made : w'.made = w.made ++ calls.map fun call => (u.number, call))
  | returned (u : Underway α σ) (others : List (Underway α σ)) (told : u.told = true)
      (perm : w.underway.Perm (u :: others)) (underway : w'.underway = others)
      (completions : w'.completions = w.completions) (made : w'.made = w.made)

theorem progress_step (b : Behaviour α σ) (w : Interleaving α σ) (turn : Turn α σ) :
    Progress w (w.step b turn) turn := by
  cases turn with
  | move m => exact .idle rfl rfl rfl
  | apply fetch result =>
    rw [step]
    split
    · exact .idle rfl rfl rfl
    next poller taken _ =>
      exact .applied ⟨w.completions, result, false, taken⟩ rfl rfl rfl rfl
  | tell number =>
    rw [step]
    split
    · exact .idle rfl rfl rfl
    next u others hpick =>
      obtain ⟨rfl, hperm⟩ := pick?_perm hpick
      split
      · exact .idle rfl rfl rfl
      next huntold =>
        exact .told u { u with told := true, held := _ } others _ rfl (Bool.eq_false_iff.2 huntold)
          rfl rfl hperm rfl rfl rfl
  | putBack number =>
    rw [step]
    split
    · exact .idle rfl rfl rfl
    next u others hpick =>
      split
      next htold => exact .returned u others htold (pick?_perm hpick).2 rfl rfl rfl
      next => exact .idle rfl rfl rfl

theorem completions_le_step (b : Behaviour α σ) (w : Interleaving α σ) (turn : Turn α σ) :
    w.completions ≤ (w.step b turn).completions := by
  cases progress_step b w turn with
  | applied u _ _ hcompletions _ => omega
  | _ => omega

/-! ## Numbers of completions -/

/-- Completions are numbered as they come. -/
structure Numbered (w : Interleaving α σ) : Prop where
  nodup : (w.underway.map Underway.number).Nodup
  number_lt : ∀ u ∈ w.underway, u.number < w.completions
  made_lt : ∀ entry ∈ w.made, entry.1 < w.completions

theorem numbered_fresh (policy : Policy) : (fresh policy : Interleaving α σ).Numbered where
  nodup := .nil
  number_lt _ hu := absurd hu List.not_mem_nil
  made_lt _ hentry := absurd hentry List.not_mem_nil

theorem Numbered.of_perm {w : Interleaving α σ} (h : w.Numbered) {u : Underway α σ}
    {others : List (Underway α σ)} (hperm : w.underway.Perm (u :: others)) :
    (u.number :: others.map Underway.number).Nodup ∧
      ∀ v ∈ u :: others, v.number < w.completions :=
  ⟨(hperm.map Underway.number).nodup_iff.1 h.nodup, fun v hv =>
    h.number_lt v (hperm.mem_iff.2 hv)⟩

theorem Numbered.step {w : Interleaving α σ} (h : w.Numbered) (b : Behaviour α σ)
    (turn : Turn α σ) : (w.step b turn).Numbered := by
  cases progress_step b w turn with
  | idle hunderway hcompletions hmade =>
    refine ⟨?_, ?_, ?_⟩
    · rw [hunderway]
      exact h.nodup
    · rw [hunderway, hcompletions]
      exact h.number_lt
    · rw [hmade, hcompletions]
      exact h.made_lt
  | applied u hnumber hunderway hcompletions hmade =>
    refine ⟨?_, ?_, ?_⟩
    · rw [hunderway, List.map_cons, List.nodup_cons, hnumber]
      refine ⟨fun hmem => ?_, h.nodup⟩
      obtain ⟨v, hv, hsame⟩ := List.mem_map.1 hmem
      exact absurd hsame (Nat.ne_of_lt (h.number_lt v hv))
    · rw [hunderway, hcompletions, List.forall_mem_cons, hnumber]
      exact ⟨Nat.lt_succ_self _, fun v hv => Nat.lt_succ_of_lt (h.number_lt v hv)⟩
    · rw [hmade, hcompletions]
      exact fun entry hentry => Nat.lt_succ_of_lt (h.made_lt entry hentry)
  | told u v others calls _ _ _ hnumber hperm hunderway hcompletions hmade =>
    obtain ⟨hnodup, hlt⟩ := h.of_perm hperm
    obtain ⟨hu, hothers⟩ := List.forall_mem_cons.1 hlt
    refine ⟨?_, ?_, ?_⟩
    · rw [hunderway, List.map_cons, hnumber]
      exact hnodup
    · rw [hunderway, hcompletions, List.forall_mem_cons, hnumber]
      exact ⟨hu, hothers⟩
    · rw [hmade, hcompletions, List.forall_mem_append, List.forall_mem_map]
      exact ⟨h.made_lt, fun _ _ => hu⟩
  | returned u others _ hperm hunderway hcompletions hmade =>
    obtain ⟨hnodup, hlt⟩ := h.of_perm hperm
    refine ⟨?_, ?_, ?_⟩
    · rw [hunderway]
      exact (List.nodup_cons.1 hnodup).2
    · rw [hunderway, hcompletions]
      exact (List.forall_mem_cons.1 hlt).2
    · rw [hmade, hcompletions]
      exact h.made_lt

theorem Numbered.run {w : Interleaving α σ} (h : w.Numbered) (b : Behaviour α σ)
    (turns : List (Turn α σ)) : (w.run b turns).Numbered := by
  induction turns generalizing w with
  | nil => exact h
  | cons turn turns ih => exact ih (h.step b turn)

/-! ## One completion -/

/-- A completion has applied its result and told nobody yet. -/
structure Pending (w : Interleaving α σ) (u : Underway α σ) : Prop where
  mem : u ∈ w.underway
  untold : u.told = false
  unmade : ∀ call, (u.number, call) ∉ w.made

/-- A completion has called those that it had taken. -/
structure Settled (b : Behaviour α σ) (w : Interleaving α σ) (u : Underway α σ) : Prop where
  told : ∀ v ∈ w.underway, v.number = u.number → v.told = true
  made : ∃ delivery : Delivery α, delivery.result = u.result ∧
    ∀ call, (u.number, call) ∈ w.made ↔ call ∈ u.held.filterMap (Subscription.call? b delivery)

section

variable {b : Behaviour α σ} {w : Interleaving α σ} {u : Underway α σ}

theorem Numbered.eq_of_number (h : w.Numbered) {v : Underway α σ} (hu : u ∈ w.underway)
    (hv : v ∈ w.underway) (hnumber : v.number = u.number) : v = u :=
  List.inj_on_of_nodup_map h.nodup hv hu hnumber

theorem Pending.tell (h : w.Pending u) (hnumbered : w.Numbered) :
    Settled b (w.step b (.tell u.number)) u := by
  obtain ⟨found, others, hpick⟩ := exists_pick? h.mem rfl
  obtain ⟨hnumber, hperm⟩ := pick?_perm hpick
  obtain rfl : found = u :=
    hnumbered.eq_of_number h.mem (hperm.mem_iff.2 List.mem_cons_self) hnumber
  have hnodup : (found.number :: others.map Underway.number).Nodup :=
    (hperm.map Underway.number).nodup_iff.1 hnumbered.nodup
  rw [Interleaving.step, hpick]
  dsimp only
  rw [if_neg (Bool.eq_false_iff.1 h.untold)]
  refine ⟨fun v hv hsame => ?_, ⟨found.result, w.poller.current⟩, rfl, fun call => ?_⟩
  · rcases List.mem_cons.1 hv with rfl | hv
    · rfl
    · exact absurd (hsame ▸ List.mem_map_of_mem hv) (List.nodup_cons.1 hnodup).1
  · rw [List.mem_append, or_iff_right (h.unmade call), List.mem_map,
      ← (Notifies.notify b found.result w.poller found.held).calls]
    simp

theorem Pending.step (h : w.Pending u) {turn : Turn α σ}
    (hturn : turn ≠ .tell u.number) : (w.step b turn).Pending u := by
  cases progress_step b w turn with
  | idle hunderway _ hmade =>
    refine ⟨?_, h.untold, ?_⟩
    · rw [hunderway]
      exact h.mem
    · rw [hmade]
      exact h.unmade
  | applied v _ hunderway _ hmade =>
    refine ⟨?_, h.untold, ?_⟩
    · rw [hunderway]
      exact List.mem_cons_of_mem v h.mem
    · rw [hmade]
      exact h.unmade
  | told v v' others calls hturn_eq _ _ _ hperm hunderway _ hmade =>
    have hother : v.number ≠ u.number := fun hsame => hturn (hturn_eq.trans (hsame ▸ rfl))
    refine ⟨?_, h.untold, fun call => ?_⟩
    · rw [hunderway]
      apply List.mem_cons_of_mem
      refine (List.mem_cons.1 (hperm.mem_iff.1 h.mem)).resolve_left fun hsame => ?_
      exact hother (congrArg Underway.number hsame.symm)
    · rw [hmade, List.mem_append, not_or]
      refine ⟨h.unmade call, fun hmem => ?_⟩
      obtain ⟨made, -, hcall⟩ := List.mem_map.1 hmem
      exact hother (congrArg Prod.fst hcall)
  | returned v others htold hperm hunderway _ hmade =>
    refine ⟨?_, h.untold, ?_⟩
    · rw [hunderway]
      refine (List.mem_cons.1 (hperm.mem_iff.1 h.mem)).resolve_left fun hsame => ?_
      exact absurd (hsame ▸ htold) (Bool.eq_false_iff.1 h.untold)
    · rw [hmade]
      exact h.unmade

theorem Settled.step (h : w.Settled b u) (hlt : u.number < w.completions) (turn : Turn α σ) :
    (w.step b turn).Settled b u := by
  obtain ⟨htold, delivery, hresult, hcalls⟩ := h
  cases progress_step b w turn with
  | idle hunderway _ hmade =>
    refine ⟨?_, delivery, hresult, ?_⟩
    · rw [hunderway]
      exact htold
    · rw [hmade]
      exact hcalls
  | applied v hnumber hunderway _ hmade =>
    refine ⟨?_, delivery, hresult, ?_⟩
    · rw [hunderway, List.forall_mem_cons, hnumber]
      exact ⟨fun hsame => absurd hsame (Nat.ne_of_gt hlt), htold⟩
    · rw [hmade]
      exact hcalls
  | told v v' others calls _ huntold htold' hnumber hperm hunderway _ hmade =>
    have hother : v.number ≠ u.number := by
      intro hsame
      have hagain := htold v (hperm.mem_iff.2 List.mem_cons_self) hsame
      exact Bool.eq_false_iff.1 huntold hagain
    refine ⟨?_, delivery, hresult, fun call => ?_⟩
    · rw [hunderway, List.forall_mem_cons]
      exact ⟨fun _ => htold', fun x hx => htold x (hperm.mem_iff.2 (List.mem_cons_of_mem v hx))⟩
    · rw [hmade, List.mem_append, ← hcalls call, or_iff_left]
      intro hmem
      obtain ⟨made, -, hcall⟩ := List.mem_map.1 hmem
      exact hother (congrArg Prod.fst hcall)
  | returned v others _ hperm hunderway _ hmade =>
    refine ⟨?_, delivery, hresult, ?_⟩
    · rw [hunderway]
      exact fun x hx => htold x (hperm.mem_iff.2 (List.mem_cons_of_mem v hx))
    · rw [hmade]
      exact hcalls

theorem Settled.run (h : w.Settled b u) (hlt : u.number < w.completions)
    (turns : List (Turn α σ)) : (w.run b turns).Settled b u := by
  induction turns generalizing w with
  | nil => exact h
  | cons turn turns ih =>
    exact ih (h.step hlt turn) (hlt.trans_le (completions_le_step b w turn))

theorem Pending.run (h : w.Pending u) (hnumbered : w.Numbered) {turns : List (Turn α σ)}
    (hturn : .tell u.number ∈ turns) : (w.run b turns).Settled b u := by
  induction turns generalizing w with
  | nil => cases hturn
  | cons turn turns ih =>
    by_cases hnow : turn = .tell u.number
    · rw [hnow]
      have hlt := (hnumbered.number_lt u h.mem).trans_le
        (completions_le_step b w (.tell u.number))
      exact (h.tell hnumbered).run hlt turns
    · refine ih (h.step hnow) (hnumbered.step b turn) ?_
      exact (List.mem_cons.1 hturn).resolve_left (Ne.symm hnow)

end

/-! ## The main statement -/

theorem exists_call_iff {b : Behaviour α σ} {delivery : Delivery α}
    {subscribers : List (Subscription α σ)} {ticket : Nat} :
    (∃ call ∈ subscribers.filterMap (Subscription.call? b delivery), call.ticket = ticket) ↔
      ∃ observer, ⟨ticket, .observer observer⟩ ∈ subscribers := by
  constructor
  · rintro ⟨call, hcall, hticket⟩
    obtain ⟨⟨ticket', role⟩, hmem, hcall⟩ := List.mem_filterMap.1 hcall
    cases role with
    | observer observer =>
      cases hcall
      cases hticket
      exact ⟨observer, hmem⟩
    | waiter accepts => cases hcall
    | cancelled => cases hcall
  · rintro ⟨observer, hmem⟩
    exact ⟨_, List.mem_filterMap.2 ⟨_, hmem, rfl⟩, rfl⟩

/-- Completions take turns in any order, with each other and with moves from outside.  When a result
is applied, an observer that was registered before and is not done is called with it by the
completion if and only if no other completion holds the observer at that moment. -/
theorem called_iff_not_held (b : Behaviour α σ) (policy : Policy)
    (before after : List (Turn α σ)) (fetch : Issue) (result : Outcome α) (ticket : Nat) :
    let w := (fresh policy).run b before
    w.poller.isStale fetch.run fetch.seq = false → w.Stands ticket →
    .tell w.completions ∈ after →
    let w' := (fresh policy).run b (before ++ .apply fetch result :: after)
    ((∃ call, (w.completions, call) ∈ w'.made ∧ call.ticket = ticket ∧
        call.delivery.result = result) ↔
      ∀ u ∈ w.underway, ∀ s ∈ u.held, s.ticket ≠ ticket) := by
  intro w hfresh hstands htell w'
  have hcoherent : w.Coherent := (coherent_fresh policy).run b before
  have hnumbered : w.Numbered := (numbered_fresh policy).run b before
  let u : Underway α σ := ⟨w.completions, result, false, w.poller.subscribers⟩
  have hpending : (w.step b (.apply fetch result)).Pending u := by
    rw [step, Poller.accept?_of_fresh hfresh]
    refine ⟨List.mem_cons_self, rfl, fun call hmade => ?_⟩
    exact Nat.lt_irrefl _ (hnumbered.made_lt _ hmade)
  have hw' : w' = (w.step b (.apply fetch result)).run b after := run_append _ _ _ _
  have hsettled : w'.Settled b u := by
    rw [hw']
    exact hpending.run (hnumbered.step b _) htell
  obtain ⟨-, delivery, hdelivery, hmade⟩ := hsettled
  have hopen : w.poller.closed = false := hcoherent.isTidy.closed_of_fresh hfresh
  have hcalled : (∃ call, (w.completions, call) ∈ w'.made ∧ call.ticket = ticket ∧
      call.delivery.result = result) ↔
      ∃ observer, ⟨ticket, .observer observer⟩ ∈ w.poller.subscribers := by
    constructor
    · rintro ⟨call, hcall, hticket, -⟩
      exact exists_call_iff.1 ⟨call, (hmade call).1 hcall, hticket⟩
    · intro hmem
      obtain ⟨call, hcall, hticket⟩ := exists_call_iff.2 hmem
      obtain ⟨s, -, hs⟩ := List.mem_filterMap.1 hcall
      refine ⟨call, (hmade call).2 hcall, hticket, ?_⟩
      rw [Subscription.delivery_of_call? hs]
      exact hdelivery
  rw [hcalled]
  constructor
  · rintro ⟨observer, hmem⟩ v hv s hs rfl
    have hunique := hcoherent.unique s.ticket
    have hfirst := length_underTicket_pos hmem
    have hsecond := length_underTicket_pos (List.mem_flatMap.2 ⟨v, hv, hs⟩)
    rw [everybody, underTicket_append, List.length_append] at hunique
    exact absurd hunique (Nat.not_le.2 (Nat.add_le_add hfirst hsecond))
  · intro hfree
    obtain ⟨observer, hplace⟩ := hcoherent.place hopen ticket hstands
    refine ⟨observer, (List.mem_append.1 hplace).resolve_right fun hheld => ?_⟩
    obtain ⟨v, hv, hs⟩ := List.mem_flatMap.1 hheld
    exact hfree v hv _ hs rfl

def faithful : Behaviour Nat Unit := ⟨fun observer _ => ⟨false, observer, []⟩⟩

def twoFetches : List (Turn Nat Unit) :=
  [.move (.subscribe (.observer ())), .move .start, .move (.tick 1), .move (.tick 1)]

theorem stands_twoFetches : ((fresh {}).run faithful twoFetches).Stands 0 :=
  ⟨⟨(), rfl⟩, fun _ hcall => absurd hcall List.not_mem_nil⟩

theorem called_iff_not_held_alone :
    ∃ call, (0, call) ∈ ((fresh {}).run faithful
        (twoFetches ++ [.apply ⟨1, 0⟩ (.success 10), .tell 0, .putBack 0])).made ∧
      call.ticket = 0 ∧ call.delivery.result = .success 10 :=
  (called_iff_not_held faithful {} twoFetches [.tell 0, .putBack 0] ⟨1, 0⟩ (.success 10) 0 rfl
    stands_twoFetches List.mem_cons_self).2 fun _ hu => absurd hu List.not_mem_nil

/-- The second fetch is applied before the observer is told of the first one.  The observer stands,
is never done and is registered in the end, but the completion of the second fetch calls nobody. -/
theorem second_completion_calls_nobody :
    let w := (fresh {}).run faithful (twoFetches ++ [.apply ⟨1, 0⟩ (.success 10)])
    let w' := (fresh {}).run faithful (twoFetches ++ [.apply ⟨1, 0⟩ (.success 10),
      .apply ⟨1, 1⟩ (.success 11), .tell 0, .tell 1, .putBack 0, .putBack 1])
    w.Stands 0 ∧ w.poller.isStale 1 1 = false ∧ w'.Stands 0 ∧ w'.poller.closed = false ∧
      applications (happenings w'.entries) =
        [(⟨1, 0⟩, .success 10), (⟨1, 1⟩, .success 11)] ∧
      w'.made = [(0, ⟨0, (), ⟨.success 10, .success 11⟩, false⟩)] ∧
      ¬∃ call, (1, call) ∈ w'.made := by
  intro w w'
  have hmade : w'.made = [(0, ⟨0, (), ⟨.success 10, .success 11⟩, false⟩)] := rfl
  have hcalls : calls (happenings w'.entries) = [⟨0, (), ⟨.success 10, .success 11⟩, false⟩] := rfl
  refine ⟨⟨⟨(), rfl⟩, fun _ hcall => absurd hcall List.not_mem_nil⟩, rfl, ⟨⟨(), rfl⟩, ?_⟩, rfl, rfl,
    hmade, ?_⟩
  · intro call hcall _
    rw [hcalls, List.mem_singleton] at hcall
    rw [hcall]
  · rintro ⟨call, hcall⟩
    rw [hmade, List.mem_singleton] at hcall
    cases hcall

end Interleaving

end PoolWatch
