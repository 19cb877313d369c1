import Mathlib.Data.List.DropRight
import PoolWatch.Fetch
/-!
# Fetches and the session

How a fetch ends is decided in two steps: by the status of the answer, and only for a success by
its body.  A session that a backend has rejected stays invalid until it is reset, whatever other
fetches bring.
-/

namespace PoolWatch

/-! ## How a fetch ends -/

/-- The answer says that the request was fulfilled. -/
def IsSuccess (code : Nat) : Prop := 200 ≤ code ∧ code < 300

/-- The answer says that the login is not valid. -/
def IsRejection (code : Nat) : Prop := code = 401 ∨ code = 403

namespace Exchange

def code? : Exchange → Option Nat
  | .unreachable _ => none
  | .broken code _ | .answered code _ => some code

/-- An answer came, and it says that the login is not valid. -/
def Rejects (e : Exchange) : Prop := ∃ code, e.code? = some code ∧ IsRejection code

/-- How a fetch ends, by what came of the request. -/
inductive EndsIn : Exchange → Outcome (List Report.Group) → Prop
  | unreachable (text : String) : EndsIn (.unreachable text) (.failure (.network text))
  | rejected {e : Exchange} {code : Nat} (hcode : e.code? = some code) (h : IsRejection code) :
    EndsIn e (.failure (.authExpired ("backend answered " ++ statusText code)))
  | refused {e : Exchange} {code : Nat} (hcode : e.code? = some code) (h : ¬IsSuccess code)
    (h' : ¬IsRejection code) :
    EndsIn e (.failure (.network ("backend answered " ++ statusText code)))
  | broken {code : Nat} (text : String) (h : IsSuccess code) :
    EndsIn (.broken code text) (.failure (.network text))
  | undecoded {code : Nat} {body : List UInt8} {problem : Json.Problem} (h : IsSuccess code)
    (hbody : Report.parse body = .error problem) :
    EndsIn (.answered code body) (.failure (.decode problem.message))
  | decoded {code : Nat} {body : List UInt8} {groups : List Report.Group} (h : IsSuccess code)
    (hbody : Report.parse body = .ok groups) :
    EndsIn (.answered code body) (.success groups)

theorem not_isSuccess_of_isRejection {code : Nat} (h : IsRejection code) : ¬IsSuccess code := by
  unfold IsSuccess IsRejection at *
  omega

section

variable {e : Exchange} {code : Nat} {o : Outcome (List Report.Group)}

theorem answered_of_isSuccess (h : IsSuccess code) (s : Session)
    (body : Outcome (List Report.Group)) : s.answered code body = (body, s) := by
  have hclass : StatusClass.ofCode code = .ok := if_pos h
  rw [Session.answered, hclass]

theorem answered_of_isRejection (h : IsRejection code) (s : Session)
    (body : Outcome (List Report.Group)) : s.answered code body =
      (.failure (.authExpired ("backend answered " ++ statusText code)), s.invalidate) := by
  have hclass : StatusClass.ofCode code = .authExpired :=
    (if_neg (not_isSuccess_of_isRejection h)).trans (if_pos h)
  rw [Session.answered, hclass]

theorem answered_of_not (h : ¬IsSuccess code) (h' : ¬IsRejection code) (s : Session)
    (body : Outcome (List Report.Group)) : s.answered code body =
      (.failure (.network ("backend answered " ++ statusText code)), s) := by
  have hclass : StatusClass.ofCode code = .failed := (if_neg h).trans (if_neg h')
  rw [Session.answered, hclass]

theorem exists_fetch_eq_answered (hcode : e.code? = some code) :
    ∃ body, ∀ s, e.fetch s = s.answered code body := by
  cases e with
  | unreachable text => cases hcode
  | broken code' text =>
    obtain rfl : code' = code := Option.some.inj hcode
    exact ⟨_, fun s => rfl⟩
  | answered code' body =>
    obtain rfl : code' = code := Option.some.inj hcode
    exact ⟨_, fun s => rfl⟩

theorem EndsIn.fetch_fst (h : EndsIn e o) (s : Session) : (e.fetch s).1 = o := by
  cases h with
  | unreachable text => rfl
  | rejected hcode h =>
    obtain ⟨body, hfetch⟩ := exists_fetch_eq_answered hcode
    rw [hfetch, answered_of_isRejection h]
  | refused hcode h h' =>
    obtain ⟨body, hfetch⟩ := exists_fetch_eq_answered hcode
    rw [hfetch, answered_of_not h h']
  | broken text h => rw [fetch, answered_of_isSuccess h]
  | undecoded h hbody => rw [fetch, answered_of_isSuccess h, decodeReport, hbody]
  | decoded h hbody => rw [fetch, answered_of_isSuccess h, decodeReport, hbody]

theorem exists_endsIn (e : Exchange) : ∃ o, EndsIn e o := by
  cases hcode : e.code? with
  | none =>
    cases e with
    | unreachable text => exact ⟨_, .unreachable text⟩
    | _ => cases hcode
  | some code =>
    by_cases hrejected : IsRejection code
    · exact ⟨_, .rejected hcode hrejected⟩
    · by_cases hsuccess : IsSuccess code
      · cases e with
        | unreachable text => cases hcode
        | broken code' text =>
          obtain rfl : code' = code := Option.some.inj hcode
          exact ⟨_, .broken text hsuccess⟩
        | answered code' body =>
          obtain rfl : code' = code := Option.some.inj hcode
          cases hbody : Report.parse body with
          | ok groups => exact ⟨_, .decoded hsuccess hbody⟩
          | error problem => exact ⟨_, .undecoded hsuccess hbody⟩
      · exact ⟨_, .refused hcode hsuccess hrejected⟩

theorem fetch_fst (e : Exchange) (s : Session) : (e.fetch s).1 = e.outcome := by
  obtain ⟨o, h⟩ := exists_endsIn e
  rw [outcome, h.fetch_fst, h.fetch_fst]

theorem outcome_eq_iff : e.outcome = o ↔ EndsIn e o := by
  refine ⟨?_, fun h => h.fetch_fst {}⟩
  rintro rfl
  obtain ⟨o, h⟩ := exists_endsIn e
  rwa [← e.fetch_fst {}, h.fetch_fst]

/-! What the cases of the table mean for each kind of outcome. -/

theorem outcome_eq_success_iff {groups : List Report.Group} :
    e.outcome = .success groups ↔
      ∃ code body, e = .answered code body ∧ IsSuccess code ∧ Report.parse body = .ok groups := by
  rw [outcome_eq_iff]
  constructor
  · rintro ⟨⟩
    exact ⟨_, _, rfl, ‹_›, ‹_›⟩
  · rintro ⟨code, body, rfl, h, hbody⟩
    exact .decoded h hbody

theorem outcome_eq_authExpired_iff {text : String} :
    e.outcome = .failure (.authExpired text) ↔
      ∃ code, e.code? = some code ∧ IsRejection code ∧
        text = "backend answered " ++ statusText code := by
  rw [outcome_eq_iff]
  constructor
  · rintro ⟨⟩
    exact ⟨_, ‹_›, ‹_›, rfl⟩
  · rintro ⟨code, hcode, h, rfl⟩
    exact .rejected hcode h

theorem outcome_eq_decode_iff {text : String} :
    e.outcome = .failure (.decode text) ↔
      ∃ code body problem, e = .answered code body ∧ IsSuccess code ∧
        Report.parse body = .error problem ∧ text = problem.message := by
  rw [outcome_eq_iff]
  constructor
  · rintro ⟨⟩
    exact ⟨_, _, _, rfl, ‹_›, ‹_›, rfl⟩
  · rintro ⟨code, body, problem, rfl, h, hbody, rfl⟩
    exact .undecoded h hbody

theorem outcome_eq_network_iff {text : String} :
    e.outcome = .failure (.network text) ↔
      e = .unreachable text ∨
      (∃ code, e = .broken code text ∧ IsSuccess code) ∨
      ∃ code, e.code? = some code ∧ ¬IsSuccess code ∧ ¬IsRejection code ∧
        text = "backend answered " ++ statusText code := by
  rw [outcome_eq_iff]
  constructor
  · intro h
    cases h with
    | unreachable => exact .inl rfl
    | broken text h => exact .inr (.inl ⟨_, rfl, h⟩)
    | refused hcode h h' => exact .inr (.inr ⟨_, hcode, h, h', rfl⟩)
  · rintro (rfl | ⟨code, rfl, h⟩ | ⟨code, hcode, h, h', rfl⟩)
    · exact .unreachable text
    · exact .broken text h
    · exact .refused hcode h h'

theorem outcome_ne_internal (e : Exchange) (text : String) :
    e.outcome ≠ .failure (.internal text) := by
  rw [Ne, outcome_eq_iff]
  rintro ⟨⟩

end

end Exchange

/-! ## The session -/

/-- What can happen to a session. -/
inductive SessionStep where
  | fetched (e : Exchange)
  | reset
  deriving DecidableEq

namespace Session

def step (s : Session) : SessionStep → Session
  | .fetched e => (e.fetch s).2
  | .reset => s.reset

def run (s : Session) (steps : List SessionStep) : Session := steps.foldl step s

/-- What happened after the last reset, or all that happened if there was none. -/
def sinceReset (steps : List SessionStep) : List SessionStep := steps.rtakeWhile (· ≠ .reset)

theorem run_append_singleton (s : Session) (steps : List SessionStep) (step : SessionStep) :
    s.run (steps ++ [step]) = (s.run steps).step step :=
  List.foldl_concat _ _ _ _

theorem sinceReset_append_fetched (steps : List SessionStep) (e : Exchange) :
    sinceReset (steps ++ [.fetched e]) = sinceReset steps ++ [.fetched e] :=
  List.rtakeWhile_concat_pos _ _ _ (decide_eq_true SessionStep.noConfusion)

theorem sinceReset_append_reset (steps : List SessionStep) :
    sinceReset (steps ++ [.reset]) = [] :=
  List.rtakeWhile_concat_neg _ _ _ (by decide)

theorem fetch_snd_of_rejects (s : Session) {e : Exchange} (h : e.Rejects) :
    (e.fetch s).2 = s.invalidate := by
  obtain ⟨code, hcode, hrejection⟩ := h
  obtain ⟨body, hfetch⟩ := Exchange.exists_fetch_eq_answered hcode
  rw [hfetch, Exchange.answered_of_isRejection hrejection]

theorem fetch_snd_of_not_rejects (s : Session) {e : Exchange} (h : ¬e.Rejects) :
    (e.fetch s).2 = s := by
  cases hcode : e.code? with
  | none =>
    cases e with
    | unreachable text => rfl
    | _ => cases hcode
  | some code =>
    have hrejection : ¬IsRejection code := fun hrejection => h ⟨code, hcode, hrejection⟩
    obtain ⟨body, hfetch⟩ := Exchange.exists_fetch_eq_answered hcode
    rw [hfetch]
    by_cases hsuccess : IsSuccess code
    · rw [Exchange.answered_of_isSuccess hsuccess]
    · rw [Exchange.answered_of_not hsuccess hrejection]

theorem valid_step_fetched (s : Session) (e : Exchange) :
    (s.step (.fetched e)).valid = true ↔ s.valid = true ∧ ¬e.Rejects := by
  show (e.fetch s).2.valid = true ↔ _
  by_cases h : e.Rejects
  · rw [fetch_snd_of_rejects s h]
    exact iff_of_false Bool.false_ne_true fun hvalid => hvalid.2 h
  · rw [fetch_snd_of_not_rejects s h]
    exact (and_iff_left h).symm

/-- A session that began valid is valid if nothing has rejected it since the last reset. -/
theorem valid_run_iff (steps : List SessionStep) :
    (run {} steps).valid = true ↔ ∀ e, .fetched e ∈ sinceReset steps → ¬e.Rejects := by
  induction steps using List.reverseRecOn with
  | nil => exact iff_of_true rfl fun e he => nomatch he
  | append_singleton steps step ih =>
    rw [run_append_singleton]
    cases step with
    | reset =>
      rw [sinceReset_append_reset]
      exact iff_of_true rfl fun e he => nomatch he
    | fetched e =>
      rw [valid_step_fetched, ih, sinceReset_append_fetched]
      simp only [List.mem_append, List.mem_singleton, SessionStep.fetched.injEq, or_imp,
        forall_and, forall_eq]

/-- A fetch succeeds if and only if the body of a success was read and is a report.  A rejection
ends it as expired, whatever the body, a body that is no report as undecoded, and everything else
as an error of the network, whatever the session.  Only a rejection ends the session; so after any
fetches and resets it is valid if and only if no answer since the last reset was a rejection. -/
theorem session_follows_answers :
    (∀ e : Exchange,
      (∀ groups, e.outcome = .success groups ↔ ∃ code body, e = .answered code body ∧
        IsSuccess code ∧ Report.parse body = .ok groups) ∧
      (∀ text, e.outcome = .failure (.authExpired text) ↔ ∃ code, e.code? = some code ∧
        IsRejection code ∧ text = "backend answered " ++ statusText code) ∧
      (∀ text, e.outcome = .failure (.decode text) ↔ ∃ code body problem,
        e = .answered code body ∧ IsSuccess code ∧ Report.parse body = .error problem ∧
          text = problem.message) ∧
      (∀ text, e.outcome = .failure (.network text) ↔ e = .unreachable text ∨
        (∃ code, e = .broken code text ∧ IsSuccess code) ∨
        ∃ code, e.code? = some code ∧ ¬IsSuccess code ∧ ¬IsRejection code ∧
          text = "backend answered " ++ statusText code) ∧
      (∀ text, e.outcome ≠ .failure (.internal text)) ∧
      ∀ s : Session, (e.fetch s).1 = e.outcome ∧
        (e.Rejects → (e.fetch s).2 = s.invalidate) ∧ (¬e.Rejects → (e.fetch s).2 = s)) ∧
    ∀ steps, (run {} steps).valid = true ↔
      ∀ e, .fetched e ∈ sinceReset steps → ¬e.Rejects := by
  refine ⟨fun e => ⟨fun _ => e.outcome_eq_success_iff, fun _ => e.outcome_eq_authExpired_iff,
    fun _ => e.outcome_eq_decode_iff, fun _ => e.outcome_eq_network_iff, e.outcome_ne_internal,
    fun s => ⟨e.fetch_fst s, s.fetch_snd_of_rejects, s.fetch_snd_of_not_rejects⟩⟩, valid_run_iff⟩

theorem session_ends_and_stays_ended :
    ((Exchange.answered 403 []).fetch {}).2 = Session.invalidate {} ∧
      ((Exchange.answered 200 [91, 93]).fetch ⟨false⟩).2 = ⟨false⟩ ∧
      ¬(run {} [.reset, .fetched (.answered 403 []),
        .fetched (.answered 200 [91, 93])]).valid = true := by
  have hrejects : (Exchange.answered 403 []).Rejects := ⟨403, rfl, .inr rfl⟩
  have haccepts : ¬(Exchange.answered 200 [91, 93]).Rejects := by
    rintro ⟨code, ⟨⟩, h | h⟩ <;> cases h
  refine ⟨((session_follows_answers.1 _).2.2.2.2.2 _).2.1 hrejects,
    ((session_follows_answers.1 _).2.2.2.2.2 _).2.2 haccepts, fun hvalid => ?_⟩
  exact (session_follows_answers.2 _).1 hvalid _ (by decide) hrejects

end Session

end PoolWatch
