/-!
# Outcomes of fetches

A fetch ends in a value or in an error of one of four kinds. What a consumer sees is such an
outcome, or that nothing has arrived yet.
-/

namespace PoolWatch

inductive FetchError where
  | network (text : String)
  | decode (text : String)
  | authExpired (text : String)
  | internal (text : String)
  deriving DecidableEq, Repr

namespace FetchError

def kind : FetchError → String
  | .network _ => "network"
  | .decode _ => "decode"
  | .authExpired _ => "auth"
  | .internal _ => "internal"

def text : FetchError → String
  | .network text | .decode text | .authExpired text | .internal text => text

def message : FetchError → String
  | .network text => "network error: " ++ text
  | .decode text => "decode error: " ++ text
  | .authExpired text => "session expired: " ++ text
  | .internal text => "internal error: " ++ text

end FetchError

inductive Outcome (α : Type) where
  | success (value : α)
  | failure (error : FetchError)
  deriving DecidableEq, Repr

inductive Shown (α : Type) where
  | loading
  | success (value : α)
  | failure (error : FetchError)
  deriving DecidableEq, Repr

namespace Outcome

variable {α β : Type}

def eliminate {γ : Type} (onSuccess : α → γ) (onFailure : FetchError → γ) : Outcome α → γ
  | .success value => onSuccess value
  | .failure error => onFailure error

def map (f : α → β) : Outcome α → Outcome β
  | .success value => .success (f value)
  | .failure error => .failure error

def getOrElse (fallback : Unit → α) : Outcome α → α
  | .success value => value
  | .failure _ => fallback ()

def value? : Outcome α → Option α
  | .success value => some value
  | .failure _ => none

def ofExcept : Except FetchError α → Outcome α
  | .ok value => .success value
  | .error error => .failure error

def toExcept : Outcome α → Except FetchError α
  | .success value => .ok value
  | .failure error => .error error

def shown : Outcome α → Shown α
  | .success value => .success value
  | .failure error => .failure error

@[simp] theorem ofExcept_toExcept (o : Outcome α) : ofExcept o.toExcept = o := by
  cases o <;> rfl

@[simp] theorem toExcept_ofExcept (r : Except FetchError α) : (ofExcept r).toExcept = r := by
  cases r <;> rfl

end Outcome

namespace Shown

variable {α β : Type}

instance : Inhabited (Shown α) := ⟨.loading⟩

def eliminate {γ : Type} (onSuccess : α → γ) (onFailure : FetchError → γ)
    (onLoading : Unit → γ) : Shown α → γ
  | .loading => onLoading ()
  | .success value => onSuccess value
  | .failure error => onFailure error

def map (f : α → β) : Shown α → Shown β
  | .loading => .loading
  | .success value => .success (f value)
  | .failure error => .failure error

def getOrElse (fallback : Unit → α) : Shown α → α
  | .success value => value
  | .loading | .failure _ => fallback ()

def isLoading : Shown α → Bool
  | .loading => true
  | .success _ | .failure _ => false

end Shown

end PoolWatch
