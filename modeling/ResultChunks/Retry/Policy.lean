import ResultChunks.Error
import ResultChunks.Log.Entry

/-!
# Whether to try again, and when

| Failure | Class | Budget |
|---|---|---|
| status 503 | `temporarilyUnavailable` | a number of retries and a total wait |
| status 429 | `rateLimited` | a number of retries and a total wait |
| status 408, other 5xx | `serverError` | a number of retries |
| the network failed | `connection` | a number of retries |
| anything else | none | no retry |

The wait before a retry is the one the server asked for. Otherwise it is the base delay, doubled
for each retry of the same class before this one, cut off at the longest delay, with a random
addition. `decide` settles one failure against an `Account`, which belongs to one operation, so
operations never share a budget. Waits are sums of durations; when such a sum leaves the range of
durations there is no decision at all.
-/

namespace ResultChunks

/-- A request method. -/
structure Method where
  name : String
deriving DecidableEq, Repr, Inhabited

namespace Method

/-- Ask for a resource. -/
def get : Method := ⟨"GET"⟩

/-- Hand something to a resource. -/
def post : Method := ⟨"POST"⟩

/-- Only these methods may be repeated. -/
def mayRepeat (m : Method) : Bool := m.name == "GET" || m.name == "PUT" || m.name == "POST"

end Method

/-- The limits within which an operation is repeated. -/
structure RetryPolicy where
  /-- Repeat after status 503. -/
  retryUnavailable : Bool := true
  /-- Repeat after status 429. -/
  retryRateLimited : Bool := true
  /-- The longest total wait after status 503. -/
  unavailableTimeout : Duration := .ofSecs 900
  /-- The longest total wait after status 429. -/
  rateLimitTimeout : Duration := .ofSecs 120
  /-- The most retries in each class. -/
  maxRetries : Nat := 5
  baseDelay : Duration := .ofSecs 1
  maxDelay : Duration := .ofSecs 10
  /-- The largest random addition, as a fraction of the delay. -/
  maxJitter : Binary64 := ⟨0x3fd0000000000000⟩
deriving DecidableEq, Repr, Inhabited

namespace Retry

/-- Retries made in one class and the time waited for them. -/
structure Budget where
  retries : Nat := 0
  waited : Duration := .zero
deriving DecidableEq, Repr, Inhabited

/-- Attempts have numbers of 32 bits, which are below this one. -/
def attemptLimit : Nat := Nat.pow 2 32

/-- What one operation has used up: a budget per class, its attempts and its total wait. -/
structure Account where
  unavailable : Budget := {}
  rateLimited : Budget := {}
  serverError : Budget := {}
  connection : Budget := {}
  attempts : Nat := 0
  waited : Duration := .zero
deriving DecidableEq, Repr, Inhabited

namespace Account

/-- The budget of a class. -/
def budget (a : Account) : FailureClass → Budget
  | .temporarilyUnavailable => a.unavailable
  | .rateLimited => a.rateLimited
  | .serverError => a.serverError
  | .connection => a.connection

/-- Replace the budget of a class. -/
def setBudget (a : Account) (cls : FailureClass) (b : Budget) : Account :=
  match cls with
  | .temporarilyUnavailable => { a with unavailable := b }
  | .rateLimited => { a with rateLimited := b }
  | .serverError => { a with serverError := b }
  | .connection => { a with connection := b }

@[simp] theorem budget_setBudget_self (a : Account) (cls : FailureClass) (b : Budget) :
    (a.setBudget cls b).budget cls = b := by cases cls <;> rfl

theorem budget_setBudget_of_ne (a : Account) {cls c : FailureClass} (b : Budget) (h : c ≠ cls) :
    (a.setBudget cls b).budget c = a.budget c := by
  cases cls <;> cases c <;> first | rfl | exact absurd rfl h

@[simp] theorem attempts_setBudget (a : Account) (cls : FailureClass) (b : Budget) :
    (a.setBudget cls b).attempts = a.attempts := by cases cls <;> rfl

@[simp] theorem waited_setBudget (a : Account) (cls : FailureClass) (b : Budget) :
    (a.setBudget cls b).waited = a.waited := by cases cls <;> rfl

/-- Retries that may still be made, over all classes. -/
def slack (a : Account) (maxRetries : Nat) : Nat :=
  (maxRetries - a.unavailable.retries) + (maxRetries - a.rateLimited.retries) +
    (maxRetries - a.serverError.retries) + (maxRetries - a.connection.retries)

end Account

/-- What follows a failure. -/
inductive Decision where
  /-- Try again after a wait. -/
  | retry (cls : FailureClass) (delay : Duration)
  /-- Report the error. -/
  | giveUp (error : FetchError)
deriving DecidableEq, Repr, Inhabited

end Retry

namespace RetryPolicy

open Retry

/-- The jitter is a fraction, and the first delay is not longer than the longest. -/
def validate (p : RetryPolicy) : Except ConfigFault Unit :=
  if !(Binary64.zero.le p.maxJitter && p.maxJitter.le .one) then
    .error (.jitterOutOfRange p.maxJitter)
  else if p.maxDelay < p.baseDelay then .error (.baseExceedsMax p.baseDelay p.maxDelay)
  else .ok ()

/-- The class of a failure, if it may be retried. -/
def classify (p : RetryPolicy) : FetchError → Option FailureClass
  | .http status _ _ =>
    if status = 503 then
      if p.retryUnavailable then some .temporarilyUnavailable else none
    else if status = 429 then
      if p.retryRateLimited then some .rateLimited else none
    else if status = 408 then some .serverError
    else if 500 ≤ status && status < 600 then some .serverError
    else none
  | .transport _ => some .connection
  | _ => none

/-- The factor of the `n`-th retry: the power of two, cut off at 32 bits. -/
def backoffFactor (n : Nat) : Nat := if n ≤ 32 then Nat.pow 2 (n - 1) else Nat.pow 2 32 - 1

/-- The wait before the `n`-th retry of a class, without a random addition. -/
def backoff (p : RetryPolicy) (n : Nat) : Duration :=
  (p.baseDelay.mulCapped (backoffFactor n)).shorter p.maxDelay

/-- The wait with its random addition. There is none without jitter or without a wait. -/
def jittered (p : RetryPolicy) (delay addition : Duration) : Duration :=
  if p.maxJitter.le .zero || delay = .zero then delay else delay + addition

/-- Does a wait before the `n`-th retry keep to what the random addition allows? -/
def withinJitter (p : RetryPolicy) (n : Nat) (delay : Duration) : Bool :=
  let least := p.backoff n
  -- a number is its magnitude over this power of two
  let unit := Nat.pow 2 1074
  least ≤ delay && delay.nanos * unit ≤ least.nanos * (unit + p.maxJitter.magnitude)

/-- The longest total wait of a class, if it has one. -/
def timeBudget (p : RetryPolicy) : FailureClass → Option Duration
  | .temporarilyUnavailable => some p.unavailableTimeout
  | .rateLimited => some p.rateLimitTimeout
  | .serverError => none
  | .connection => none

/-- The wait that a failure of a class asks for. -/
def delayFor (p : RetryPolicy) (addition : Duration) (b : Budget) (error : FetchError) : Duration :=
  error.retryAfter.getD (p.jittered (p.backoff (b.retries + 1)) addition)

/-- Report that the budget of a class ran out. -/
def exhausted (a : Account) (cls : FailureClass) (error : FetchError) : Decision :=
  .giveUp (.budgetExhausted cls a.attempts (a.budget cls).waited error)

/-- Does a wait fit into the total wait of a class? No answer if the sum leaves the range. -/
def fits? (p : RetryPolicy) (cls : FailureClass) (waited delay : Duration) : Option Bool :=
  match p.timeBudget cls with
  | none => some true
  | some limit => (waited.add? delay).map fun total => total ≤ limit

/-- Enter a wait into the account. -/
def charge? (a : Account) (cls : FailureClass) (delay : Duration) : Option Account := do
  let b := a.budget cls
  let waited ← b.waited.add? delay
  let total ← a.waited.add? delay
  some { a.setBudget cls ⟨b.retries + 1, waited⟩ with waited := total }

/-- Settle a failure of a class that may be retried. -/
def decideClass (p : RetryPolicy) (addition : Duration) (a : Account) (cls : FailureClass)
    (error : FetchError) : Option (Decision × Account) :=
  let b := a.budget cls
  if p.maxRetries ≤ b.retries then some (exhausted a cls error, a)
  else
    let delay := p.delayFor addition b error
    match p.fits? cls b.waited delay with
    | none => none
    | some false => some (exhausted a cls error, a)
    | some true => (charge? a cls delay).map fun a => (.retry cls delay, a)

/-- Settle the failure of the attempt counted last. `addition` is the random part of the wait. -/
def decide (p : RetryPolicy) (m : Method) (addition : Duration) (a : Account) (error : FetchError) :
    Option (Decision × Account) :=
  if !m.mayRepeat then some (.giveUp error, a)
  else
    match p.classify error with
    | none => some (.giveUp error, a)
    | some cls => p.decideClass addition a cls error

/-- What the log says about a decision. -/
def decisionLog (p : RetryPolicy) (m : Method) (error : FetchError) (d : Decision) :
    List Log.Entry :=
  match d with
  | .retry _ _ => []
  | .giveUp reported =>
    if !m.mayRepeat then
      [⟨.debug, .retry, s!"Not retrying {m.name} request: {error.message}"⟩]
    else
      match p.classify error, reported with
      | some _, .budgetExhausted cls attempts waited source =>
        [⟨.warn, .retry, s!"Retry budget for {cls.name} exhausted after {attempts} attempts " ++
          s!"({waited.text} waited): {source.message}"⟩]
      | _, _ => [⟨.debug, .retry, s!"Not retrying non-retryable error: {error.message}"⟩]

/-! ## A retry uses up slack -/

theorem slack_charge?_lt {a b : Account} {cls : FailureClass} {delay : Duration} {limit : Nat}
    (h : charge? a cls delay = some b) (hlt : (a.budget cls).retries < limit) :
    b.slack limit < a.slack limit := by
  unfold charge? at h
  cases h1 : (a.budget cls).waited.add? delay with
  | none => simp [h1] at h
  | some w =>
    cases h2 : a.waited.add? delay with
    | none => simp [h1, h2] at h
    | some t =>
      simp only [h1, h2, Option.bind_eq_bind, Option.bind_some, Option.some.injEq] at h
      subst h
      cases cls <;> simp only [Account.budget] at hlt <;>
        simp only [Account.slack, Account.setBudget, Account.budget] <;> omega

theorem slack_decide_lt {p : RetryPolicy} {m : Method} {addition delay : Duration} {a b : Account}
    {error : FetchError} {cls : FailureClass}
    (h : p.decide m addition a error = some (.retry cls delay, b)) :
    b.slack p.maxRetries < a.slack p.maxRetries := by
  unfold decide at h
  split at h
  · simp at h
  · split at h
    · simp at h
    · rename_i c hc
      unfold decideClass at h
      simp only at h
      split at h
      · simp [exhausted] at h
      · rename_i hlt
        split at h
        · simp at h
        · simp [exhausted] at h
        · obtain ⟨a', ha', heq⟩ := Option.map_eq_some_iff.1 h
          simp only [Prod.mk.injEq] at heq
          rw [← heq.2]
          exact slack_charge?_lt ha' (by omega)

end RetryPolicy

end ResultChunks
